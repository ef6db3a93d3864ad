import Liric.Source.Wasm.Decode
import Liric.Lib.StateTriple

/-!
# The WASM decoder and the bounds of its input

Every reader keeps `pos ≤ len`, so a section that is declared to end inside the
input is decoded inside it. Two sizes are taken from the input without a check:
the length of a section, and in a code entry the size of the body, against the
end of the section and against the locals it must cover. `SizesFit` says that
they are consistent, and `decode_stays_inside` that nothing else can go wrong.
-/
namespace Liric.Guarantees.WasmDecode
open Source.Wasm Lib

variable {c : Cursor} {α : Type} {x : Reader α} {m : WasmModule}

theorem sizeSub_eq {a b : Nat} (hb : b ≤ a) : sizeSub a b = a - b := if_pos hb

/-- Every read so far was from the `n` bytes of the input. -/
def ReadsInside (n : Nat) (c : Cursor) : Prop := ∀ r ∈ c.reads, r < n

/-- A cursor over a section that ends at `stop`, at or behind `start`. -/
structure Inside (n start stop : Nat) (c : Cursor) : Prop where
  len_eq : c.len = stop
  start_le : start ≤ c.pos
  pos_le : c.pos ≤ stop
  reads : ReadsInside n c

theorem ReadsInside.touch {n : Nat} (h : ReadsInside n c) {start k : Nat} (hk : start + k ≤ n) :
    ReadsInside n (c.touch start k) := by
  intro r hr
  rcases List.mem_append.mp hr with hnew | hold
  · obtain ⟨i, hi, rfl⟩ := List.mem_map.mp hnew
    rw [List.mem_range] at hi
    omega
  · exact h r hold

/-- A reader of at most `len` bytes. -/
def Bounded {w : Nat} (r : Leb w) (len : Nat) : Prop := r.touched ≤ len ∧ r.consumed ≤ len

theorem lebU32Loop_bounded (buf : Nat → UInt8) (len fuel i shift : Nat) (result : BitVec 32)
    (hi : i ≤ len) : Bounded (lebU32Loop buf len fuel i shift result) len := by
  induction fuel generalizing i shift result with
  | zero => exact ⟨hi, Nat.zero_le _⟩
  | succ fuel ih =>
    unfold lebU32Loop
    split
    · rename_i hlt
      simp only
      split
      · exact ⟨hlt, hlt⟩
      · split
        · exact ⟨hlt, Nat.zero_le _⟩
        · exact ih (i + 1) _ _ hlt
    · exact ⟨hi, Nat.zero_le _⟩

theorem lebSignExtend_bounded (w : Nat) {i len : Nat} (shift : Nat) (b : UInt8) (result : BitVec w)
    (hi : i ≤ len) : Bounded (lebSignExtend w i shift b result) len := by
  unfold lebSignExtend
  split
  · exact ⟨Nat.zero_le _, Nat.zero_le _⟩
  · split
    · exact ⟨hi, hi⟩
    · exact ⟨hi, hi⟩

theorem lebSignedLoop_bounded (w limit : Nat) (buf : Nat → UInt8) (len fuel i shift : Nat)
    (last : UInt8) (result : BitVec w) (hi : i ≤ len) :
    Bounded (lebSignedLoop w limit buf len fuel i shift last result) len := by
  induction fuel generalizing i shift last result with
  | zero => exact ⟨hi, Nat.zero_le _⟩
  | succ fuel ih =>
    unfold lebSignedLoop
    split
    · rename_i hlt
      simp only
      split
      · exact lebSignExtend_bounded w _ _ _ hlt
      · split
        · exact ⟨hlt, Nat.zero_le _⟩
        · exact ih (i + 1) _ _ _ hlt
    · exact lebSignExtend_bounded w _ _ _ hi

/-- A section that ends inside an input; no object is larger than `PTRDIFF_MAX`. -/
class Room (n stop : Nat) : Prop where
  stop_le : stop ≤ n
  small : n < 2 ^ 63

section
variable (data : Nat → UInt8) {n start stop : Nat} [hroom : Room n stop]

instance curU8_keeps : Keeps (Inside n start stop) (curU8 data) := by
  constructor
  rintro c ⟨hlen, hstart, hpos, hreads⟩
  have hstop := hroom.stop_le
  unfold curU8
  split
  · exact ⟨hlen, hstart, hpos, hreads⟩
  · rename_i hlt
    exact ⟨hlen, by simp only; omega, by simp only; omega, hreads.touch (by omega)⟩

theorem curLeb_keeps {w : Nat} {read : (Nat → UInt8) → Nat → Leb w}
    (hread : ∀ buf len, Bounded (read buf len) len) :
    Keeps (Inside n start stop) (curLeb data read) := by
  constructor
  rintro c ⟨hlen, hstart, hpos, hreads⟩
  obtain ⟨hstop, hn⟩ := hroom
  have hroom : sizeSub c.len c.pos = stop - c.pos := by
    rw [hlen]
    exact sizeSub_eq hpos
  obtain ⟨htouched, hconsumed⟩ := hread (fun i => data (c.pos + i)) (stop - c.pos)
  have hroom' : c.pos + (read (fun i => data (c.pos + i)) (stop - c.pos)).touched ≤ n := by
    omega
  have hinside := hreads.touch hroom'
  simp only [curLeb, hroom]
  split
  · exact ⟨hlen, hstart, hpos, hinside⟩
  · refine ⟨hlen, ?_, ?_, hinside⟩
    · simp only [sizeAdd, Cursor.touch]
      omega
    · simp only [sizeAdd, Cursor.touch]
      omega

instance curU32_keeps : Keeps (Inside n start stop) (curU32 data) :=
  curLeb_keeps data fun buf len => lebU32Loop_bounded buf len 5 0 0 _ (Nat.zero_le _)

instance curI32_keeps : Keeps (Inside n start stop) (curI32 data) :=
  curLeb_keeps data fun buf len => lebSignedLoop_bounded 32 35 buf len 6 0 0 0 _ (Nat.zero_le _)

instance curI64_keeps : Keeps (Inside n start stop) (curI64 data) :=
  curLeb_keeps data fun buf len => lebSignedLoop_bounded 64 70 buf len 11 0 0 0 _ (Nat.zero_le _)

omit hroom in
instance curErr_keeps (msg : String) : Keeps (Inside n start stop) (curErr msg) :=
  ⟨fun _ h => ⟨h.len_eq, h.start_le, h.pos_le, h.reads⟩⟩

omit hroom in
instance hasFailed_keeps : Keeps (Inside n start stop) hasFailed := ⟨fun _ h => h⟩

omit hroom in
instance readIf_keeps {present : Bool} {x : Reader (BitVec 32)} [Keeps (Inside n start stop) x] :
    Keeps (Inside n start stop) (readIf present x) := Keeps.ite

/-- The bytes handed out lie inside the section. -/
theorem curBytes_spec {k : Nat} (hk : k < 2 ^ 32) :
    Triple (Inside n start stop) (curBytes k)
      (fun r c => Inside n start stop c ∧ (∀ at_, r = some at_ → at_ + k ≤ stop) ∧
        (r = none → c.failed = true)) := by
  rintro c ⟨hlen, hstart, hpos, hreads⟩
  obtain ⟨hstop, hn⟩ := hroom
  have hsum : sizeAdd c.pos k = c.pos + k := Nat.mod_eq_of_lt (by omega)
  simp only [curBytes, hsum]
  split
  · exact ⟨⟨hlen, hstart, hpos, hreads⟩, by simp, fun _ => rfl⟩
  · rename_i hfit
    refine ⟨⟨hlen, by simp only; omega, by simp only; omega, hreads⟩, ?_, by simp⟩
    simp only [Option.some.injEq]
    omega

instance curName_keeps : Keeps (Inside n start stop) (curName data) := by
  refine @Keeps.bind _ _ _ _ _ _ _ fun len => ?_
  refine @Keeps.bind _ _ _ _ _ _ _ fun failed => @Keeps.ite _ _ _ _ _ _ _ _ ⟨?_⟩
  refine Triple.bind (curBytes_spec len.isLt) (fun bytes => ?_)
  cases bytes with
  | none => exact Triple.pure (fun _ h => h.1)
  | some at_ =>
    rintro c ⟨h, hbytes, -⟩
    have hfit := hbytes at_ rfl
    have hstop := hroom.stop_le
    exact ⟨h.len_eq, h.start_le, h.pos_le, h.reads.touch (by omega)⟩

theorem repeatWhileOk_failed (x : Reader α) (k : Nat) (hf : c.failed = true) :
    repeatWhileOk x k c = ([], c) := by
  cases k with
  | zero => rfl
  | succ k =>
    change (if c.failed = true then (pure [] : Reader (List α)) else _) c = _
    rw [if_pos hf]
    rfl

theorem repeatWhileOk_step (x : Reader α) (k : Nat) (hf : c.failed = false) :
    repeatWhileOk x (k + 1) c =
      ((x c).1 :: (repeatWhileOk x k (x c).2).1, (repeatWhileOk x k (x c).2).2) := by
  change (if c.failed = true then (pure [] : Reader (List α)) else _) c = _
  rw [if_neg (by simp [hf])]
  rfl

/-- A loop that stops at the first failure keeps what one round keeps. -/
instance repeat_keeps {P : Cursor → Prop} [hx : Keeps P x] (k : Nat) :
    Keeps P (repeatWhileOk x k) := by
  constructor
  induction k with
  | zero => exact (Keeps.pure []).run
  | succ k ih =>
    intro c hc
    cases hf : c.failed with
    | true =>
      rw [repeatWhileOk_failed x _ hf]
      exact hc
    | false =>
      rw [repeatWhileOk_step x k hf]
      exact ih _ (hx.run c hc)

instance decodeVector_keeps [Keeps (Inside n start stop) x] :
    Keeps (Inside n start stop) (decodeVector data x) := Keeps.bind

instance decodeFuncType_keeps : Keeps (Inside n start stop) (decodeFuncType data) := Keeps.bind

instance decodeImportDesc_keeps (kind : UInt8) :
    Keeps (Inside n start stop) (decodeImportDesc data kind) := Keeps.ite

instance decodeImport_keeps : Keeps (Inside n start stop) (decodeImport data) := Keeps.bind

instance decodeMemory_keeps : Keeps (Inside n start stop) (decodeMemory data) := Keeps.bind

instance expectEnd_keeps (msg : String) : Keeps (Inside n start stop) (expectEnd data msg) :=
  Keeps.bind

instance decodeGlobalInit_keeps (op : UInt8) :
    Keeps (Inside n start stop) (decodeGlobalInit data op) := Keeps.ite

instance decodeGlobal_keeps : Keeps (Inside n start stop) (decodeGlobal data) := Keeps.bind

instance decodeExport_keeps : Keeps (Inside n start stop) (decodeExport data) := Keeps.bind

instance decodeLocalGroup_keeps : Keeps (Inside n start stop) (decodeLocalGroup data) := Keeps.bind

/-- The slice of a data segment lies inside the input. -/
def SegmentInside (n : Nat) (d : DataSegment) : Prop :=
  ∃ at_, d.bytes = some at_ ∧ at_ + d.size.toNat ≤ n

/-- The body of a code entry lies inside the input. -/
def BodyInside (n : Nat) (code : Code) : Prop := code.body + code.bodyLen ≤ n

theorem expectEnd_spec (msg : String) :
    Triple (Inside n start stop) (expectEnd data msg)
      (fun ok c => Inside n start stop c ∧ (ok = false → c.failed = true)) := by
  refine Triple.bind (curU8_keeps data).run (fun b => Triple.ite (fun _ => ?_) (fun _ => ?_))
  · intro c hc
    exact ⟨(curErr_keeps msg).run c hc, fun _ => rfl⟩
  · exact Triple.pure (fun c hc => ⟨hc, by simp⟩)

theorem decodeDataOffset_spec (segFlags : BitVec 32) :
    Triple (Inside n start stop) (decodeDataOffset data segFlags)
      (fun r c => Inside n start stop c ∧ (r.2 = false → c.failed = true)) := by
  refine Triple.ite (fun _ => ?_) (fun _ => Triple.pure (fun c hc => ⟨hc, by simp⟩))
  refine Triple.bind (curU8_keeps data).run (fun op => ?_)
  refine Triple.bind readIf_keeps.run (fun offset => ?_)
  exact Triple.bind (expectEnd_spec data _) (fun ok => Triple.pure (fun c hc => hc))

theorem decodeDataBytes_spec (memoryIdx offset : BitVec 32) (ok : Bool) :
    Triple (fun c => Inside n start stop c ∧ (ok = false → c.failed = true))
      (decodeDataBytes data memoryIdx offset ok)
      (fun d c => Inside n start stop c ∧ (c.failed = false → SegmentInside n d)) := by
  refine Triple.ite (fun _ => ?_) (fun hok => ?_)
  · refine Triple.bind ((curU32_keeps data).run.weaken (fun c hc => hc.1) (fun _ _ h => h))
      (fun size => ?_)
    refine Triple.bind (curBytes_spec size.isLt) (fun bytes => Triple.pure ?_)
    rintro c ⟨hc, hsome, hnone⟩
    refine ⟨hc, fun hok => ?_⟩
    cases hbytes : bytes with
    | none =>
      rw [hnone hbytes] at hok
      exact absurd hok (by decide)
    | some at_ =>
      have hfit := hsome at_ hbytes
      have hstop := hroom.stop_le
      exact ⟨at_, rfl, by simp only; omega⟩
  · refine Triple.pure ?_
    rintro c ⟨hc, hfailed⟩
    refine ⟨hc, fun hok' => ?_⟩
    rw [hfailed (by simpa using hok)] at hok'
    exact absurd hok' (by decide)

/-- A segment that was decoded without failure has its slice inside the input. -/
theorem decodeData_spec :
    Triple (Inside n start stop) (decodeData data)
      (fun d c => Inside n start stop c ∧ (c.failed = false → SegmentInside n d)) := by
  refine Triple.bind (curU32_keeps data).run (fun segFlags => ?_)
  refine Triple.bind readIf_keeps.run (fun memoryIdx => ?_)
  refine Triple.bind (decodeDataOffset_spec data segFlags) (fun r => ?_)
  exact decodeDataBytes_spec data memoryIdx r.1 r.2

/-- What every element has if the round that made it did not fail, all elements
of a loop have that did not fail. -/
theorem repeatWhileOk_spec {P : Cursor → Prop} {E : α → Prop}
    (hx : Triple P x (fun a c => P c ∧ (c.failed = false → E a))) (k : Nat) :
    Triple P (repeatWhileOk x k) (fun as c => P c ∧ (c.failed = false → ∀ a ∈ as, E a)) := by
  induction k with
  | zero => exact Triple.pure (fun c hc => ⟨hc, by simp⟩)
  | succ k ih =>
    intro c hc
    cases hf : c.failed with
    | true =>
      rw [repeatWhileOk_failed x _ hf]
      exact ⟨hc, by simp⟩
    | false =>
      obtain ⟨hP, hE⟩ := hx c hc
      obtain ⟨hP', hE'⟩ := ih _ hP
      rw [repeatWhileOk_step x k hf]
      refine ⟨hP', fun hok a ha => ?_⟩
      rcases List.mem_cons.mp ha with rfl | hrest
      · cases hf' : (x c).2.failed with
        | false => exact hE hf'
        | true =>
          rw [repeatWhileOk_failed x k hf'] at hok
          exact absurd hok (by simp [hf'])
      · exact hE' hok a hrest

/-- The declared size of the code entry at the cursor covers its local groups and
stays inside the section (unless the entry is rejected anyway). -/
def entryFits (c : Cursor) : Bool :=
  let ((bodySize, bodyStart, _), c') := decodeLocals data c
  c'.failed ||
    (decide (c'.pos ≤ bodyStart + bodySize.toNat) && decide (bodyStart + bodySize.toNat ≤ c.len))

/-- The same for the next `k` entries. -/
def entriesFit : Nat → Cursor → Bool
  | 0, _ => true
  | k + 1, c => c.failed || (entryFits data c && entriesFit k (decodeCode data c).2)

/-- Inside, or stopped by a failure. A failed code entry leaves its cursor
anywhere, but nothing is read from there. -/
def InsideOrFailed (n start stop : Nat) (c : Cursor) : Prop :=
  ReadsInside n c ∧ (c.failed = false → Inside n start stop c)

theorem decodeLocals_spec :
    Triple (Inside n start stop) (decodeLocals data)
      (fun r c => Inside n start stop c ∧ start ≤ r.2.1 ∧ r.2.1 ≤ c.pos) := by
  refine Triple.bind (curU32_keeps data).run (fun bodySize => ?_)
  have hcurPos : Triple (Inside n start stop) curPos
      (fun bodyStart c => start ≤ bodyStart ∧ Inside n bodyStart stop c) :=
    fun c hc => ⟨hc.start_le, hc.len_eq, le_rfl, hc.pos_le, hc.reads⟩
  refine Triple.bind hcurPos (fun bodyStart => Triple.assume (fun hstart => ?_))
  refine Triple.bind (curU32_keeps data).run (fun numLocalGroups => ?_)
  refine Triple.bind (repeat_keeps (x := decodeLocalGroup data) _).run (fun groups => ?_)
  refine Triple.pure (fun c hc => ⟨⟨hc.len_eq, ?_, hc.pos_le, hc.reads⟩, hstart, hc.start_le⟩)
  exact le_trans hstart hc.start_le

theorem decodeCode_eq {c' : Cursor} {bodySize : BitVec 32} {bodyStart : Nat}
    {groups : List LocalGroup} (h : decodeLocals data c = ((bodySize, bodyStart, groups), c')) :
    decodeCode data c =
      ({ localGroups := groups, body := c'.pos,
         bodyLen := sizeSub bodySize.toNat (sizeSub c'.pos bodyStart) },
       { c' with pos := sizeAdd bodyStart bodySize.toNat }) := by
  rw [decodeCode, bind_run h]
  rfl

theorem decodeCode_spec (h : Inside n start stop c) (hfits : entryFits data c = true) :
    InsideOrFailed n start stop (decodeCode data c).2 ∧
      ((decodeCode data c).2.failed = false → BodyInside n (decodeCode data c).1) := by
  obtain ⟨hin, hstart, hbody⟩ := decodeLocals_spec data c h
  obtain ⟨hstop, hn⟩ := hroom
  have hlen := h.len_eq
  unfold entryFits at hfits
  obtain ⟨⟨⟨bodySize, bodyStart, groups⟩, c'⟩, hrun⟩ :
      ∃ r, decodeLocals data c = r := ⟨_, rfl⟩
  rw [hrun] at hin hstart hbody hfits
  simp only [Bool.or_eq_true, Bool.and_eq_true, decide_eq_true_eq] at hin hstart hbody hfits
  rw [decodeCode_eq data hrun]
  have hsize := bodySize.isLt
  have hpos := hin.pos_le
  rcases hfits with hfailed | ⟨hcover, hend⟩
  · refine ⟨⟨hin.reads, fun hok => ?_⟩, fun hok => ?_⟩
    · simp [hfailed] at hok
    · simp [hfailed] at hok
  · have hnext : sizeAdd bodyStart bodySize.toNat = bodyStart + bodySize.toNat :=
      Nat.mod_eq_of_lt (by omega)
    have hlocals : sizeSub c'.pos bodyStart = c'.pos - bodyStart := sizeSub_eq hbody
    refine ⟨⟨hin.reads, fun _ => ⟨hin.len_eq, ?_, ?_, hin.reads⟩⟩, fun _ => ?_⟩
    · simp only [hnext]
      omega
    · simp only [hnext]
      omega
    · rw [BodyInside, hlocals, sizeSub_eq (by omega)]
      simp only
      omega

/-- Consistent entries are decoded inside the section, and their bodies lie in it. -/
theorem codes_spec (k : Nat) (h : InsideOrFailed n start stop c) (hfits : entriesFit data k c = true) :
    ReadsInside n (repeatWhileOk (decodeCode data) k c).2 ∧
      ((repeatWhileOk (decodeCode data) k c).2.failed = false →
        ∀ code ∈ (repeatWhileOk (decodeCode data) k c).1, BodyInside n code) := by
  induction k generalizing c with
  | zero => exact ⟨h.1, fun _ code hcode => by cases hcode⟩
  | succ k ih =>
    cases hf : c.failed with
    | true =>
      rw [repeatWhileOk_failed _ _ hf]
      exact ⟨h.1, fun _ code hcode => by cases hcode⟩
    | false =>
      rw [entriesFit, hf, Bool.false_or, Bool.and_eq_true] at hfits
      obtain ⟨hentry, hrest⟩ := hfits
      obtain ⟨hnext, hcode⟩ := decodeCode_spec data (h.2 hf) hentry
      obtain ⟨hreads, hcodes⟩ := ih hnext hrest
      rw [repeatWhileOk_step _ _ hf]
      refine ⟨hreads, fun hok code hmem => ?_⟩
      rcases List.mem_cons.mp hmem with rfl | htail
      · cases hf' : (decodeCode data c).2.failed with
        | false => exact hcode hf'
        | true =>
          rw [repeatWhileOk_failed _ k hf'] at hok
          exact absurd hok (by simp [hf'])
      · exact hcodes hok code htail

/-- All slices the module holds lie inside the input. -/
def ModuleInside (n : Nat) (m : WasmModule) : Prop :=
  (∀ code ∈ m.codes, BodyInside n code) ∧ ∀ d ∈ m.data, SegmentInside n d

/-- The sections `lr_wasm_decode` looks into; all others are skipped. -/
def isDecoded (secId : UInt8) : Bool := [1, 2, 3, 5, 6, 7, 10, 11].contains secId

/-- The entries of the code section at the cursor have consistent sizes. -/
def codeSectionFits (c : Cursor) : Bool :=
  let (count, c') := curU32 data c
  entriesFit data count.toNat c'

/-- A section that is looked into is declared to end inside the input, and if it
holds code, its entries have consistent sizes. -/
def sectionFits (secId : UInt8) (secLen : BitVec 32) (c : Cursor) : Bool :=
  (!isDecoded secId || decide (c.pos + secLen.toNat ≤ c.len)) &&
    (secId != 10 || codeSectionFits data (sectionCursor c secLen))

theorem decodeVector_spec {E : α → Prop}
    (hx : Triple (Inside n start stop) x
      (fun a c => Inside n start stop c ∧ (c.failed = false → E a))) :
    Triple (Inside n start stop) (decodeVector data x)
      (fun as c => Inside n start stop c ∧ (c.failed = false → ∀ a ∈ as, E a)) := by
  refine Triple.bind (curU32_keeps data).run (fun count => ?_)
  refine Triple.bind hasFailed_keeps.run (fun failed => Triple.ite (fun _ => ?_) (fun _ => ?_))
  · exact Triple.pure (fun c hc => ⟨hc, by simp⟩)
  · exact repeatWhileOk_spec hx count.toNat

omit hroom in
/-- A section decoder that only replaces parts of the module without slices. -/
theorem keeps_module {f : α → WasmModule} (hx : Keeps (Inside n start stop) x)
    (hf : ∀ a, ModuleInside n (f a)) :
    Triple (Inside n start stop) (do let a ← x; pure (f a))
      (fun m c => ReadsInside n c ∧ (c.failed = false → ModuleInside n m)) :=
  Triple.bind hx.run (fun a => Triple.pure (fun _ hc => ⟨hc.reads, fun _ => hf a⟩))

theorem decodeCodeSection_spec (h : Inside n start stop c)
    (hfits : codeSectionFits data c = true) (hm : ModuleInside n m) :
    ReadsInside n (decodeCodeSection data m c).2 ∧
      ((decodeCodeSection data m c).2.failed = false →
        ModuleInside n (decodeCodeSection data m c).1) := by
  have hcount := (curU32_keeps data).run c h
  obtain ⟨⟨count, c'⟩, hrun⟩ : ∃ r, curU32 data c = r := ⟨_, rfl⟩
  rw [codeSectionFits, hrun] at hfits
  rw [hrun] at hcount
  cases hf : c'.failed with
  | true =>
    have heq : decodeCodeSection data m c = ({ m with codes := [] }, c') := by
      have hfailed : hasFailed c' = (true, c') := by rw [hasFailed, hf]
      have hvector : decodeVector data (decodeCode data) c = ([], c') := by
        rw [decodeVector, bind_run hrun, bind_run hfailed, if_pos rfl]
        rfl
      rw [decodeCodeSection, bind_run hvector]
      rfl
    rw [heq]
    exact ⟨hcount.reads, fun hok => by simp [hf] at hok⟩
  | false =>
    have heq : decodeCodeSection data m c =
        ({ m with codes := (repeatWhileOk (decodeCode data) count.toNat c').1 },
          (repeatWhileOk (decodeCode data) count.toNat c').2) := by
      have hfailed : hasFailed c' = (false, c') := by rw [hasFailed, hf]
      have hvector : decodeVector data (decodeCode data) c =
          repeatWhileOk (decodeCode data) count.toNat c' := by
        rw [decodeVector, bind_run hrun, bind_run hfailed, if_neg (by decide)]
      rw [decodeCodeSection, bind_run hvector]
      rfl
    obtain ⟨hreads, hcodes⟩ := codes_spec data count.toNat ⟨hcount.reads, fun _ => hcount⟩ hfits
    rw [heq]
    exact ⟨hreads, fun hok => ⟨hcodes hok, hm.2⟩⟩

theorem decodeDataSection_spec (hm : ModuleInside n m) :
    Triple (Inside n start stop) (decodeDataSection data m)
      (fun m c => ReadsInside n c ∧ (c.failed = false → ModuleInside n m)) := by
  refine Triple.bind (decodeVector_spec data (decodeData_spec data)) (fun segments => Triple.pure ?_)
  rintro c ⟨hc, hsegments⟩
  exact ⟨hc.reads, fun hok => ⟨hm.1, hsegments hok⟩⟩

omit hroom in
/-- A section with consistent sizes is decoded inside the input. -/
theorem decodeSection_spec (hreads : ReadsInside n c) {secId : UInt8}
    (hinside : isDecoded secId = true → Inside n start stop c ∧ Room n stop)
    (hcode : secId = 10 → codeSectionFits data c = true) (hm : ModuleInside n m) :
    ReadsInside n (decodeSection data secId m c).2 ∧
      ((decodeSection data secId m c).2.failed = false →
        ModuleInside n (decodeSection data secId m c).1) := by
  have hspec : ∀ {id : UInt8} {x y : Reader WasmModule}, isDecoded id = true →
      (∀ [Room n stop], secId = id → Inside n start stop c → ReadsInside n (x c).2 ∧
        ((x c).2.failed = false → ModuleInside n (x c).1)) →
      (ReadsInside n (y c).2 ∧ ((y c).2.failed = false → ModuleInside n (y c).1)) →
      ReadsInside n ((if secId = id then x else y) c).2 ∧
        (((if secId = id then x else y) c).2.failed = false →
          ModuleInside n ((if secId = id then x else y) c).1) := by
    intro id x y hid hx hy
    split
    · next heq =>
      obtain ⟨hc, hroom⟩ := hinside (heq ▸ hid)
      exact hx heq hc
    · exact hy
  -- The six sections of vectors replace one field of the module each.
  iterate 6
    refine hspec rfl (fun _ => keeps_module (decodeVector_keeps data) (fun _ => ⟨hm.1, hm.2⟩) c) ?_
  refine hspec rfl (fun h10 hc => decodeCodeSection_spec data hc (hcode h10) hm) ?_
  refine hspec rfl (fun _ => decodeDataSection_spec data hm c) ?_
  exact ⟨hreads, fun _ => hm⟩

/-- The sizes of all sections the decoder reaches from the cursor are consistent. -/
def sizesFitFrom : Nat → WasmModule → Cursor → Bool
  | 0, _, _ => true
  | fuel + 1, m, c =>
    if c.pos < c.len ∧ c.failed = false then
      let ((secId, secLen), c) := sectionHeader data c
      c.failed || (sectionFits data secId secLen c &&
        let (m, sc) := decodeSection data secId m (sectionCursor c secLen)
        sc.failed || sizesFitFrom fuel m
          { sc with len := c.len, pos := sizeAdd c.pos secLen.toNat, failed := c.failed })
    else true

/-- The declared sizes of an input are consistent: every section that is looked
into ends inside the input, and every code entry covers its locals and ends
inside its section. -/
def SizesFit (len : Nat) : Prop :=
  (decodeHeader data { len := len, pos := 0 }).1 = true →
    sizesFitFrom data (len + 1) {} (decodeHeader data { len := len, pos := 0 }).2 = true

/-- The decoder ends, reads only offsets below `len`, and hands out only slices
of the first `len` bytes. -/
def StaysInside (len : Nat) : Prop :=
  ∃ result c, lrWasmDecode data len = some (result, c) ∧ ReadsInside len c ∧
    ∀ m, result = some m → ModuleInside len m

theorem sectionHeader_spec (hn : n < 2 ^ 63) (hlen : c.len = n) (hpos : c.pos < n)
    (hreads : ReadsInside n c) : Inside n (c.pos + 1) n (sectionHeader data c).2 := by
  have hfirst : (curU8 data c).2 = { c.touch c.pos 1 with pos := c.pos + 1 } := by
    rw [curU8, if_neg (by omega)]
  have h : Inside n (c.pos + 1) n (curU8 data c).2 := by
    rw [hfirst]
    exact ⟨hlen, le_rfl, hpos, hreads.touch (by omega)⟩
  have hroom : Room n n := ⟨le_refl n, hn⟩
  have hrest : Keeps (Inside n (c.pos + 1) n) (do
      let secLen ← curU32 data
      pure ((curU8 data c).1, secLen)) := Keeps.bind
  exact hrest.run _ h

theorem sectionLoop_spec (hn : n < 2 ^ 63) (fuel : Nat) (hlen : c.len = n)
    (hfuel : n - c.pos < fuel) (hreads : ReadsInside n c) (hm : ModuleInside n m)
    (hfits : sizesFitFrom data fuel m c = true) :
    ∃ result c', sectionLoop data fuel m c = some (result, c') ∧ ReadsInside n c' ∧
      ∀ m', result = some m' → ModuleInside n m' := by
  induction fuel generalizing m c with
  | zero => omega
  | succ fuel ih =>
    unfold sectionLoop
    unfold sizesFitFrom at hfits
    by_cases hmore : c.pos < c.len ∧ c.failed = false
    · rw [if_pos hmore] at hfits ⊢
      have hheader := sectionHeader_spec data hn hlen (by omega) hreads
      obtain ⟨⟨⟨secId, secLen⟩, c₁⟩, hrun⟩ : ∃ r, sectionHeader data c = r := ⟨_, rfl⟩
      rw [hrun] at hfits hheader ⊢
      simp only at hfits hheader ⊢
      cases hf : c₁.failed with
      | true => exact ⟨none, c₁, by simp, hheader.reads, by simp⟩
      | false =>
        rw [hf, Bool.false_or, Bool.and_eq_true, sectionFits, Bool.and_eq_true] at hfits
        obtain ⟨⟨hend, hcode⟩, hnext⟩ := hfits
        have hsize := secLen.isLt
        have hpos := hheader.pos_le
        have hstart := hheader.start_le
        have hsum : sizeAdd c₁.pos secLen.toNat = c₁.pos + secLen.toNat :=
          Nat.mod_eq_of_lt (by omega)
        -- a section that is looked into lies inside the input
        have hinside : isDecoded secId = true →
            Inside n c₁.pos (c₁.pos + secLen.toNat) (sectionCursor c₁ secLen) ∧
              Room n (c₁.pos + secLen.toNat) := by
          intro hdec
          rw [hdec, Bool.not_true, Bool.false_or, decide_eq_true_eq, hheader.len_eq] at hend
          exact ⟨⟨hsum, le_rfl, Nat.le_add_right _ _, hheader.reads⟩, hend, hn⟩
        have hcode' : secId = 10 → codeSectionFits data (sectionCursor c₁ secLen) = true := by
          intro hten
          simpa [hten] using hcode
        obtain ⟨hreads', hm'⟩ := decodeSection_spec data (c := sectionCursor c₁ secLen) hheader.reads hinside
          hcode' hm
        obtain ⟨⟨m₁, sc⟩, hsec⟩ : ∃ r, decodeSection data secId m (sectionCursor c₁ secLen) = r :=
          ⟨_, rfl⟩
        rw [hsec] at hnext hreads' hm' ⊢
        simp only [Bool.false_eq_true, if_false] at hnext hreads' hm' ⊢
        cases hsf : sc.failed with
        | true => exact ⟨none, sc, by simp, hreads', by simp⟩
        | false =>
          rw [hsf, Bool.false_or, hsum] at hnext
          simp only [Bool.false_eq_true, if_false, hsum]
          exact ih hheader.len_eq (by simp only; omega) hreads' (hm' hsf) hnext
    · rw [if_neg hmore]
      refine ⟨_, c, rfl, hreads, fun m' hm'' => ?_⟩
      cases hf : c.failed with
      | true => simp [hf] at hm''
      | false =>
        simp only [hf, Bool.false_eq_true, if_false, Option.some.injEq] at hm''
        exact hm'' ▸ hm

instance curU32Le_keeps : Keeps (Inside n start stop) (curU32Le data) := by
  constructor
  rintro c ⟨hlen, hstart, hpos, hreads⟩
  obtain ⟨hstop, hn⟩ := hroom
  have hsum : sizeAdd c.pos 4 = c.pos + 4 := Nat.mod_eq_of_lt (by omega)
  simp only [curU32Le, hsum]
  split
  · exact ⟨hlen, hstart, hpos, hreads⟩
  · exact ⟨hlen, by simp only; omega, by simp only; omega, hreads.touch (by omega)⟩

instance decodeHeader_keeps : Keeps (Inside n start stop) (decodeHeader data) := Keeps.bind

omit hroom in
/-- An input whose declared sizes are consistent is decoded inside its bounds. No
object is larger than `PTRDIFF_MAX`. -/
theorem decode_stays_inside (len : Nat) (hlen : len < 2 ^ 63) (hfits : SizesFit data len) :
    StaysInside data len := by
  have hroom : Room len len := ⟨le_refl len, hlen⟩
  have hheader : Inside len 0 len (decodeHeader data { len := len, pos := 0 }).2 :=
    (decodeHeader_keeps data).run _ ⟨rfl, le_rfl, Nat.zero_le _, by simp [ReadsInside]⟩
  unfold SizesFit at hfits
  unfold StaysInside lrWasmDecode
  obtain ⟨⟨ok, c⟩, hrun⟩ : ∃ r, decodeHeader data { len := len, pos := 0 } = r := ⟨_, rfl⟩
  rw [hrun] at hheader hfits ⊢
  simp only at hheader hfits ⊢
  cases ok with
  | false => exact ⟨none, c, by simp, hheader.reads, by simp⟩
  | true =>
    rw [if_pos rfl]
    exact sectionLoop_spec data hlen (len + 1) hheader.len_eq (by omega) hheader.reads
      ⟨by simp, by simp⟩ (hfits rfl)

end

/-- One function type, one function, and its body `end`. -/
def smallModule : List UInt8 :=
  [0x00, 0x61, 0x73, 0x6d, 0x01, 0x00, 0x00, 0x00,
    0x01, 0x04, 0x01, 0x60, 0x00, 0x00,
    0x03, 0x02, 0x01, 0x00,
    0x0a, 0x04, 0x01, 0x02, 0x00, 0x0b]

theorem decode_stays_inside_smallModule :
    SizesFit (fun i => smallModule.getD i 0) 24 ∧
      StaysInside (fun i => smallModule.getD i 0) 24 := by
  have hfits : SizesFit (fun i => smallModule.getD i 0) 24 := by
    unfold SizesFit
    decide +kernel
  exact ⟨hfits, decode_stays_inside _ 24 (by decide) hfits⟩

/-- A type section that declares five bytes where the input has none left. -/
def overlongSection : List UInt8 :=
  [0x00, 0x61, 0x73, 0x6d, 0x01, 0x00, 0x00, 0x00, 0x01, 0x05]

theorem overlongSection_reads_outside :
    ¬ StaysInside (fun i => overlongSection.getD i 0) 10 := by
  rintro ⟨result, c, hrun, hreads, -⟩
  have hread : (lrWasmDecode (fun i => overlongSection.getD i 0) 10).map
      (fun r => decide (10 ∈ r.2.reads)) = some true := by
    decide +kernel
  rw [hrun] at hread
  have hmem : 10 ∈ c.reads := by simpa using hread
  exact absurd (hreads 10 hmem) (by decide)

end Liric.Guarantees.WasmDecode
