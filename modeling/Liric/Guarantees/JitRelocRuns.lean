import Liric.Guarantees.JitLookup
import Liric.Guarantees.JitPatching

/-!
# Relocations on the bytes of the code

The loop over the relocations keeps what it writes as patches. Done on the bytes of the code
buffer all of them succeed, and each place denotes its target in the end if no two places
overlap.
-/
namespace Liric.Guarantees.JitRelocRuns
open Lib Source Source.Jit Source.Jit.Patching Source.Object JitPatching JitLookup List

/-- The field of a relocation of four bytes. -/
def fieldOf (type : UInt8) : Option Field :=
  if type = lrRelocX8664Pc32 ∨ type = lrRelocX8664Plt32 ∨ type = lrRelocX8664Gotpcrel then
    some .rel32
  else if type = lrRelocX866464 ∨ type = lrRelocArm64Abs64 then none
  else if type = lrRelocArm64Branch26 then some .branch26
  else if type = lrRelocArm64Page21 ∨ type = lrRelocArm64GotLoadPage21 then some .page21
  else if type = lrRelocArm64Pageoff12 then some (.pageoff12 false)
  else if type = lrRelocArm64GotLoadPageoff12 then some (.pageoff12 true)
  else none

/-- The conditions under which the patch functions write, in numbers. -/
def accepts : Field → Nat → Nat → Bool
  | .rel32 => Jit.patchX86Rel32
  | .branch26 => Jit.patchAarch64Branch26
  | .page21 => Jit.patchAarch64Page21
  | .pageoff12 gotLoad => fun _ target => Jit.patchAarch64Pageoff12 target gotLoad

section Decisions
variable {place target : Addr}

/-- The distance of addresses below `2 ^ 63` is that of the numbers. -/
theorem toInt_distance (place target : Addr) (hplace : place.toNat ≤ 2 ^ 63)
    (htarget : target.toNat < 2 ^ 63) : (target - place).toInt = target.toNat - place.toNat := by
  rw [BitVec.toInt_eq_toNat_cond, BitVec.toNat_sub]
  split <;> omega

theorem accepts_iff (hplace : place.toNat + 4 ≤ 2 ^ 63) (htarget : target.toNat < 2 ^ 63)
    (field : Field) :
    accepts field place.toNat target.toNat = true ↔ field.InRange place target := by
  have hnear := toInt_distance place target (by omega) htarget
  cases field with
  | rel32 =>
    have hnext : (place + 4).toNat = place.toNat + 4 := by
      rw [BitVec.toNat_add, Nat.mod_eq_of_lt (by simp; omega)]
      rfl
    have hdisp := toInt_distance (place + 4) target (by omega) htarget
    simp only [accepts, Jit.patchX86Rel32, decide_eq_true_eq, Field.InRange, hdisp, hnext]
  | branch26 =>
    simp only [accepts, Jit.patchAarch64Branch26, decide_eq_true_eq, Field.InRange, hnear]
  | page21 =>
    have hpages := pagesApart_toInt place target
    have hp := toNat_pageAddr place
    have ht := toNat_pageAddr target
    rw [toInt_distance _ _ (by omega) (by omega), hp, ht] at hpages
    simp only [accepts, Jit.patchAarch64Page21, decide_eq_true_eq, Field.InRange]
    omega
  | pageoff12 gotLoad =>
    rw [inRange_pageoff12]
    cases gotLoad <;> simp [accepts, Jit.patchAarch64Pageoff12]

end Decisions

/-- What the switches do for a type. -/
theorem type_cases (type : UInt8) :
    (∃ field, fieldOf type = some field ∧ patchWidth type = 4 ∧ patchable type = accepts field ∧
      ∀ code, patchReloc code type = field.patch code) ∨
    fieldOf type = none ∧ (patchWidth type = 8 ∧ (∀ place target, patchable type place target) ∧
      (∀ code, patchReloc code type = writeU64 code) ∨
      (∀ place target, patchable type place target = false) ∧
        ∀ code off target, patchReloc code type off target = (-1, code)) := by
  by_cases h : type ∈ ([2, 3, 4, 5, 6, 7, 20, 21, 22, 23] : List UInt8)
  · simp only [List.mem_cons, List.not_mem_nil, or_false] at h
    rcases h with rfl | rfl | rfl | rfl | rfl | rfl | rfl | rfl | rfl | rfl
    all_goals first
      | exact .inl ⟨_, rfl, rfl, rfl, fun _ => rfl⟩
      | exact .inr ⟨rfl, .inl ⟨rfl, fun _ _ => rfl, fun _ => rfl⟩⟩
  · refine .inr ⟨?_, .inr ⟨fun _ _ => ?_, fun _ _ _ => ?_⟩⟩
    all_goals simp_all [fieldOf, patchable, patchReloc, lrRelocX8664Pc32, lrRelocX8664Plt32,
      lrRelocX8664Gotpcrel, lrRelocX866464, lrRelocArm64Abs64, lrRelocArm64Branch26,
      lrRelocArm64Page21, lrRelocArm64GotLoadPage21, lrRelocArm64Pageoff12,
      lrRelocArm64GotLoadPageoff12]

/-- What the loop keeps of a patch that was written. -/
def Recorded (buf size : Nat) (p : Jit.Patch) : Prop :=
  patchable p.type (buf + p.offset) (p.slot.getD p.target) = true ∧
    p.offset + patchWidth p.type ≤ size

instance (buf size : Nat) (p : Jit.Patch) : Decidable (Recorded buf size p) :=
  inferInstanceAs (Decidable (_ ∧ _))

def off (p : Jit.Patch) : BitVec 32 := BitVec.ofNat 32 p.offset

def target (p : Jit.Patch) : Addr := BitVec.ofNat 64 (p.slot.getD p.target)

/-- The patches on the bytes, one after the other. -/
def patchAll (code : CodeBuf) (ps : List Jit.Patch) : Option CodeBuf :=
  ps.foldlM (fun code p =>
    let r := patchReloc code p.type (off p) (target p)
    if r.1 = 0 then some r.2 else none) code

/-- What stands at the place of a patch stands for its target. -/
def Denotes (code : CodeBuf) (p : Jit.Patch) : Prop :=
  match fieldOf p.type with
  | some field => field.Aligned (code.place (off p)) (target p) →
      field.Denotes (code.place (off p)) (target p) (wordAt code (off p))
  | none => bytesAt code.bytes p.offset 8 = leBytes 8 (target p).toNat

def PlacesApart (ps : List Jit.Patch) : Prop :=
  ps.Pairwise fun p q => Apart p.offset (patchWidth p.type) q.offset (patchWidth q.type)

def bytePatch (buf : Addr) (p : Jit.Patch) : Lib.Patch :=
  match fieldOf p.type with
  | some field => patchWord p.offset (field.insert (buf + (off p).setWidth 64) (target p))
  | none => patchQuad p.offset fun _ => (target p).toNat

section Runs
variable {code : CodeBuf} {p : Jit.Patch} {ps : List Jit.Patch} (hroom : code.buflen ≤ 2 ^ 32)
  (hlow : code.buf.toNat + code.buflen ≤ 2 ^ 63)

theorem off_eq (h : p.offset < 2 ^ 32) : (off p).toNat = p.offset :=
  (BitVec.toNat_ofNat ..).trans (Nat.mod_eq_of_lt h)

include hroom in
theorem Recorded.small (h : Recorded code.buf.toNat code.buflen p) : p.offset < 2 ^ 32 := by
  have hpos := patchWidth_pos p.type
  have hfits := h.2
  omega

include hlow in
theorem recorded_iff {field : Field} (hoffset : p.offset < 2 ^ 32)
    (htarget : p.slot.getD p.target < 2 ^ 63) (hwidth : patchWidth p.type = 4)
    (hsame : patchable p.type = accepts field) : Recorded code.buf.toNat code.buflen p ↔
      (off p).toNat + 4 ≤ code.buflen ∧ field.InRange (code.place (off p)) (target p) := by
  have hoff := off_eq hoffset
  have htargetNat : (target p).toNat = p.slot.getD p.target :=
    (BitVec.toNat_ofNat ..).trans (Nat.mod_eq_of_lt (by omega))
  rw [Recorded, hwidth, hsame, hoff, and_comm]
  refine and_congr_right fun hin => ?_
  have hplace : (code.place (off p)).toNat = code.buf.toNat + p.offset := by
    rw [CodeBuf.place, BitVec.toNat_add, BitVec.toNat_setWidth, hoff]
    omega
  rw [← accepts_iff (by omega) (by omega), hplace, htargetNat]

include hroom hlow

/-- The bytes are patched exactly if the loop writes. -/
theorem patchReloc_eq (hoffset : p.offset < 2 ^ 32) (htarget : p.slot.getD p.target < 2 ^ 63) :
    patchReloc code p.type (off p) (target p) = if Recorded code.buf.toNat code.buflen p then
      (0, { code with bytes := applyPatch code.bytes (bytePatch code.buf p) }) else (-1, code) := by
  obtain ⟨field, hfield, hwidth, hsame, hpatch⟩ |
    ⟨hfield, ⟨hwidth, hall, hpatch⟩ | ⟨hnone, hpatch⟩⟩ := type_cases p.type
  · simp only [hpatch, patch_eq hroom, Field.patched, bytePatch, hfield, off_eq hoffset,
      recorded_iff hlow hoffset htarget hwidth hsame]
    rfl
  · rw [hpatch, writeU64, off_eq hoffset, bytePatch, hfield]
    by_cases hin : p.offset + patchWidth p.type ≤ code.buflen
    · rw [if_neg (by omega), if_pos ⟨hall _ _, hin⟩]
      rfl
    · rw [if_pos (by omega), if_neg fun h => hin h.2]
  · rw [hpatch, if_neg fun h => by simp [Recorded, hnone] at h]

omit hroom hlow in
theorem bytePatch_shape (h : Recorded code.buf.toNat code.buflen p) :
    (bytePatch code.buf p).off = p.offset ∧ (bytePatch code.buf p).width = patchWidth p.type ∧
      (bytePatch code.buf p).Fits code.buflen := by
  have hfits := h.2
  rw [bytePatch]
  obtain ⟨field, hfield, hwidth, -⟩ | ⟨hfield, ⟨hwidth, -⟩ | ⟨hnone, -⟩⟩ := type_cases p.type
  · rw [hfield, hwidth]
    exact ⟨rfl, rfl, patchWord_fits (by omega)⟩
  · rw [hfield, hwidth]
    exact ⟨rfl, rfl, patchQuad_fits (by omega)⟩
  · simp [Recorded, hnone] at h

theorem patchAll_recorded
    (h : ∀ p ∈ ps, Recorded code.buf.toNat code.buflen p ∧ p.slot.getD p.target < 2 ^ 63) :
    patchAll code ps =
      some { code with bytes := patches code.bytes (ps.map (bytePatch code.buf)) } := by
  induction ps generalizing code with
  | nil => rfl
  | cons p ps ih =>
    obtain ⟨⟨hp, htarget⟩, hps⟩ := forall_mem_cons.1 h
    have hlen : (applyPatch code.bytes (bytePatch code.buf p)).length = code.buflen :=
      length_applyPatch (bytePatch_shape hp).2.2
    rw [patchAll, foldlM_cons, patchReloc_eq hroom hlow (hp.small hroom) htarget, if_pos hp]
    refine @ih { code with bytes := applyPatch code.bytes (bytePatch code.buf p) } ?_ ?_ ?_ <;>
      rw [CodeBuf.buflen, hlen] <;> assumption

/-- Places that do not overlap keep what their patches wrote. -/
theorem patchAll_denotes
    (h : ∀ p ∈ ps, Recorded code.buf.toNat code.buflen p ∧ p.slot.getD p.target < 2 ^ 63)
    (hapart : PlacesApart ps) (hp : p ∈ ps) :
    Denotes { code with bytes := patches code.bytes (ps.map (bytePatch code.buf)) } p := by
  have hshape := fun q hq => bytePatch_shape (h q hq).1
  have hbytes : bytesAt (patches code.bytes (ps.map (bytePatch code.buf))) _ _ = _ :=
    bytesAt_patches (forall_mem_map.2 fun q hq => (hshape q hq).2.2)
      (pairwise_map.2 (hapart.imp_of_mem fun {q r} hq hr hqr => by
        rwa [(hshape q hq).1, (hshape q hq).2.1, (hshape r hr).1, (hshape r hr).2.1]))
      (mem_map_of_mem hp)
  obtain ⟨hrecorded, htarget⟩ := h p hp
  have hoffset := hrecorded.small hroom
  rw [(hshape p hp).1, (hshape p hp).2.1, bytePatch] at hbytes
  rw [Denotes]
  obtain ⟨field, hfield, hwidth, hsame, -⟩ | ⟨hfield, ⟨hwidth, -⟩ | ⟨hnone, -⟩⟩ := type_cases p.type
  · rw [hfield, hwidth] at hbytes
    rw [hfield]
    intro haligned
    rw [wordAt, off_eq hoffset, hbytes]
    change field.Denotes _ _ (wordOf (leBytes 4 _))
    rw [wordOf_leBytes]
    exact Field.denotes_insert haligned
      ((recorded_iff hlow hoffset htarget hwidth hsame).1 hrecorded).2 _
  · rw [hfield, hwidth] at hbytes
    rw [hfield]
    exact hbytes
  · simp [Recorded, hnone] at hrecorded

end Runs

section Loop
variable {host : Host} {symbols : List ObjSymbol} {j j' : LrJit} {scratch scratch' : RelocScratch}

theorem anyAddress (host : Host) (j : LrJit) : Allowed host j fun _ => True :=
  ⟨fun _ _ => trivial, fun _ _ => trivial, fun _ _ _ => trivial⟩

theorem relocTarget_same {idx addr : Nat} {sym : ObjSymbol}
    (h : relocTarget host j scratch idx sym = .ok (j', scratch', addr)) : SameCode j j' := by
  unfold relocTarget at h
  split at h
  · cases h
    exact .refl _
  · unfold resolveRelocTarget at h
    split at h
    · split at h
      · cases h
      · cases h
        exact .refl _
    · split at h
      · cases h
      · cases h
        exact (lookupSymbolHashed_spec (anyAddress host j) sym.name fun _ _ _ _ => trivial).1.same

/-- The patches of a turn are recorded, and nothing else of the code is changed. -/
def Adds (j j' : LrJit) : Prop :=
  ∃ new, SameCode { j with patches := j.patches ++ new } j' ∧
    ∀ p ∈ new, Recorded j.codeBuf j.codeSize p

theorem Adds.of_same (h : SameCode j j') : Adds j j' := ⟨[], by simpa using h, by simp⟩

theorem Adds.trans (host : Host) {j'' : LrJit} (h : Adds j j') (h' : Adds j' j'') : Adds j j'' := by
  obtain ⟨new, hsame, hnew⟩ := h
  obtain ⟨new', hsame', hnew'⟩ := h'
  rw [hsame.codeBuf, hsame.codeSize] at hnew'
  have hfirst : Relocated host _ j j' new := ⟨hsame, anyAddress host _⟩
  exact ⟨new ++ new', (hfirst.trans ⟨hsame', anyAddress host _⟩).same, fun p hp =>
    (mem_append.1 hp).elim (hnew p) (hnew' p)⟩

theorem writePatch_adds {rel : ObjReloc} {addr : Nat} {slot : Option Nat}
    (h : writePatch j rel addr slot = some j') : Adds j j' := by
  unfold writePatch at h
  obtain ⟨hwritten, h⟩ := Option.ite_none_right_eq_some.1 h
  cases h
  exact ⟨[_], .refl _, by simpa using ⟨hwritten.1, hwritten.2⟩⟩

theorem applyJitReloc_adds (rel : ObjReloc) :
    Adds j (applyJitReloc host symbols j scratch rel).1 := by
  unfold applyJitReloc
  simp only
  split
  · exact .of_same (.refl j)
  · split
    · exact .of_same (.refl j)
    · next htarget =>
      have hsame := relocTarget_same htarget
      split
      · exact .of_same hsame
      · split
        · exact .of_same hsame
        · next hslot =>
          have hslotted := hsame.trans (relocSlot_spec (anyAddress host _) hslot).1.same
          split
          · next hwrite => exact (Adds.of_same hslotted).trans host (writePatch_adds hwrite)
          · exact .of_same hslotted

theorem applyJitRelocsLoop_adds (rels : List ObjReloc) :
    Adds j (applyJitRelocsLoop host symbols j scratch rels).1 := by
  induction rels generalizing j scratch with
  | nil => exact .of_same (.refl j)
  | cons rel rest ih =>
    have hturn : Adds j (applyJitReloc host symbols j scratch rel).1 := applyJitReloc_adds rel
    unfold applyJitRelocsLoop
    split
    · next hrun =>
      rw [hrun] at hturn
      exact hturn.trans host ih
    · next hrun =>
      rw [hrun] at hturn
      exact hturn

end Loop

/-- A relocation is written exactly if its bytes can be patched; after any turns of the loop the
patches succeed on the bytes, and every place denotes its target if no two places overlap. -/
theorem relocs_denote (host : Host) (symbols : List ObjSymbol) (j : LrJit) (scratch : RelocScratch)
    (rels : List ObjReloc) (code : CodeBuf) (hbuf : code.buf.toNat = j.codeBuf)
    (hlen : code.buflen = j.codeSize) (hroom : j.codeSize ≤ 2 ^ 32)
    (hlow : j.codeBuf + j.codeSize ≤ 2 ^ 63) :
    (∀ (rel : ObjReloc) (addr : Nat) (slot : Option Nat), slot.getD addr < 2 ^ 63 →
      ((writePatch j rel addr slot).isSome = true ↔
        (patchReloc code rel.type rel.offset (BitVec.ofNat 64 (slot.getD addr))).1 = 0)) ∧
    ∃ new, (applyJitRelocsLoop host symbols j scratch rels).1.patches = j.patches ++ new ∧
      ((∀ p ∈ new, p.slot.getD p.target < 2 ^ 63) →
        ∃ code', patchAll code new = some code' ∧
          (PlacesApart new → ∀ p ∈ new, Denotes code' p)) := by
  rw [← hlen] at hroom
  rw [← hlen, ← hbuf] at hlow
  constructor
  · intro rel addr slot htarget
    let p : Jit.Patch := ⟨rel.offset.toNat, rel.type, addr, slot⟩
    have hoff : off p = rel.offset := BitVec.ofNat_toNat ..
    rw [← hoff, show BitVec.ofNat 64 (slot.getD addr) = target p from rfl,
      patchReloc_eq hroom hlow (p := p) rel.offset.isLt htarget, hbuf, hlen]
    by_cases h : Recorded j.codeBuf j.codeSize p
    · simp [show writePatch j rel addr slot = some _ from if_pos h, h]
    · simp [show writePatch j rel addr slot = none from if_neg h, h]
  · obtain ⟨new, hsame, hnew⟩ : Adds j (applyJitRelocsLoop host symbols j scratch rels).1 :=
      applyJitRelocsLoop_adds rels
    refine ⟨new, hsame.patches, fun htargets => ?_⟩
    rw [← hbuf, ← hlen] at hnew
    have hall := fun p hp => And.intro (hnew p hp) (htargets p hp)
    exact ⟨_, patchAll_recorded hroom hlow hall, fun hapart p hp =>
      patchAll_denotes hroom hlow hall hapart hp⟩

def callJit : LrJit :=
  { codeBuf := 4096, codeSize := 8, codeCap := 8, dataBuf := 8192, dataCap := 0 }

/-- A function behind the four bytes that are patched. -/
def callee : ObjSymbol := ⟨[102], 0, 4, 1, true, false, false⟩

def callPatch : Jit.Patch := ⟨0, lrRelocX8664Pc32, 4100, none⟩

theorem relocs_denote_call :
    ∃ code', patchAll ⟨4096, replicate 8 0⟩ [callPatch] = some code' ∧ Denotes code' callPatch := by
  obtain ⟨-, new, hnew, hrun⟩ := relocs_denote ⟨[], ⟨fun _ => 0, fun _ => 0⟩⟩ [callee] callJit {}
    [⟨0, 0, lrRelocX8664Pc32⟩] ⟨4096, replicate 8 0⟩ rfl rfl (by decide) (by decide)
  obtain rfl : [callPatch] = new := hnew
  obtain ⟨code', hpatched, hdenotes⟩ := hrun (by decide)
  exact ⟨code', hpatched, hdenotes (pairwise_singleton ..) _ (mem_singleton_self _)⟩

end Liric.Guarantees.JitRelocRuns
