import Liric.Source.Session.BlobReads
import Liric.Guarantees.BlobRoundTrip

/-!
# Blob import and the bounds of its input

The length of the code of a blob is checked against what is left before the count of its
relocations is read, and copied after. `packageFits` walks over the package and asks that the
code still fits then; no other read can leave the input.
-/
namespace Liric.Guarantees.BlobImportBounds
open Lib Source.Ir Source.Session SymbolInterning Option List

variable {c : Prop} {p pos n : Nat} {s t : ImportState} {msg : String}

section
variable (data : Nat → UInt8) (len : Nat) {α β : Type}

theorem run_bind (x : Reading α) (f : α → Reading β) :
    (x >>= f).run = x.run >>= fun a => (f a).run := rfl

theorem run_repeat (x : Reading α) (n : Nat) : (repeatReading x n).run = repeatImport x.run n := by
  induction n with
  | zero => rfl
  | succ n ih =>
    rw [repeatReading, repeatImport, run_bind]
    refine bind_congr fun a => ?_
    rw [run_bind, ih]
    rfl

theorem importBlob_run : (importBlobReading data len).run = importBlob data len := by
  rw [importBlobReading, importBlob, run_bind]
  refine bind_congr fun name => ?_
  refine bind_congr fun codeLen => ?_
  refine bind_congr fun _ => ?_
  refine bind_congr fun numRelocs => ?_
  refine bind_congr fun code => ?_
  rw [run_bind, run_repeat]
  rfl

/-- The number in the `n` bytes at an offset. -/
def numAt (n pos : Nat) : Nat := leNat (readBytes data pos n)

/-- The end of a name behind its length. -/
def nameEnd (pos : Nat) : Option Nat :=
  if pos + 4 ≤ len ∧ numAt data 4 pos ≠ 0 ∧ pos + 4 + numAt data 4 pos ≤ len then
    some (pos + 4 + numAt data 4 pos)
  else none

def relocEnd (pos : Nat) : Option Nat :=
  if pos + 8 ≤ len then nameEnd data len (pos + 8) else none

def relocsEnd : Nat → Nat → Option Nat
  | 0, pos => some pos
  | n + 1, pos => (relocEnd data len pos).bind (relocsEnd n)

/-- Where the code of a blob starts: behind its name, its length and the count of relocations. -/
def codeStart (pos : Nat) : Option Nat :=
  (nameEnd data len pos).bind fun p => if p + 12 ≤ len then some (p + 12) else none

def codeLen (start : Nat) : Nat := numAt data 8 (start - 12)

/-- Code that fits with the count before it fits without. -/
def codeFits (pos : Nat) : Bool :=
  (codeStart data len pos).all fun start =>
    !decide (codeLen data start ≤ len - (start - 4)) || decide (codeLen data start ≤ len - start)

def blobEnd (pos : Nat) : Option Nat :=
  (codeStart data len pos).bind fun start =>
    if codeLen data start ≤ len - start then
      relocsEnd data len (numAt data 4 (start - 4)) (start + codeLen data start)
    else none

def blobsFit : Nat → Nat → Bool
  | 0, _ => true
  | n + 1, pos => codeFits data len pos && (blobEnd data len pos).all (blobsFit n)

/-- The code of every blob that the import comes to fits behind the count of relocations. -/
def packageFits : Bool :=
  !(decide (len ≥ 16) && readBytes data 0 8 == blobPkgMagic && numAt data 4 8 == 1) ||
    blobsFit data len (numAt data 4 12) 16

end

/-- Interning cannot fail. -/
structure Good (s : ImportState) : Prop where
  wf : WellFormed s.session.symbols
  bound : s.session.symbols.symbolIndex.length ≤ 2 ^ 31

section
variable {data : Nat → UInt8} {len : Nat} {α β : Type}

theorem of_checked_some [Decidable c] {q : Nat} (h : (if c then some p else none) = some q) :
    c ∧ p = q := by
  by_cases hc : c
  · rw [if_pos hc] at h
    exact ⟨hc, Option.some.inj h⟩
  · rw [if_neg hc] at h
    exact absurd h (by simp)

theorem of_checked_none [Decidable c] (h : (if c then some p else none) = none) : ¬ c := by
  intro hc
  rw [if_pos hc] at h
  exact absurd h (by simp)

/-- From `pos` a step ends at `stop`; it fails only if there is none, or interning fails. -/
def Follows (x : ImportM α) (pos : Nat) (stop : Option Nat) : Prop :=
  ∀ s r t, s.pos = pos → x s = some (r, t) →
    ((∃ a, r = .ok a ∧ stop = some t.pos) ∨ ∃ msg, r = .error msg ∧ (Good s → stop = none)) ∧
    (Good s → Good t)

variable {f : α → ImportM β} {x : ImportM α}

theorem bind_cases {r : Except String β} (h : (x >>= f) s = some (r, t)) :
    (∃ msg, x s = some (.error msg, t) ∧ r = .error msg) ∨
      ∃ a u, x s = some (.ok a, u) ∧ f a u = some (r, t) := by
  change (x s).bind _ = some (r, t) at h
  obtain ⟨out, hx, hrest⟩ := bind_eq_some_iff.1 h
  obtain ⟨result, u⟩ := out
  cases result with
  | error msg =>
    cases hrest
    exact Or.inl ⟨msg, hx, rfl⟩
  | ok a => exact Or.inr ⟨a, u, hx, hrest⟩

variable {stop : Option Nat}

/-- `bind`, where the results of the first part have a property. -/
theorem Follows.bindValue {mid : Option Nat} {P : α → Prop}
    (hx : Follows x pos mid) (hval : ∀ s a t, s.pos = pos → x s = some (.ok a, t) → P a)
    (hnone : mid = none → stop = none) (hf : ∀ p, mid = some p → ∀ a, P a → Follows (f a) p stop) :
    Follows (x >>= f) pos stop := by
  intro s r t hpos hrun
  obtain ⟨msg, hrun₁, rfl⟩ | ⟨a, u, hrun₁, hrun₂⟩ := bind_cases hrun
  · obtain ⟨hcase, hgood⟩ := hx s _ t hpos hrun₁
    refine ⟨Or.inr ⟨msg, rfl, fun hs => ?_⟩, hgood⟩
    obtain ⟨a, habs, -⟩ | ⟨msg', -, hmid⟩ := hcase
    · exact absurd habs (by simp)
    · exact hnone (hmid hs)
  · obtain ⟨hcase, hgood⟩ := hx s _ u hpos hrun₁
    obtain ⟨a', -, hmid⟩ | ⟨msg', habs, -⟩ := hcase
    · obtain ⟨hcase₂, hgood₂⟩ := hf u.pos hmid a (hval s a u hpos hrun₁) u r t rfl hrun₂
      refine ⟨?_, fun hs => hgood₂ (hgood hs)⟩
      obtain hok | ⟨msg, hmsg, hstop⟩ := hcase₂
      · exact Or.inl hok
      · exact Or.inr ⟨msg, hmsg, fun hs => hstop (hgood hs)⟩
    · exact absurd habs (by simp)

theorem Follows.bind {mid : Option Nat}
    (hx : Follows x pos mid) (hnone : mid = none → stop = none)
    (hf : ∀ p, mid = some p → ∀ a, Follows (f a) p stop) : Follows (x >>= f) pos stop :=
  hx.bindValue (P := fun _ => True) (fun _ _ _ _ _ => trivial) hnone fun p hp a _ => hf p hp a

theorem Follows.pure (a : α) (pos : Nat) : Follows (Pure.pure a : ImportM α) pos (some pos) := by
  intro s r t hpos hrun
  cases hrun
  exact ⟨Or.inl ⟨a, rfl, by rw [hpos]⟩, id⟩

theorem follows_slice (n pos : Nat) : Follows (slice data n) pos (some (pos + n)) := by
  intro s r t hpos hrun
  cases hrun
  exact ⟨Or.inl ⟨_, rfl, by rw [hpos]⟩, fun hs => ⟨hs.wf, hs.bound⟩⟩

variable {ok : ImportState → Bool}

theorem follows_require [Decidable c]
    (hok : ∀ s : ImportState, s.pos = pos → ok s = decide c) (msg : String) :
    Follows (require ok msg) pos (if c then some pos else none) := by
  intro s r t hpos hrun
  cases hrun
  refine ⟨?_, id⟩
  rw [hok s hpos]
  by_cases hc : c
  · rw [if_pos hc, if_pos (decide_eq_true hc)]
    exact Or.inl ⟨(), rfl, by rw [hpos]⟩
  · rw [if_neg hc, if_neg (by simp [hc])]
    exact Or.inr ⟨msg, rfl, fun _ => rfl⟩

theorem follows_intern (bytes : List UInt8) (msg : String) (pos : Nat) :
    Follows (moduleInternNameSlice bytes msg) pos (some pos) := by
  intro s r t hpos hrun
  rw [moduleInternNameSlice] at hrun
  cases hintern : lrModuleInternSymbol s.session.symbols (bytes.takeWhile (· != 0)) with
  | none => simp [hintern] at hrun
  | some out =>
    obtain ⟨symbols, id⟩ := out
    simp only [hintern, Option.some.injEq, Prod.mk.injEq] at hrun
    obtain ⟨rfl, rfl⟩ := hrun
    have hgood : Good s → Good { s with session := { s.session with symbols := symbols } } ∧
        lrModuleSymbolName symbols id = some (bytes.takeWhile (· != 0)) := by
      intro hs
      obtain ⟨hwf, hbound, -, hname⟩ := intern_run hs.wf hs.bound hintern
      exact ⟨⟨hwf, hbound⟩, hname⟩
    refine ⟨?_, fun hs => (hgood hs).1⟩
    cases hname : lrModuleSymbolName symbols id with
    | some name => exact Or.inl ⟨name, rfl, by rw [hpos]⟩
    | none =>
      refine Or.inr ⟨msg, rfl, fun hs => ?_⟩
      rw [(hgood hs).2] at hname
      exact absurd hname (by simp)

theorem follows_r32 (msg : String) (pos : Nat) :
    Follows (r32 data len msg) pos (if pos + 4 ≤ len then some (pos + 4) else none) := by
  intro s r t hpos hrun
  rw [r32] at hrun
  by_cases hin : s.pos + 4 > len
  · rw [if_pos hin] at hrun
    cases hrun
    exact ⟨Or.inr ⟨msg, rfl, fun _ => if_neg (by omega)⟩, id⟩
  · rw [if_neg hin] at hrun
    cases hrun
    refine ⟨Or.inl ⟨_, rfl, ?_⟩, fun hs => ⟨hs.wf, hs.bound⟩⟩
    rw [if_pos (by omega), ← hpos]

theorem r32_ok {a : BitVec 32} (h : r32 data len msg s = some (.ok a, t)) :
    s.pos + 4 ≤ len ∧ a.toNat = numAt data 4 s.pos ∧ t = { s with pos := s.pos + 4 } := by
  rw [r32] at h
  by_cases hin : s.pos + 4 > len
  · rw [if_pos hin] at h
    simp at h
  · rw [if_neg hin] at h
    cases h
    have hlt := leNat_lt (readBytes data s.pos 4)
    rw [length_readBytes] at hlt
    exact ⟨by omega, Nat.mod_eq_of_lt hlt, rfl⟩

theorem numAt_eight (pos : Nat) :
    numAt data 8 pos = numAt data 4 pos + 2 ^ 32 * numAt data 4 (pos + 4) := by
  have hsplit : readBytes data pos (4 + 4) = _ := readBytes_add data pos 4 4
  rw [numAt, hsplit, leNat_append, length_readBytes]
  rfl

theorem r64_ok {a : BitVec 64} (h : r64 data len msg s = some (.ok a, t)) :
    s.pos + 8 ≤ len ∧ a.toNat = numAt data 8 s.pos ∧ t = { s with pos := s.pos + 8 } := by
  obtain ⟨msg', -, habs⟩ | ⟨lo, u, hlo, hrest⟩ := bind_cases h
  · exact absurd habs (by simp)
  obtain ⟨msg', -, habs⟩ | ⟨hi, v, hhi, hlast⟩ := bind_cases hrest
  · exact absurd habs (by simp)
  obtain ⟨hin₁, hloAt, rfl⟩ := r32_ok hlo
  obtain ⟨hin₂, hhiAt, rfl⟩ := r32_ok hhi
  obtain ⟨hval, rfl⟩ := Prod.mk.inj (Option.some.inj hlast)
  obtain rfl := Except.ok.inj hval
  dsimp only at hin₂ hhiAt
  refine ⟨by omega, ?_, rfl⟩
  have hlt := lo.isLt
  have hlt' := hi.isLt
  have hor : (hi.setWidth 64 <<< 32 ||| lo.setWidth 64 : BitVec 64).toNat =
      hi.toNat <<< 32 ||| lo.toNat := by
    rw [BitVec.toNat_or, BitVec.toNat_shiftLeft, BitVec.toNat_setWidth, BitVec.toNat_setWidth,
      Nat.mod_eq_of_lt (Nat.lt_trans hlt' (by decide)),
      Nat.mod_eq_of_lt (Nat.lt_trans hlt (by decide)), Nat.shiftLeft_eq, Nat.mod_eq_of_lt]
    omega
  rw [hor, ← Nat.shiftLeft_add_eq_or_of_lt hlt, Nat.shiftLeft_eq, hloAt, hhiAt, numAt_eight]
  omega

theorem follows_r64 (msg : String) (pos : Nat) :
    Follows (r64 data len msg) pos (if pos + 8 ≤ len then some (pos + 8) else none) := by
  refine (follows_r32 msg pos).bind ?_ fun p hp lo => ?_
  · intro hnone
    have hout := of_checked_none hnone
    rw [if_neg (by omega)]
  · obtain ⟨-, rfl⟩ := of_checked_some hp
    have hsum : pos + 4 + 4 = pos + 8 := by omega
    refine (hsum ▸ follows_r32 msg (pos + 4)).bind (fun h => h) fun q hq hi => ?_
    rw [hq]
    exact Follows.pure _ q

theorem follows_importName (parseMsg internMsg : String) (pos : Nat) :
    Follows (importName data len parseMsg internMsg) pos (nameEnd data len pos) := by
  refine (follows_r32 parseMsg pos).bindValue (P := fun n => n.toNat = numAt data 4 pos) ?_ ?_
    fun p hp n hn => ?_
  · intro s a t hpos hrun
    rw [← hpos]
    exact (r32_ok hrun).2.1
  · intro hnone
    rw [nameEnd, if_neg fun h => of_checked_none hnone h.1]
  · obtain ⟨hin, rfl⟩ := of_checked_some hp
    have hcheck : Follows (require (fun s => decide (n.toNat ≠ 0) && decide (s.pos + n.toNat ≤ len))
        parseMsg) (pos + 4) (if numAt data 4 pos ≠ 0 ∧ pos + 4 + numAt data 4 pos ≤ len then
          some (pos + 4) else none) := by
      refine follows_require (fun s hs => ?_) parseMsg
      rw [hn, hs, Bool.decide_and]
    refine hcheck.bind ?_ fun q hq _ => ?_
    · intro hnone
      rw [nameEnd, if_neg fun h => of_checked_none hnone h.2]
    · obtain ⟨hrest, rfl⟩ := of_checked_some hq
      rw [nameEnd, if_pos ⟨hin, hrest⟩, ← hn]
      refine (follows_slice n.toNat (pos + 4)).bind (fun h => absurd h (by simp)) fun r hr bytes => ?_
      rw [hr]
      exact follows_intern bytes internMsg r

theorem follows_importReloc (pos : Nat) :
    Follows (importReloc data len) pos (relocEnd data len pos) := by
  refine (follows_r32 _ pos).bind ?_ fun p hp offset => ?_
  · intro hnone
    have hout := of_checked_none hnone
    rw [relocEnd, if_neg (by omega)]
  · obtain ⟨-, rfl⟩ := of_checked_some hp
    have hcheck : Follows (require (fun s => decide (s.pos + 4 ≤ len))
        "invalid blob relocation entry") (pos + 4)
          (if pos + 8 ≤ len then some (pos + 4) else none) := by
      refine follows_require (fun s hs => ?_) _
      rw [hs]
    refine hcheck.bind ?_ fun q hq _ => ?_
    · intro hnone
      rw [relocEnd, if_neg (of_checked_none hnone)]
    · obtain ⟨hin, rfl⟩ := of_checked_some hq
      rw [relocEnd, if_pos hin]
      refine (follows_slice 4 (pos + 4)).bind (fun h => absurd h (by simp)) fun r hr typeBytes => ?_
      cases hr
      refine (follows_importName _ _ (pos + 4 + 4)).bind id fun t ht name => ?_
      rw [show pos + 8 = pos + 4 + 4 from rfl, ht]
      exact Follows.pure _ t

theorem follows_relocs (n pos : Nat) :
    Follows (repeatImport (importReloc data len) n) pos (relocsEnd data len n pos) := by
  induction n generalizing pos with
  | zero => exact Follows.pure _ pos
  | succ n ih =>
    rw [relocsEnd]
    refine (follows_importReloc pos).bind (fun h => by rw [h]; rfl) fun p hp r => ?_
    rw [hp, bind_some]
    refine (ih p).bind id fun q hq rest => ?_
    rw [hq]
    exact Follows.pure _ q

/-- Where the code fits, a blob ends where the walk ends. -/
theorem follows_importBlob (hfits : codeFits data len pos = true) :
    Follows (importBlob data len) pos (blobEnd data len pos) := by
  refine (follows_importName _ _ pos).bind ?_ fun p hp name => ?_
  · intro hnone
    rw [blobEnd, codeStart, hnone]
    rfl
  have hstart : codeStart data len pos = if p + 12 ≤ len then some (p + 12) else none := by
    rw [codeStart, hp, bind_some]
  refine (follows_r64 _ p).bindValue (P := fun n => n.toNat = numAt data 8 p) ?_ ?_
    fun q hq n hn => ?_
  · intro s a t hpos hrun
    rw [← hpos]
    exact (r64_ok hrun).2.1
  · intro hnone
    have hout := of_checked_none hnone
    rw [blobEnd, hstart, if_neg (by omega)]
    rfl
  obtain ⟨-, rfl⟩ := of_checked_some hq
  have hcheck : Follows (require (fun s => decide (n.toNat ≤ len - s.pos))
      "invalid blob code payload") (p + 8)
        (if numAt data 8 p ≤ len - (p + 8) then some (p + 8) else none) := by
    refine follows_require (fun s hs => ?_) _
    rw [hn, hs]
  refine hcheck.bind ?_ fun q hq _ => ?_
  · intro hnone
    have hout := of_checked_none hnone
    rw [blobEnd, hstart]
    by_cases hin : p + 12 ≤ len
    · rw [if_pos hin, bind_some, if_neg]
      change ¬ numAt data 8 p ≤ len - (p + 12)
      omega
    · rw [if_neg hin]
      rfl
  obtain ⟨hroom, rfl⟩ := of_checked_some hq
  refine (follows_r32 _ (p + 8)).bindValue (P := fun n => n.toNat = numAt data 4 (p + 8)) ?_ ?_
    fun q hq relocs hrelocs => ?_
  · intro s a t hpos hrun
    rw [← hpos]
    exact (r32_ok hrun).2.1
  · intro hnone
    have hout := of_checked_none hnone
    rw [blobEnd, hstart, if_neg (by omega)]
    rfl
  obtain ⟨hin, rfl⟩ := of_checked_some hq
  rw [if_pos hin] at hstart
  have hcode : numAt data 8 p ≤ len - (p + 12) := by
    rw [codeFits, hstart] at hfits
    have hboth : ¬ numAt data 8 p ≤ len - (p + 8) ∨ numAt data 8 p ≤ len - (p + 12) := by
      simpa [codeLen] using hfits
    omega
  have hend : blobEnd data len pos =
      relocsEnd data len relocs.toNat (p + 8 + 4 + n.toNat) := by
    have hlen : codeLen data (p + 12) = numAt data 8 p := rfl
    rw [blobEnd, hstart, bind_some, hlen, if_pos hcode, hrelocs, hn]
    rfl
  rw [hend]
  refine (follows_slice n.toNat (p + 8 + 4)).bind (fun h => absurd h (by simp)) fun r hr code => ?_
  cases hr
  refine (follows_relocs relocs.toNat _).bind id fun t ht list => ?_
  rw [ht]
  intro s r u hpos hrun
  cases hrun
  exact ⟨Or.inl ⟨(), rfl, congrArg some hpos.symm⟩, fun hs => ⟨hs.wf, hs.bound⟩⟩

/-- Every byte that a step reads from a state on lies in the input. -/
def ReadsInside (len : Nat) (x : Reading α) (s : ImportState) : Prop :=
  ∀ r ∈ x.reads s, ∀ i < r.2, r.1 + i < len

theorem readsInside_bind {x : Reading α} {f : α → Reading β} :
    ReadsInside len (x >>= f) s ↔ ReadsInside len x s ∧
      ∀ a t, x.run s = some (.ok a, t) → ReadsInside len (f a) t := by
  have hreads : (x >>= f).reads s = x.reads s ++ readsAfter x.run (fun a => (f a).reads) s := rfl
  rw [ReadsInside, hreads]
  constructor
  · intro h
    refine ⟨fun r hr => h r (mem_append_left _ hr), fun a t hrun r hr => ?_⟩
    refine h r (mem_append_right _ ?_)
    rw [readsAfter, hrun]
    exact hr
  · rintro ⟨hx, hf⟩ r hr
    obtain hr | hr := mem_append.1 hr
    · exact hx r hr
    · rw [readsAfter] at hr
      cases hrun : x.run s with
      | none => simp [hrun] at hr
      | some out =>
        obtain ⟨result, t⟩ := out
        rw [hrun] at hr
        cases result with
        | error msg => simp at hr
        | ok a => exact hf a t hrun r hr

theorem readsInside_unread (x : ImportM α) (s : ImportState) : ReadsInside len (unread x) s :=
  fun _ hr => absurd hr not_mem_nil

theorem readsInside_pure (a : α) (s : ImportState) : ReadsInside len (pure a : Reading α) s :=
  fun _ hr => absurd hr not_mem_nil

theorem readsInside_r32 (msg : String) (s : ImportState) :
    ReadsInside len (r32Reading data len msg) s := by
  intro r hr i hi
  change r ∈ (if s.pos + 4 > len then [] else [(s.pos, 4)]) at hr
  by_cases hin : s.pos + 4 > len
  · rw [if_pos hin] at hr
    exact absurd hr not_mem_nil
  · rw [if_neg hin] at hr
    obtain rfl := mem_singleton.1 hr
    dsimp only at hi ⊢
    omega

theorem readsInside_r64 (msg : String) (s : ImportState) :
    ReadsInside len (r64Reading data len msg) s :=
  readsInside_bind.2 ⟨readsInside_r32 msg s, fun _ t _ =>
    readsInside_bind.2 ⟨readsInside_r32 msg t, fun _ u _ => readsInside_pure _ u⟩⟩

/-- A copy stays inside exactly if it ends inside. -/
theorem readsInside_slice (hpos : s.pos ≤ len) :
    ReadsInside len (sliceReading data n) s ↔ n ≤ len - s.pos := by
  constructor
  · intro h
    by_contra hlong
    have hread := h (s.pos, n) mem_cons_self (len - s.pos) (by dsimp only; omega)
    dsimp only at hread
    omega
  · intro hn r hr i hi
    obtain rfl := mem_singleton.1 hr
    dsimp only at hi ⊢
    omega

theorem require_ok {u : Unit}
    (h : (unread (require ok msg)).run s = some (.ok u, t)) : ok s = true ∧ t = s := by
  change require ok msg s = _ at h
  rw [require] at h
  cases hok : ok s with
  | true =>
    rw [hok] at h
    exact ⟨rfl, (Prod.mk.inj (Option.some.inj h)).2.symm⟩
  | false =>
    rw [hok] at h
    simp at h

theorem readsInside_importName (parseMsg internMsg : String) (s : ImportState) :
    ReadsInside len (importNameReading data len parseMsg internMsg) s := by
  refine readsInside_bind.2 ⟨readsInside_r32 parseMsg s, fun n t hrun => ?_⟩
  obtain ⟨-, -, rfl⟩ := r32_ok hrun
  refine readsInside_bind.2 ⟨readsInside_unread _ _, fun u t hrun => ?_⟩
  obtain ⟨hok, rfl⟩ := require_ok hrun
  simp only [Bool.and_eq_true, decide_eq_true_eq] at hok
  refine readsInside_bind.2 ⟨(readsInside_slice ?_).2 ?_, fun bytes u _ => readsInside_unread _ u⟩
  · dsimp only
    omega
  · dsimp only
    omega

theorem readsInside_importReloc (s : ImportState) :
    ReadsInside len (importRelocReading data len) s := by
  refine readsInside_bind.2 ⟨readsInside_r32 _ s, fun offset t hrun => ?_⟩
  obtain ⟨-, -, rfl⟩ := r32_ok hrun
  refine readsInside_bind.2 ⟨readsInside_unread _ _, fun u t hrun => ?_⟩
  obtain ⟨hok, rfl⟩ := require_ok hrun
  rw [decide_eq_true_eq] at hok
  refine readsInside_bind.2 ⟨fun r hr i hi => ?_, fun typeBytes t _ =>
    readsInside_bind.2 ⟨readsInside_importName _ _ t, fun name u _ => readsInside_pure _ u⟩⟩
  obtain rfl := mem_singleton.1 hr
  dsimp only at hi hok ⊢
  omega

theorem readsInside_relocs (n : Nat) (s : ImportState) :
    ReadsInside len (repeatReading (importRelocReading data len) n) s := by
  induction n generalizing s with
  | zero => exact readsInside_pure _ s
  | succ n ih =>
    exact readsInside_bind.2 ⟨readsInside_importReloc s, fun r t _ =>
      readsInside_bind.2 ⟨ih t, fun rest u _ => readsInside_pure _ u⟩⟩

/-- With code that fits a blob is read inside the input. -/
theorem readsInside_importBlob (hfits : codeFits data len s.pos = true) :
    ReadsInside len (importBlobReading data len) s := by
  refine readsInside_bind.2 ⟨readsInside_importName _ _ s, fun name t hname => ?_⟩
  obtain ⟨hend, -⟩ := follows_importName _ _ s.pos s _ t rfl hname
  replace hend : nameEnd data len s.pos = some t.pos := by
    obtain ⟨_, -, hend⟩ | ⟨_, habs, -⟩ := hend
    · exact hend
    · exact absurd habs (by simp)
  refine readsInside_bind.2 ⟨readsInside_r64 _ t, fun n u hn => ?_⟩
  obtain ⟨-, hnum, rfl⟩ := r64_ok hn
  refine readsInside_bind.2 ⟨readsInside_unread _ _, fun _ u hok => ?_⟩
  obtain ⟨hroom, rfl⟩ := require_ok hok
  refine readsInside_bind.2 ⟨readsInside_r32 _ _, fun relocs u hrelocs => ?_⟩
  obtain ⟨hin, -, rfl⟩ := r32_ok hrelocs
  dsimp only at hroom hin
  rw [decide_eq_true_eq] at hroom
  have hstart : codeStart data len s.pos = some (t.pos + 12) := by
    rw [codeStart, hend, bind_some, if_pos (by omega)]
  have hcode : numAt data 8 t.pos ≤ len - (t.pos + 12) := by
    rw [codeFits, hstart] at hfits
    have hboth : ¬ numAt data 8 t.pos ≤ len - (t.pos + 8) ∨
        numAt data 8 t.pos ≤ len - (t.pos + 12) := by
      simpa [codeLen] using hfits
    omega
  refine readsInside_bind.2 ⟨(readsInside_slice hin).2 ?_, fun code u _ =>
    readsInside_bind.2 ⟨readsInside_relocs _ u, fun list v _ => readsInside_unread _ v⟩⟩
  dsimp only
  omega

theorem run_of_bind (h : (x >>= f) s ≠ none) :
    x s ≠ none ∧ ∀ a t, x s = some (.ok a, t) → f a t ≠ none := by
  constructor
  · intro hnone
    refine h ?_
    change (x s).bind _ = none
    rw [hnone]
    rfl
  · intro a t hrun hnone
    refine h ?_
    change (x s).bind _ = none
    rw [hrun]
    exact hnone

theorem Follows.run (hx : Follows x pos (some p)) (hs : Good s) (hpos : s.pos = pos)
    (hrun : x s ≠ none) :
    ∃ a t, x s = some (.ok a, t) ∧ t.pos = p ∧ Good t := by
  cases hout : x s with
  | none => exact absurd hout hrun
  | some out =>
    obtain ⟨r, t⟩ := out
    obtain ⟨hcase, hgood⟩ := hx s r t hpos hout
    obtain ⟨a, rfl, hstop⟩ | ⟨msg, -, hstop⟩ := hcase
    · exact ⟨a, t, rfl, (Option.some.inj hstop).symm, hgood hs⟩
    · exact absurd (hstop hs) (by simp)

/-- A blob that is read inside the input has code that fits. -/
theorem codeFits_of_inside (hs : Good s) (hrun : importBlob data len s ≠ none)
    (hinside : ReadsInside len (importBlobReading data len) s) :
    codeFits data len s.pos = true := by
  cases hname : nameEnd data len s.pos with
  | none =>
    rw [codeFits, codeStart, hname]
    rfl
  | some p =>
    rw [codeFits, codeStart, hname, bind_some]
    by_cases hin : p + 12 ≤ len
    swap
    · rw [if_neg hin]
      rfl
    rw [if_pos hin, all_some]
    change (!decide (numAt data 8 p ≤ len - (p + 12 - 4)) ||
      decide (numAt data 8 p ≤ len - (p + 12))) = true
    by_cases hroom : numAt data 8 p ≤ len - (p + 8)
    swap
    · have hno : ¬ numAt data 8 p ≤ len - (p + 12 - 4) := by omega
      rw [decide_eq_false hno]
      rfl
    obtain ⟨hrun₁, hrest₁⟩ := run_of_bind hrun
    have hnameTo : Follows (importName data len "invalid blob function name"
        "failed to intern blob function name") s.pos (some p) :=
      hname ▸ follows_importName _ _ s.pos
    obtain ⟨name, t, hname', rfl, ht⟩ := hnameTo.run hs rfl hrun₁
    obtain ⟨hrun₂, hrest₂⟩ := run_of_bind (hrest₁ name t hname')
    have hlenTo : Follows (r64 data len "invalid blob code payload") t.pos (some (t.pos + 8)) := by
      have hto : Follows (r64 data len "invalid blob code payload") t.pos _ := follows_r64 _ t.pos
      rwa [if_pos (by omega)] at hto
    obtain ⟨n, u, hn, -, hu⟩ := hlenTo.run ht rfl hrun₂
    have hrest₃ := hrest₂ n u hn
    obtain ⟨-, hnum, rfl⟩ := r64_ok hn
    have hok : require (fun s => decide (n.toNat ≤ len - s.pos)) "invalid blob code payload"
        { t with pos := t.pos + 8 } = some (.ok (), { t with pos := t.pos + 8 }) := by
      rw [require, hnum, decide_eq_true hroom]
      rfl
    have hrest₄ := (run_of_bind hrest₃).2 () _ hok
    obtain ⟨hrun₅, -⟩ := run_of_bind hrest₄
    have hcountTo : Follows (r32 data len "invalid blob relocation header") (t.pos + 8)
        (some (t.pos + 8 + 4)) := by
      have hto : Follows (r32 data len "invalid blob relocation header") (t.pos + 8) _ :=
        follows_r32 _ (t.pos + 8)
      rwa [if_pos hin] at hto
    obtain ⟨relocs, v, hrelocs, -, -⟩ := hcountTo.run hu rfl hrun₅
    have hread₁ := (readsInside_bind.1 hinside).2 name t hname'
    have hread₂ := (readsInside_bind.1 hread₁).2 n _ hn
    have hread₃ := (readsInside_bind.1 hread₂).2 () _ hok
    have hread₄ := (readsInside_bind.1 hread₃).2 relocs v hrelocs
    have hread₅ := (readsInside_bind.1 hread₄).1
    obtain ⟨-, -, rfl⟩ := r32_ok hrelocs
    have hcode := (readsInside_slice hin).1 hread₅
    rw [hnum] at hcode
    have hyes : numAt data 8 t.pos ≤ len - (t.pos + 12) := hcode
    rw [decide_eq_true hyes, Bool.or_true]

theorem readsInside_blobs (hfits : blobsFit data len n s.pos = true) :
    ReadsInside len (repeatReading (importBlobReading data len) n) s := by
  induction n generalizing s with
  | zero => exact readsInside_pure _ s
  | succ n ih =>
    rw [blobsFit, Bool.and_eq_true] at hfits
    obtain ⟨hcode, hrest⟩ := hfits
    refine readsInside_bind.2 ⟨readsInside_importBlob hcode, fun _ t hrun =>
      readsInside_bind.2 ⟨ih ?_, fun rest u _ => readsInside_pure _ u⟩⟩
    rw [importBlob_run] at hrun
    obtain ⟨hend, -⟩ := follows_importBlob hcode s _ t rfl hrun
    obtain ⟨_, -, hend⟩ | ⟨_, habs, -⟩ := hend
    · rwa [hend, all_some] at hrest
    · exact absurd habs (by simp)

theorem blobsFit_of_inside (hs : Good s) (hrun : repeatImport (importBlob data len) n s ≠ none)
    (hinside : ReadsInside len (repeatReading (importBlobReading data len) n) s) :
    blobsFit data len n s.pos = true := by
  induction n generalizing s with
  | zero => rfl
  | succ n ih =>
    obtain ⟨hrun₁, hrest₁⟩ := run_of_bind hrun
    obtain ⟨hread₁, hread₂⟩ := readsInside_bind.1 hinside
    have hcode := codeFits_of_inside hs hrun₁ hread₁
    rw [blobsFit, hcode, Bool.true_and]
    cases hend : blobEnd data len s.pos with
    | none => rfl
    | some p =>
      have hto : Follows (importBlob data len) s.pos (some p) := hend ▸ follows_importBlob hcode
      obtain ⟨_, t, hblob, rfl, ht⟩ := hto.run hs rfl hrun₁
      obtain ⟨hrun₂, -⟩ := run_of_bind (hrest₁ () t hblob)
      have hread₃ := hread₂ () t (by rw [importBlob_run]; exact hblob)
      exact ih ht hrun₂ (readsInside_bind.1 hread₃).1

theorem magic_ok {u : Unit} (h : (magicReading data len).run s = some (.ok u, t)) :
    (decide (len ≥ 16) && readBytes data 0 8 == blobPkgMagic) = true ∧ t = s :=
  require_ok h

theorem readsInside_magic (s : ImportState) : ReadsInside len (magicReading data len) s := by
  intro r hr i hi
  change r ∈ (if len ≥ 16 then [(0, 8)] else []) at hr
  by_cases hlen : len ≥ 16
  · rw [if_pos hlen] at hr
    obtain rfl := mem_singleton.1 hr
    dsimp only at hi ⊢
    omega
  · rw [if_neg hlen] at hr
    exact absurd hr not_mem_nil

theorem readsInside_package (hfits : packageFits data len = true) (s : BlobSession) :
    ReadsInside len (importPackageReading data len) ⟨0, s⟩ := by
  refine readsInside_bind.2 ⟨readsInside_unread _ _, fun _ t hlen => ?_⟩
  obtain ⟨-, rfl⟩ := require_ok hlen
  refine readsInside_bind.2 ⟨readsInside_magic _, fun _ t hcompared => ?_⟩
  obtain ⟨hmagic, rfl⟩ := magic_ok hcompared
  refine readsInside_bind.2 ⟨readsInside_unread _ _, fun _ t hskip => ?_⟩
  cases hskip
  refine readsInside_bind.2 ⟨?_, fun _ t _ => readsInside_unread _ t⟩
  refine readsInside_bind.2 ⟨readsInside_r32 _ _, fun version t hread => ?_⟩
  obtain ⟨-, hversion, rfl⟩ := r32_ok hread
  refine readsInside_bind.2 ⟨readsInside_r32 _ _, fun count t hread' => ?_⟩
  obtain ⟨-, hcount, rfl⟩ := r32_ok hread'
  refine readsInside_bind.2 ⟨readsInside_unread _ _, fun _ t hok => ?_⟩
  obtain ⟨hone, rfl⟩ := require_ok hok
  refine readsInside_bind.2 ⟨readsInside_blobs ?_, fun _ t _ => readsInside_pure _ t⟩
  have hnum : (numAt data 4 8 == 1) = true := by
    rw [beq_iff_eq] at hone ⊢
    have hval : numAt data 4 (0 + 8) = 1 := by
      rw [← hversion, hone]
      rfl
    exact hval
  rw [packageFits, hmagic, hnum] at hfits
  rw [hcount]
  exact hfits

theorem packageFits_of_inside {s : BlobSession} (hs : Good ⟨0, s⟩)
    (hrun : importPackage data len ⟨0, s⟩ ≠ none)
    (hinside : ReadsInside len (importPackageReading data len) ⟨0, s⟩) :
    packageFits data len = true := by
  cases hhead : decide (len ≥ 16) && readBytes data 0 8 == blobPkgMagic && numAt data 4 8 == 1 with
  | false =>
    rw [packageFits, hhead]
    rfl
  | true =>
    rw [packageFits, hhead]
    simp only [Bool.and_eq_true, decide_eq_true_eq, beq_iff_eq] at hhead
    obtain ⟨⟨hlen, hmagic⟩, hone⟩ := hhead
    have hlenOk : require (fun _ => decide (len ≠ 0)) "invalid import_blob_package arguments"
        (⟨0, s⟩ : ImportState) = some (.ok (), ⟨0, s⟩) := by
      rw [require, if_pos (by simp; omega)]
    have hmagicOk : require (fun _ => decide (len ≥ 16) && readBytes data 0 8 == blobPkgMagic)
        "invalid blob package magic" (⟨0, s⟩ : ImportState) = some (.ok (), ⟨0, s⟩) := by
      rw [require, if_pos (by simp [hlen, hmagic])]
    have hskip : slice data 8 (⟨0, s⟩ : ImportState) = some (.ok (readBytes data 0 8), ⟨8, s⟩) := rfl
    have hrun₁ := (run_of_bind hrun).2 () _ hlenOk
    have hrun₂ := (run_of_bind hrun₁).2 () _ hmagicOk
    have hrun₃ := (run_of_bind hrun₂).2 _ _ hskip
    have hrun₄ := (run_of_bind hrun₃).1
    have hread₁ := (readsInside_bind.1 hinside).2 () _ hlenOk
    have hread₂ := (readsInside_bind.1 hread₁).2 () _ hmagicOk
    have hread₃ := (readsInside_bind.1 hread₂).2 _ _ hskip
    have hread₄ := (readsInside_bind.1 hread₃).1
    have hnext : ∀ pos, pos + 4 ≤ len → ∃ a : BitVec 32, a.toNat = numAt data 4 pos ∧
        r32 data len "invalid blob package header" ⟨pos, s⟩ = some (.ok a, ⟨pos + 4, s⟩) := by
      intro pos hin
      have hlt := leNat_lt (readBytes data pos 4)
      rw [length_readBytes] at hlt
      refine ⟨BitVec.ofNat 32 (numAt data 4 pos), ?_, ?_⟩
      · exact Nat.mod_eq_of_lt hlt
      · rw [r32, if_neg (by dsimp only; omega)]
        rfl
    obtain ⟨version, hversion, hversionOk⟩ := hnext 8 (by omega)
    obtain ⟨count, hcount, hcountOk⟩ := hnext 12 (by omega)
    have hcheck : require (fun _ => version == 1) "unsupported blob package version"
        (⟨16, s⟩ : ImportState) = some (.ok (), ⟨16, s⟩) := by
      have heq : version = 1 := by
        apply BitVec.eq_of_toNat_eq
        rw [hversion, hone]
        rfl
      rw [require, heq]
      rfl
    have hrun₅ := (run_of_bind hrun₄).2 _ _ hversionOk
    have hrun₆ := (run_of_bind hrun₅).2 _ _ hcountOk
    have hrun₇ := (run_of_bind hrun₆).2 _ _ hcheck
    have hrun₈ := (run_of_bind hrun₇).1
    have hread₅ := (readsInside_bind.1 hread₄).2 _ _ hversionOk
    have hread₆ := (readsInside_bind.1 hread₅).2 _ _ hcountOk
    have hread₇ := (readsInside_bind.1 hread₆).2 _ _ hcheck
    have hread₈ := (readsInside_bind.1 hread₇).1
    have hgood : Good ⟨16, s⟩ := ⟨hs.wf, hs.bound⟩
    have hfits := blobsFit_of_inside hgood hrun₈ hread₈
    rwa [hcount] at hfits

end

/-- Every byte the import reads has an index below the length of the package. -/
def InsideInput (data : Nat → UInt8) (len : Nat) (s : BlobSession) : Prop :=
  ∀ r ∈ lrSessionImportBlobPackageReads data len s, ∀ i < r.2, r.1 + i < len

/-- A package whose code fits is read inside its bounds, by any session; a session that can
intern reads no other package inside its bounds. -/
theorem import_reads_inside_iff (data : Nat → UInt8) (len : Nat) :
    (packageFits data len = true → ∀ s, InsideInput data len s) ∧
    ∀ s : BlobSession, WellFormed s.symbols → s.symbols.symbolIndex.length ≤ 2 ^ 31 →
      lrSessionImportBlobPackage data len s ≠ none →
      (InsideInput data len s ↔ packageFits data len = true) := by
  refine ⟨readsInside_package, fun s hwf hbound hrun => ⟨fun hinside => ?_, fun hfits =>
    readsInside_package hfits s⟩⟩
  refine packageFits_of_inside ⟨hwf, hbound⟩ (fun hnone => hrun ?_) hinside
  rw [lrSessionImportBlobPackage, hnone]

/-- One function `f` with `codeLen` bytes of code and no relocation, without its code. -/
def cutPackage (codeLen : Nat) : List UInt8 :=
  blobPkgMagic ++ w32 1 ++ w32 1 ++ exportName [102] ++ w64 codeLen ++ w32 0

theorem import_reads_inside_iff_empty :
    InsideInput (fun i => (cutPackage 0).getD i 0) 33 ⟨[], .empty⟩ ∧
      (packageFits (fun i => (cutPackage 4).getD i 0) 33 = true ↔
        InsideInput (fun i => (cutPackage 4).getD i 0) 33 ⟨[], .empty⟩) :=
  ⟨(import_reads_inside_iff _ 33).1 (by decide +kernel) _,
    ((import_reads_inside_iff _ 33).2 ⟨[], .empty⟩ wellFormed_empty (by decide)
      (by decide +kernel)).symm⟩

/-- The four bytes of code are those behind the end. -/
theorem cut_package_read_behind_end :
    (33, 4) ∈ lrSessionImportBlobPackageReads (fun i => (cutPackage 4).getD i 0)
        (cutPackage 4).length ⟨[], .empty⟩ ∧
      ¬ InsideInput (fun i => (cutPackage 4).getD i 0) (cutPackage 4).length ⟨[], .empty⟩ := by
  have hread : (33, 4) ∈ lrSessionImportBlobPackageReads (fun i => (cutPackage 4).getD i 0)
      (cutPackage 4).length ⟨[], .empty⟩ := by decide +kernel
  refine ⟨hread, fun hinside => ?_⟩
  have hbehind : 33 + 0 < (cutPackage 4).length := hinside (33, 4) hread 0 (by decide)
  exact absurd hbehind (by decide)

end Liric.Guarantees.BlobImportBounds
