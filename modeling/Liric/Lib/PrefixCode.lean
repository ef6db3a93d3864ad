import Liric.Lib.Bytes

/-!
# Serialisers that can be read back

A serialiser is read back when no word of it continues another one. What follows
is stated for a part of the value only, because a signature need not mention all
of the value it is made of. The second half is about the rest: a value whose
`base` is known and whose left-out pieces are listed in order.
-/
namespace Liric.Lib
open List

variable {α β γ ε : Type*}

/-- In front of any continuation, a word gives away `part` of the value and the
continuation. The two sides may be written by serialisers of two contexts. -/
def Readable (encode encode' : α → List UInt8) (part : α → β) (valid : α → Prop) : Prop :=
  ∀ a b x y, valid a → valid b → encode a ++ x = encode' b ++ y → part a = part b ∧ x = y

variable {n v w : Nat}

theorem leBytes_inj (hv : v < 256 ^ n) (hw : w < 256 ^ n)
    (h : leBytes n v = leBytes n w) : v = w := by
  have hread := congrArg leNat h
  rwa [leNat_leBytes, leNat_leBytes, Nat.mod_eq_of_lt hv, Nat.mod_eq_of_lt hw] at hread

variable {x y : List UInt8}

/-- Words of one width end at the same place. -/
theorem leBytes_append_inj
    (h : leBytes n v ++ x = leBytes n w ++ y) : leBytes n v = leBytes n w ∧ x = y :=
  append_inj h (by rw [length_leBytes, length_leBytes])

/-- A word of a fixed width and a continuation. -/
theorem word_inj (hv : v < 256 ^ n) (hw : w < 256 ^ n)
    (h : leBytes n v ++ x = leBytes n w ++ y) : v = w ∧ x = y := by
  obtain ⟨hword, hrest⟩ := leBytes_append_inj h
  exact ⟨leBytes_inj hv hw hword, hrest⟩

variable {as bs : List α}

section Items
variable {encode encode' : α → List UInt8} {part : α → β} {valid : α → Prop}

/-- Items of a readable serialiser, as many on either side. -/
theorem Readable.items (h : Readable encode encode' part valid) (has : ∀ a ∈ as, valid a) (hbs : ∀ b ∈ bs, valid b)
    (hlen : as.length = bs.length)
    (heq : as.flatMap encode ++ x = bs.flatMap encode' ++ y) :
    as.map part = bs.map part ∧ x = y := by
  induction as generalizing bs with
  | nil =>
    have hnil : bs = [] := length_eq_zero_iff.mp hlen.symm
    subst hnil
    exact ⟨rfl, heq⟩
  | cons a as ih =>
    cases bs with
    | nil => simp at hlen
    | cons b bs =>
      rw [flatMap_cons, flatMap_cons, append_assoc, append_assoc] at heq
      obtain ⟨hpart, hrest⟩ := h a b _ _ (has a mem_cons_self) (hbs b mem_cons_self) heq
      obtain ⟨hparts, hxy⟩ := ih (fun c hc => has c (mem_cons_of_mem a hc))
        (fun c hc => hbs c (mem_cons_of_mem b hc)) (by simpa using hlen) hrest
      exact ⟨by rw [map_cons, map_cons, hpart, hparts], hxy⟩

/-- A count in four bytes, then the items. -/
def counted (encode : α → List UInt8) (as : List α) : List UInt8 :=
  leBytes 4 as.length ++ as.flatMap encode

theorem Readable.counted (h : Readable encode encode' part valid) (has : ∀ a ∈ as, valid a) (hbs : ∀ b ∈ bs, valid b)
    (hcount : as.length < 256 ^ 4) (hcount' : bs.length < 256 ^ 4)
    (heq : Lib.counted encode as ++ x = Lib.counted encode' bs ++ y) :
    as.map part = bs.map part ∧ x = y := by
  rw [Lib.counted, Lib.counted, append_assoc, append_assoc] at heq
  obtain ⟨hlen, hrest⟩ := word_inj hcount hcount' heq
  exact h.items has hbs hlen hrest

end Items

/-- The values with one `base` list as many left-out pieces, and these pieces
complete the value. -/
def Completes (whole : α → γ) (base : α → β) (extra : α → List ε) : Prop :=
  ∀ a b, base a = base b →
    (extra a).length = (extra b).length ∧ (extra a = extra b → whole a = whole b)

variable {whole : α → γ}

theorem Completes.list {base : α → β} {extra : α → List ε} (h : Completes whole base extra) :
    Completes (List.map whole) (List.map base) (List.flatMap extra) := by
  intro as
  induction as with
  | nil =>
    intro bs hbase
    have hnil : bs = [] := map_eq_nil_iff.mp hbase.symm
    subst hnil
    exact ⟨rfl, fun _ => rfl⟩
  | cons a as ih =>
    intro bs hbase
    cases bs with
    | nil => simp at hbase
    | cons b bs =>
      rw [map_cons, map_cons, List.cons.injEq] at hbase
      obtain ⟨hlen, hwhole⟩ := h a b hbase.1
      obtain ⟨hlens, hwholes⟩ := ih bs hbase.2
      refine ⟨by simp only [flatMap_cons, length_append, hlen, hlens], ?_⟩
      intro hextra
      rw [flatMap_cons, flatMap_cons] at hextra
      obtain ⟨hhead, htail⟩ := append_inj hextra hlen
      rw [map_cons, map_cons, hwhole hhead, hwholes htail]

/-- Two parts known of every element, taken together. -/
theorem map_pair_eq {part : α → β} {part' : α → γ}
    (h : as.map part = bs.map part) (h' : as.map part' = bs.map part') :
    as.map (fun a => (part a, part' a)) = bs.map (fun b => (part b, part' b)) := by
  induction as generalizing bs with
  | nil =>
    have hnil : bs = [] := map_eq_nil_iff.mp h.symm
    rw [hnil]
  | cons a as ih =>
    cases bs with
    | nil => simp at h
    | cons b bs =>
      rw [map_cons, map_cons, List.cons.injEq] at h h'
      rw [map_cons, map_cons, h.1, h'.1, ih h.2 h'.2]

/-- What is a function of a part is known with the part. -/
theorem map_eq_of_part {part : α → β}
    (hwhole : ∀ a b, part a = part b → whole a = whole b)
    (h : as.map part = bs.map part) : as.map whole = bs.map whole := by
  induction as generalizing bs with
  | nil =>
    have hnil : bs = [] := map_eq_nil_iff.mp h.symm
    rw [hnil]
  | cons a as ih =>
    cases bs with
    | nil => simp at h
    | cons b bs =>
      rw [map_cons, map_cons, List.cons.injEq] at h
      rw [map_cons, map_cons, hwhole a b h.1, ih h.2]

end Liric.Lib
