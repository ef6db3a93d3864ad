import Liric.Lib.Padding
import Liric.Source.Ir.Types

/-!
# Aggregate layout is a partition

The exact layout (`exactSize`, `exactAlign`, `exactFieldOffset`, `exactPath`)
repeats the source's layout over the natural numbers. On every type whose exact
sizes fit `size_t` the source computes the exact layout (`layout_exact`,
`indexPath_exact`), and the exact layout keeps different leaves apart.

Alignments are not assumed to be powers of two: a vector of three `i32` has
alignment 12. Only `v ≤ padUp v a` is used of the padding expression.
-/
namespace Liric.Guarantees.AggregateLayout
open Source.Ir BitVec Option
open Lib (padUp le_padUp toNat_mask_padUp)

mutual
def exactSize : LrType → Nat
  | .scalar _ kind => (scalarSize kind).toNat
  | .ptr _ _ => 8
  | .array _ elem count => exactSize elem * count.toNat
  | .vector _ elem count => exactSize elem * count.toNat
  | .struct _ fields packed _ =>
    let sz := exactFields packed fields 0
    if !packed && !fields.isEmpty then padUp sz (exactMaxAlign fields 1) else sz
  | .func .. => 0

def exactFields (packed : Bool) : List LrType → Nat → Nat
  | [], sz => sz
  | field :: rest, sz =>
    exactFields packed rest ((if packed then sz else padUp sz (exactAlign field)) + exactSize field)

def exactAlign : LrType → Nat
  | .scalar _ kind => (scalarAlign kind).toNat
  | .ptr _ _ => 8
  | .array _ elem _ => exactAlign elem
  | .vector _ elem count => max 1 (max (exactSize elem * count.toNat) (exactAlign elem))
  | .struct _ fields packed _ => if packed then 1 else exactMaxAlign fields 1
  | .func .. => 1

def exactMaxAlign : List LrType → Nat → Nat
  | [], maxA => maxA
  | field :: rest, maxA => exactMaxAlign rest (max maxA (exactAlign field))
end

mutual
/-- No size computed for the type or for a type nested in it by value leaves
`size_t`. -/
def FitsSizeT : LrType → Prop
  | .array _ elem count => FitsSizeT elem ∧ exactSize elem * count.toNat < 2 ^ 64
  | .vector _ elem count => FitsSizeT elem ∧ exactSize elem * count.toNat < 2 ^ 64
  | .struct addr fields packed name =>
    FitsAll fields ∧ exactSize (.struct addr fields packed name) < 2 ^ 64
  | .scalar .. | .ptr .. | .func .. => True

def FitsAll : List LrType → Prop
  | [] => True
  | field :: rest => FitsSizeT field ∧ FitsAll rest
end

def exactFieldOffset (packed : Bool) : List LrType → Nat → Nat → Nat
  | [], _, off => off
  | field :: _, 0, off => if packed then off else padUp off (exactAlign field)
  | field :: rest, i + 1, off =>
    exactFieldOffset packed rest i
      ((if packed then off else padUp off (exactAlign field)) + exactSize field)

/-- The exact byte offset and type an index path reaches. -/
def exactPath : LrType → List (BitVec 32) → Option (Nat × LrType)
  | cur, [] => some (0, cur)
  | .struct _ fields packed _, idx :: rest =>
    match fields[idx.toNat]? with
    | none => none
    | some field =>
      (exactPath field rest).map fun r => (exactFieldOffset packed fields idx.toNat 0 + r.1, r.2)
  | .array _ elem count, idx :: rest | .vector _ elem count, idx :: rest =>
    if count.toNat ≤ idx.toNat then none
    else (exactPath elem rest).map fun r => (idx.toNat * exactSize elem + r.1, r.2)
  | .scalar .., _ :: _ | .ptr .., _ :: _ | .func .., _ :: _ => none

variable {field : LrType}

theorem fitsSizeT_of_mem {fields : List LrType} (h : FitsAll fields)
    (hmem : field ∈ fields) : FitsSizeT field := by
  induction fields with
  | nil => cases hmem
  | cons head rest ih =>
    rcases List.mem_cons.mp hmem with rfl | hrest
    · exact h.1
    · exact ih h.2 hrest

variable {t : LrType}

theorem exactSize_lt (h : FitsSizeT t) : exactSize t < 2 ^ 64 := by
  cases t with
  | scalar _ kind => exact (scalarSize kind).isLt
  | ptr => simp [exactSize]
  | array _ elem count => exact h.2
  | vector _ elem count => exact h.2
  | struct => exact h.2
  | func => simp [exactSize]

theorem le_exactMaxAlign (fields : List LrType) (maxA : Nat) :
    maxA ≤ exactMaxAlign fields maxA := by
  induction fields generalizing maxA with
  | nil => exact le_rfl
  | cons field rest ih => exact le_trans (le_max_left _ _) (ih _)

theorem exactAlign_pos : ∀ t : LrType, 1 ≤ exactAlign t
  | .scalar _ kind => by cases kind <;> simp [exactAlign, scalarAlign]
  | .ptr _ _ => by simp [exactAlign]
  | .array _ elem _ => by simpa [exactAlign] using exactAlign_pos elem
  | .vector _ _ _ => by simp [exactAlign]
  | .struct _ fields packed _ => by
    unfold exactAlign
    split
    · exact le_refl 1
    · exact le_exactMaxAlign fields 1
  | .func .. => by simp [exactAlign]

theorem le_placed (packed : Bool) (field : LrType) (off : Nat) :
    off ≤ if packed then off else padUp off (exactAlign field) := by
  split
  · exact le_rfl
  · exact le_padUp off (exactAlign_pos field)

theorem le_exactFields (packed : Bool) (fields : List LrType) (sz : Nat) :
    sz ≤ exactFields packed fields sz := by
  induction fields generalizing sz with
  | nil => exact le_rfl
  | cons field rest ih =>
    unfold exactFields
    have hplaced := le_placed packed field sz
    exact le_trans (by omega) (ih _)

theorem exactFields_le_size (addr : Nat) (fields : List LrType) (packed : Bool)
    (name : Option CStr) :
    exactFields packed fields 0 ≤ exactSize (.struct addr fields packed name) := by
  unfold exactSize
  dsimp only
  split
  · exact le_padUp _ (le_exactMaxAlign fields 1)
  · exact le_rfl

theorem alignUp_exact (v a : SizeT) (ha : 1 ≤ a.toNat) (hfit : padUp v.toNat a.toNat < 2 ^ 64) :
    (alignUp v a).toNat = padUp v.toNat a.toNat :=
  toNat_mask_padUp v a ha hfit

/-- One step of either field loop: the padded position and the position after
the field, once the field's own layout is known to be exact. -/
theorem placed_exact (packed : Bool) (field : LrType) (off : SizeT)
    (hsize : (lrTypeSize field).toNat = exactSize field)
    (halign : (lrTypeAlign field).toNat = exactAlign field)
    (hfit : (if packed then off.toNat else padUp off.toNat (exactAlign field)) +
      exactSize field < 2 ^ 64) :
    (if !packed then alignUp off (lrTypeAlign field) else off).toNat =
        (if packed then off.toNat else padUp off.toNat (exactAlign field)) ∧
      ((if !packed then alignUp off (lrTypeAlign field) else off) + lrTypeSize field).toNat =
        (if packed then off.toNat else padUp off.toNat (exactAlign field)) + exactSize field := by
  have hplaced : (if !packed then alignUp off (lrTypeAlign field) else off).toNat =
      if packed then off.toNat else padUp off.toNat (exactAlign field) := by
    cases packed with
    | true => rfl
    | false =>
      simp only [Bool.not_false, if_true, Bool.false_eq_true, if_false] at hfit ⊢
      rw [alignUp_exact _ _ (by rw [halign]; exact exactAlign_pos field) (by rw [halign]; omega),
        halign]
  exact ⟨hplaced, by rw [toNat_add, hplaced, hsize, Nat.mod_eq_of_lt hfit]⟩

mutual
/-- On a type that fits, the wrapping source computation is the exact one. -/
theorem layout_exact : ∀ t : LrType, FitsSizeT t →
    (lrTypeSize t).toNat = exactSize t ∧ (lrTypeAlign t).toNat = exactAlign t
  | .scalar _ _, _ => ⟨rfl, rfl⟩
  | .ptr _ _, _ => ⟨rfl, rfl⟩
  | .func .., _ => ⟨rfl, rfl⟩
  | .array _ elem count, h => by
    obtain ⟨hsize, halign⟩ := layout_exact elem h.1
    refine ⟨?_, halign⟩
    rw [lrTypeSize, toNat_mul, hsize, Nat.mod_eq_of_lt h.2, exactSize]
  | .vector _ elem count, h => by
    obtain ⟨hsize, halign⟩ := layout_exact elem h.1
    have hprod : (lrTypeSize elem * count).toNat = exactSize elem * count.toNat := by
      rw [toNat_mul, hsize, Nat.mod_eq_of_lt h.2]
    refine ⟨hprod, ?_⟩
    have hpos := exactAlign_pos elem
    rw [lrTypeAlign, exactAlign]
    simp only [lt_def, hprod, halign]
    split
    · have hgt : (0#64).toNat < (lrTypeAlign elem).toNat := by rw [halign]; exact hpos
      rw [if_pos (by simpa [lt_def] using hgt), halign]
      omega
    · have hgt : (0#64).toNat < (lrTypeSize elem * count).toNat := by
        rw [hprod]
        simp only [toNat_ofNat, Nat.zero_mod]
        omega
      rw [if_pos (by simpa [lt_def] using hgt), hprod]
      omega
  | .struct addr fields packed name, h => by
    have hloop := exactFields_le_size addr fields packed name
    have hfields : (structSizeLoop packed fields 0).toNat = exactFields packed fields 0 :=
      sizeLoop_exact packed fields 0 h.1 (lt_of_le_of_lt hloop h.2)
    have hmax : (structAlignLoop fields 1).toNat = exactMaxAlign fields 1 :=
      alignLoop_exact fields 1 h.1
    have hbound := h.2
    refine ⟨?_, ?_⟩
    · unfold lrTypeSize
      unfold exactSize at hbound ⊢
      dsimp only at hbound ⊢
      split
      · rename_i hpad
        rw [if_pos hpad] at hbound
        have hone := le_exactMaxAlign fields 1
        rw [alignUp_exact _ _ (by rw [hmax]; exact hone) (by rw [hfields, hmax]; exact hbound),
          hfields, hmax]
      · exact hfields
    · unfold lrTypeAlign exactAlign
      split
      · rfl
      · exact hmax

theorem sizeLoop_exact : ∀ (packed : Bool) (fields : List LrType) (sz : SizeT), FitsAll fields →
    exactFields packed fields sz.toNat < 2 ^ 64 →
    (structSizeLoop packed fields sz).toNat = exactFields packed fields sz.toNat
  | _, [], _, _, _ => rfl
  | packed, field :: rest, sz, h, hfit => by
    obtain ⟨hsize, halign⟩ := layout_exact field h.1
    unfold exactFields at hfit ⊢
    unfold structSizeLoop
    have hafter := lt_of_le_of_lt (le_exactFields packed rest _) hfit
    obtain ⟨_, hnext⟩ := placed_exact packed field sz hsize halign hafter
    dsimp only
    rw [sizeLoop_exact packed rest _ h.2 (by rw [hnext]; exact hfit), hnext]

theorem alignLoop_exact : ∀ (fields : List LrType) (maxA : SizeT), FitsAll fields →
    (structAlignLoop fields maxA).toNat = exactMaxAlign fields maxA.toNat
  | [], _, _ => rfl
  | field :: rest, maxA, h => by
    obtain ⟨_, halign⟩ := layout_exact field h.1
    unfold structAlignLoop exactMaxAlign
    dsimp only
    rw [alignLoop_exact rest _ h.2]
    congr 1
    simp only [gt_iff_lt, lt_def, halign]
    split
    · rw [halign]; omega
    · omega
end

variable {i : Nat}

section
variable (packed : Bool) (fields : List LrType)
include packed fields

theorem exactFieldOffset_step (i off : Nat) (field : LrType) (hfield : fields[i]? = some field) :
    exactFieldOffset packed fields i off + exactSize field ≤
      exactFieldOffset packed fields (i + 1) off := by
  induction fields generalizing i off with
  | nil => simp at hfield
  | cons head rest ih =>
    cases i with
    | succ i => exact ih i _ (by simpa using hfield)
    | zero =>
      obtain rfl : head = field := by simpa using hfield
      cases rest with
      | nil => exact le_rfl
      | cons next rest => exact le_placed packed next _

theorem exactFieldOffset_le_succ (i off : Nat) :
    exactFieldOffset packed fields i off ≤ exactFieldOffset packed fields (i + 1) off := by
  rcases hfield : fields[i]? with _ | field
  · -- past the end both offsets are the accumulated total
    induction fields generalizing i off with
    | nil => exact le_rfl
    | cons head rest ih =>
      cases i with
      | zero => simp at hfield
      | succ i => exact ih i _ (by simpa using hfield)
  · exact le_trans (Nat.le_add_right _ _) (exactFieldOffset_step packed fields i off field hfield)

theorem exactFieldOffset_mono (off : Nat) {j : Nat} (hij : i ≤ j) :
    exactFieldOffset packed fields i off ≤ exactFieldOffset packed fields j off :=
  monotone_nat_of_le_succ (fun k => exactFieldOffset_le_succ packed fields k off) hij

/-- A field ends before any later field begins. -/
theorem exactFieldOffset_separated {j : Nat} (hij : i < j) (hfield : fields[i]? = some field) :
    exactFieldOffset packed fields i 0 + exactSize field ≤ exactFieldOffset packed fields j 0 :=
  le_trans (exactFieldOffset_step packed fields i 0 field hfield)
    (exactFieldOffset_mono packed fields 0 hij)

theorem exactFieldOffset_length (off : Nat) :
    exactFieldOffset packed fields fields.length off = exactFields packed fields off := by
  induction fields generalizing off with
  | nil => rfl
  | cons head rest ih => exact ih _

end

theorem field_in_struct (addr : Nat) (fields : List LrType) (packed : Bool) (name : Option CStr) (hfield : fields[i]? = some field) :
    exactFieldOffset packed fields i 0 + exactSize field ≤
      exactSize (.struct addr fields packed name) := by
  have hi : i < fields.length := (List.getElem?_eq_some_iff.mp hfield).1
  calc exactFieldOffset packed fields i 0 + exactSize field
      ≤ exactFieldOffset packed fields fields.length 0 :=
        exactFieldOffset_separated packed fields hi hfield
    _ = exactFields packed fields 0 := exactFieldOffset_length packed fields 0
    _ ≤ exactSize (.struct addr fields packed name) := exactFields_le_size addr fields packed name

theorem fieldOffsetLoop_exact (packed : Bool) (fields : List LrType) (i : Nat) (off : SizeT)
    (hfits : FitsAll fields) (hfit : exactFields packed fields off.toNat < 2 ^ 64) :
    (fieldOffsetLoop packed fields i off).toNat = exactFieldOffset packed fields i off.toNat := by
  induction fields generalizing i off with
  | nil => rfl
  | cons field rest ih =>
    obtain ⟨hsize, halign⟩ := layout_exact field hfits.1
    unfold exactFields at hfit
    have hafter := lt_of_le_of_lt (le_exactFields packed rest _) hfit
    obtain ⟨hplaced, hnext⟩ := placed_exact packed field off hsize halign hafter
    cases i with
    | zero => exact hplaced
    | succ i =>
      unfold fieldOffsetLoop exactFieldOffset
      dsimp only
      rw [ih i _ hfits.2 (by rw [hnext]; exact hfit), hnext]

@[simp] theorem exactPath_nil (t : LrType) : exactPath t [] = some (0, t) := by
  cases t <;> rfl

/-- A leaf accepts no further index. -/
theorem exactPath_cons_of_leaf (hleaf : t.isAggregate = false) (idx : BitVec 32)
    (rest : List (BitVec 32)) : exactPath t (idx :: rest) = none := by
  cases t <;> first | rfl | simp [LrType.isAggregate] at hleaf

/-- Every accepted path stays inside its base, whatever type it stops at. -/
theorem exactPath_contained (t : LrType) (path : List (BitVec 32)) (off : Nat) (leaf : LrType)
    (h : exactPath t path = some (off, leaf)) : off + exactSize leaf ≤ exactSize t := by
  induction path generalizing t off with
  | nil =>
    cases h
    omega
  | cons idx rest ih =>
    cases t with
    | scalar | ptr | func => simp [exactPath] at h
    | array addr elem count | vector addr elem count =>
      simp only [exactPath] at h
      obtain ⟨hin, h⟩ := ite_none_left_eq_some.1 h
      obtain ⟨⟨inner, l⟩, hrec, hval⟩ := map_eq_some_iff.mp h
      simp only [Prod.mk.injEq] at hval
      obtain ⟨rfl, rfl⟩ := hval
      have hinner := ih elem inner hrec
      have hrow : (idx.toNat + 1) * exactSize elem ≤ count.toNat * exactSize elem :=
        Nat.mul_le_mul_right _ (by omega)
      simp only [exactSize]
      rw [Nat.add_mul, Nat.one_mul] at hrow
      rw [Nat.mul_comm (exactSize elem)]
      omega
    | struct addr fields packed name =>
      simp only [exactPath] at h
      split at h
      · cases h
      · rename_i field hfield
        obtain ⟨⟨inner, l⟩, hrec, hval⟩ := map_eq_some_iff.mp h
        cases hval
        have hinner := ih field inner hrec
        have hin := field_in_struct addr fields packed name hfield
        omega

/-- Paths that first differ at two elements of one array: the earlier element
ends before the later one begins. -/
theorem element_separated (size i j inner inner' n : Nat) (hij : i < j) (hn : inner + n ≤ size) :
    i * size + inner + n ≤ j * size + inner' := by
  have hrow : (i + 1) * size ≤ j * size := Nat.mul_le_mul_right _ hij
  rw [Nat.add_mul, Nat.one_mul] at hrow
  omega

/-- Two different paths to leaves give disjoint ranges. The induction follows the
first path; both paths end at leaves, so neither is a prefix of the other and
they part at some aggregate. -/
theorem exactPath_disjoint (t : LrType) (p q : List (BitVec 32)) (op oq : Nat) (lp lq : LrType)
    (hp : exactPath t p = some (op, lp)) (hq : exactPath t q = some (oq, lq))
    (hlp : lp.isAggregate = false) (hlq : lq.isAggregate = false) (hne : p ≠ q) :
    op + exactSize lp ≤ oq ∨ oq + exactSize lq ≤ op := by
  induction p generalizing t q op oq with
  | nil =>
    cases q with
    | nil => exact absurd rfl hne
    | cons idx rest =>
      cases hp
      rw [exactPath_cons_of_leaf hlp] at hq
      cases hq
  | cons i ps ih =>
    cases q with
    | nil =>
      cases hq
      rw [exactPath_cons_of_leaf hlq] at hp
      cases hp
    | cons j qs =>
      cases t with
      | scalar | ptr | func => simp [exactPath] at hp
      | array addr elem count | vector addr elem count =>
        simp only [exactPath] at hp hq
        obtain ⟨-, hp⟩ := ite_none_left_eq_some.1 hp
        obtain ⟨-, hq⟩ := ite_none_left_eq_some.1 hq
        obtain ⟨⟨ip, l⟩, hrp, hvp⟩ := map_eq_some_iff.mp hp
        obtain ⟨⟨iq, l'⟩, hrq, hvq⟩ := map_eq_some_iff.mp hq
        simp only [Prod.mk.injEq] at hvp hvq
        obtain ⟨rfl, rfl⟩ := hvp
        obtain ⟨rfl, rfl⟩ := hvq
        have hcp := exactPath_contained elem ps ip _ hrp
        have hcq := exactPath_contained elem qs iq _ hrq
        rcases Nat.lt_trichotomy i.toNat j.toNat with hlt | heq | hgt
        · exact Or.inl (element_separated _ _ _ _ _ _ hlt hcp)
        · have hij : i = j := eq_of_toNat_eq heq
          subst hij
          have hrest : ps ≠ qs := fun he => hne (by rw [he])
          rcases ih elem qs ip iq hrp hrq hrest with h | h
          · exact Or.inl (by omega)
          · exact Or.inr (by omega)
        · exact Or.inr (element_separated _ _ _ _ _ _ hgt hcq)
      | struct addr fields packed name =>
        simp only [exactPath] at hp hq
        split at hp
        · cases hp
        · rename_i fp hfp
          split at hq
          · cases hq
          · rename_i fq hfq
            obtain ⟨⟨ip, l⟩, hrp, hvp⟩ := map_eq_some_iff.mp hp
            obtain ⟨⟨iq, l'⟩, hrq, hvq⟩ := map_eq_some_iff.mp hq
            simp only [Prod.mk.injEq] at hvp hvq
            obtain ⟨rfl, rfl⟩ := hvp
            obtain ⟨rfl, rfl⟩ := hvq
            have hcp := exactPath_contained fp ps ip _ hrp
            have hcq := exactPath_contained fq qs iq _ hrq
            rcases Nat.lt_trichotomy i.toNat j.toNat with hlt | heq | hgt
            · have hsep := exactFieldOffset_separated packed fields hlt hfp
              exact Or.inl (by omega)
            · have hij : i = j := eq_of_toNat_eq heq
              subst hij
              obtain rfl : fp = fq := by
                rw [hfp] at hfq
                exact Option.some.inj hfq
              have hrest : ps ≠ qs := fun he => hne (by rw [he])
              rcases ih fp qs ip iq hrp hrq hrest with h | h
              · exact Or.inl (by omega)
              · exact Or.inr (by omega)
            · have hsep := exactFieldOffset_separated packed fields hgt hfq
              exact Or.inr (by omega)

/-- The source walk adds the exact offset of the path to its accumulator. -/
theorem indexPath_exact (t : LrType) (path : List (BitVec 32)) (off : SizeT) (hfits : FitsSizeT t) :
    indexPathLoop t path off =
      (exactPath t path).map fun r => (off + BitVec.ofNat 64 r.1, r.2) := by
  induction path generalizing t off with
  | nil => cases t <;> simp [indexPathLoop, exactPath]
  | cons idx rest ih =>
    have hidx : (idx.setWidth 64).toNat = idx.toNat := by
      rw [toNat_setWidth, Nat.mod_eq_of_lt (lt_trans idx.isLt (by decide))]
    cases t with
    | scalar | ptr | func => simp [indexPathLoop, exactPath]
    | array addr elem count | vector addr elem count =>
      have hsize := (layout_exact elem hfits.1).1
      simp only [indexPathLoop, exactPath, ge_iff_le, le_def, hidx]
      split
      · rfl
      · rw [ih elem _ hfits.1, Option.map_map]
        congr 1
        funext r
        have hoff : idx.setWidth 64 * lrTypeSize elem = BitVec.ofNat 64 (idx.toNat * exactSize elem) := by
          apply eq_of_toNat_eq
          rw [toNat_mul, hidx, hsize, toNat_ofNat]
        simp only [Function.comp, hoff, ofNat_add, BitVec.add_assoc]
    | struct addr fields packed name =>
      simp only [indexPathLoop, exactPath]
      cases hfield : fields[idx.toNat]? with
      | none => rfl
      | some field =>
        have hmem : field ∈ fields := List.mem_of_getElem? hfield
        simp only
        rw [ih field _ (fitsSizeT_of_mem hfits.1 hmem), Option.map_map]
        congr 1
        funext r
        have hloop : exactFields packed fields 0 < 2 ^ 64 :=
          lt_of_le_of_lt (exactFields_le_size addr fields packed name) hfits.2
        have hoff : lrStructFieldOffset (.struct addr fields packed name) idx.toNat =
            BitVec.ofNat 64 (exactFieldOffset packed fields idx.toNat 0) := by
          have hexact := congrArg (BitVec.ofNat 64)
            (fieldOffsetLoop_exact packed fields idx.toNat 0 hfits.1 hloop)
          simpa [lrStructFieldOffset] using hexact
        simp only [Function.comp, hoff, ofNat_add, BitVec.add_assoc]

variable {path : List (BitVec 32)}

/-- The source's answer for an accepted path, as an exact offset inside the base. -/
theorem lrAggregateIndexPath_exact (hfits : FitsSizeT t)
    {off : SizeT} {leaf : LrType} (h : lrAggregateIndexPath t path = some (off, leaf)) :
    exactPath t path = some (off.toNat, leaf) := by
  rw [lrAggregateIndexPath, indexPath_exact t path 0 hfits] at h
  obtain ⟨⟨n, l⟩, hpath, hval⟩ := map_eq_some_iff.mp h
  cases hval
  have hin := exactPath_contained t path n l hpath
  have hsize := exactSize_lt hfits
  rw [hpath, zero_add, toNat_ofNat, Nat.mod_eq_of_lt (by omega)]

theorem fitsSizeT_leaf (hfits : FitsSizeT t) {off : Nat}
    {leaf : LrType} (h : exactPath t path = some (off, leaf)) : FitsSizeT leaf := by
  induction path generalizing t off with
  | nil =>
    simp only [exactPath_nil, Option.some.injEq, Prod.mk.injEq] at h
    exact h.2 ▸ hfits
  | cons idx rest ih =>
    cases t with
    | scalar | ptr | func => simp [exactPath] at h
    | array addr elem count | vector addr elem count =>
      simp only [exactPath] at h
      obtain ⟨-, h⟩ := ite_none_left_eq_some.1 h
      obtain ⟨⟨inner, l⟩, hrec, hval⟩ := map_eq_some_iff.mp h
      simp only [Prod.mk.injEq] at hval
      exact ih hfits.1 (hval.2 ▸ hrec)
    | struct addr fields packed name =>
      simp only [exactPath] at h
      split at h
      · cases h
      · rename_i field hfield
        obtain ⟨⟨inner, l⟩, hrec, hval⟩ := map_eq_some_iff.mp h
        simp only [Prod.mk.injEq] at hval
        exact ih (fitsSizeT_of_mem hfits.1 (List.mem_of_getElem? hfield)) (hval.2 ▸ hrec)

/-- Two different accepted paths to leaves address disjoint ranges inside the
base; and within every struct nested in the base, fields follow each other. -/
theorem aggregate_layout_partition (base : LrType) (hfits : FitsSizeT base) :
    (∀ (p q : List (BitVec 32)) (op oq : SizeT) (lp lq : LrType),
      lrAggregateIndexPath base p = some (op, lp) →
      lrAggregateIndexPath base q = some (oq, lq) →
      lp.isAggregate = false → lq.isAggregate = false → p ≠ q →
      (op.toNat + (lrTypeSize lp).toNat ≤ oq.toNat ∨ oq.toNat + (lrTypeSize lq).toNat ≤ op.toNat) ∧
      op.toNat + (lrTypeSize lp).toNat ≤ (lrTypeSize base).toNat ∧
      oq.toNat + (lrTypeSize lq).toNat ≤ (lrTypeSize base).toNat) ∧
    (∀ (path : List (BitVec 32)) (off : SizeT) (addr : Nat) (fields : List LrType)
      (packed : Bool) (name : Option CStr),
      lrAggregateIndexPath base path = some (off, .struct addr fields packed name) →
      (∀ i j, i ≤ j →
        (lrStructFieldOffset (.struct addr fields packed name) i).toNat ≤
          (lrStructFieldOffset (.struct addr fields packed name) j).toNat) ∧
      ∀ i field, fields[i]? = some field →
        (lrStructFieldOffset (.struct addr fields packed name) i).toNat +
            (lrTypeSize field).toNat ≤
          (lrStructFieldOffset (.struct addr fields packed name) (i + 1)).toNat) := by
  refine ⟨?_, ?_⟩
  · intro p q op oq lp lq hp hq hlp hlq hne
    have hep := lrAggregateIndexPath_exact hfits hp
    have heq := lrAggregateIndexPath_exact hfits hq
    rw [(layout_exact base hfits).1, (layout_exact lp (fitsSizeT_leaf hfits hep)).1,
      (layout_exact lq (fitsSizeT_leaf hfits heq)).1]
    exact ⟨exactPath_disjoint base p q _ _ lp lq hep heq hlp hlq hne,
      exactPath_contained base p _ lp hep, exactPath_contained base q _ lq heq⟩
  · intro path off addr fields packed name hpath
    have hst := fitsSizeT_leaf hfits (lrAggregateIndexPath_exact hfits hpath)
    have hloop : exactFields packed fields 0 < 2 ^ 64 :=
      lt_of_le_of_lt (exactFields_le_size addr fields packed name) hst.2
    have hoff : ∀ i, (lrStructFieldOffset (.struct addr fields packed name) i).toNat =
        exactFieldOffset packed fields i 0 :=
      fun i => fieldOffsetLoop_exact packed fields i 0 hst.1 hloop
    refine ⟨?_, ?_⟩
    · intro i j hij
      rw [hoff i, hoff j]
      exact exactFieldOffset_mono packed fields 0 hij
    · intro i field hfield
      have hfield_fits := fitsSizeT_of_mem hst.1 (List.mem_of_getElem? hfield)
      rw [hoff i, hoff (i + 1), (layout_exact field hfield_fits).1]
      exact exactFieldOffset_step packed fields i 0 field hfield

/-- `{ i8, <3 x i32>, [2 x i16] }`: the vector has size and alignment 12, which is
no power of two, and starts at byte 4. -/
def oddVectorStruct : LrType :=
  .struct 0 [.scalar 1 .i8, .vector 2 (.scalar 3 .i32) 3, .array 4 (.scalar 5 .i16) 2] false none

theorem aggregate_layout_partition_oddVectorStruct :
    FitsSizeT oddVectorStruct ∧
    lrAggregateIndexPath oddVectorStruct [1, 2] = some (12, .scalar 3 .i32) ∧
    lrAggregateIndexPath oddVectorStruct [2, 0] = some (16, .scalar 5 .i16) ∧
    (BitVec.toNat (12 : SizeT) + (lrTypeSize (.scalar 3 .i32)).toNat ≤
        BitVec.toNat (16 : SizeT) ∨
      BitVec.toNat (16 : SizeT) + (lrTypeSize (.scalar 5 .i16)).toNat ≤
        BitVec.toNat (12 : SizeT)) := by
  have hfits : FitsSizeT oddVectorStruct := by
    refine ⟨⟨trivial, ⟨trivial, by decide⟩, ⟨trivial, by decide⟩, trivial⟩, by decide⟩
  have hp : lrAggregateIndexPath oddVectorStruct [1, 2] = some (12, .scalar 3 .i32) := by decide
  have hq : lrAggregateIndexPath oddVectorStruct [2, 0] = some (16, .scalar 5 .i16) := by decide
  exact ⟨hfits, hp, hq,
    ((aggregate_layout_partition oddVectorStruct hfits).1 [1, 2] [2, 0] 12 16 _ _ hp hq rfl rfl
      (by decide)).1⟩

end Liric.Guarantees.AggregateLayout
