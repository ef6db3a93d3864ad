import Liric.Guarantees.AggregateLayout
import Mathlib.Algebra.Order.Ring.Nat

/-!
# Natural alignment

A vector is aligned to its own width in bytes. Where every vector in a type is empty or a
power of two wide, all alignments are powers of two, sizes are multiples of them and the
padding expression puts every field on its alignment. A vector of three words breaks this
by itself.
-/
namespace Liric.Guarantees.NaturalAlignment
open Source.Ir List
open Lib (padUp padUp_mod)
open AggregateLayout

variable {c t : LrType} {a : Nat} {fields : List LrType}

/-- `c` is part of a value of type `t`, or `t` itself. -/
inductive NestedIn : LrType → LrType → Prop
  | self (t : LrType) : NestedIn t t
  | array {c elem : LrType} {addr : Nat} {count : BitVec 64} (h : NestedIn c elem) :
      NestedIn c (.array addr elem count)
  | vector {c elem : LrType} {addr : Nat} {count : BitVec 64} (h : NestedIn c elem) :
      NestedIn c (.vector addr elem count)
  | struct {c field : LrType} {addr : Nat} {fields : List LrType} {packed : Bool}
      {name : Option CStr} (hmem : field ∈ fields) (h : NestedIn c field) :
      NestedIn c (.struct addr fields packed name)

def HasPackedStruct (t : LrType) : Prop :=
  ∃ addr fields name, NestedIn (.struct addr fields true name) t

/-- The law for one type: `lr_type_align` is a power of two and divides
`lr_type_size`, and every field of an unpacked struct lies on its own alignment, in each
element of an array of such structs. -/
structure NaturallyAligned (t : LrType) : Prop where
  align_pow : (lrTypeAlign t).toNat.isPowerOfTwo
  size_multiple : ¬ HasPackedStruct t → (lrTypeAlign t).toNat ∣ (lrTypeSize t).toNat
  field_multiple : ∀ addr fields name, t = .struct addr fields false name →
    ∀ i (hi : i < fields.length),
      (lrTypeAlign fields[i]).toNat ∣ (lrStructFieldOffset t i).toNat ∧
      ∀ k : Nat, (lrTypeAlign fields[i]).toNat ∣
        k * (lrTypeSize t).toNat + (lrStructFieldOffset t i).toNat

/-- The width of a vector in bytes, as the number of its elements and their width. -/
def vectorWidth (elem : LrType) (count : BitVec 64) : Nat := exactSize elem * count.toNat

/-- Every vector in the type is empty or a power of two wide. -/
def VectorsRegular (t : LrType) : Prop :=
  ∀ addr elem count, NestedIn (.vector addr elem count) t →
    vectorWidth elem count = 0 ∨ (vectorWidth elem count).isPowerOfTwo

theorem NestedIn.fits (h : NestedIn c t) (hfits : FitsSizeT t) : FitsSizeT c := by
  induction h with
  | self => exact hfits
  | array _ ih => exact ih hfits.1
  | vector _ ih => exact ih hfits.1
  | struct hmem _ ih => exact ih (fitsSizeT_of_mem hfits.1 hmem)

theorem NestedIn.trans {b : LrType} (hbc : NestedIn b c) (hct : NestedIn c t) : NestedIn b t := by
  induction hct with
  | self => exact hbc
  | array _ ih => exact .array ih
  | vector _ ih => exact .vector ih
  | struct hmem _ ih => exact .struct hmem ih

theorem VectorsRegular.nested (h : VectorsRegular t) (hc : NestedIn c t) : VectorsRegular c :=
  fun addr elem count hv => h addr elem count (hv.trans hc)

theorem isPowerOfTwo_max {b : Nat} (ha : a.isPowerOfTwo) (hb : b.isPowerOfTwo) :
    (max a b).isPowerOfTwo := by
  rcases le_total a b with h | h
  · rwa [max_eq_right h]
  · rwa [max_eq_left h]

/-- Of two powers of two the smaller one divides the larger one. -/
theorem dvd_of_isPowerOfTwo {b : Nat} (ha : a.isPowerOfTwo) (hb : b.isPowerOfTwo) (h : a ≤ b) :
    a ∣ b := by
  obtain ⟨i, rfl⟩ := ha
  obtain ⟨j, rfl⟩ := hb
  exact pow_dvd_pow 2 ((Nat.pow_le_pow_iff_right (by decide)).1 h)

theorem dvd_padUp (ha : a.isPowerOfTwo) (v : Nat) : a ∣ padUp v a := by
  obtain ⟨n, rfl⟩ := ha
  exact Nat.dvd_of_mod_eq_zero (padUp_mod v n)

theorem exactMaxAlign_isPowerOfTwo {maxA : Nat} (hmax : maxA.isPowerOfTwo)
    (hall : ∀ f ∈ fields, (exactAlign f).isPowerOfTwo) :
    (exactMaxAlign fields maxA).isPowerOfTwo := by
  induction fields generalizing maxA with
  | nil => exact hmax
  | cons field rest ih =>
    exact ih (isPowerOfTwo_max hmax (hall field mem_cons_self))
      (fun f hf => hall f (mem_cons_of_mem _ hf))

theorem exactAlign_le_max {f : LrType} (hmem : f ∈ fields) (maxA : Nat) :
    exactAlign f ≤ exactMaxAlign fields maxA := by
  induction fields generalizing maxA with
  | nil => cases hmem
  | cons field rest ih =>
    obtain rfl | hrest := mem_cons.1 hmem
    · exact (le_max_right _ _).trans (le_exactMaxAlign rest _)
    · exact ih hrest _

theorem vector_align (addr : Nat) {elem : LrType} (count : BitVec 64)
    (hdvd : exactAlign elem ∣ exactSize elem) :
    (vectorWidth elem count = 0 ∧ exactAlign (.vector addr elem count) = exactAlign elem) ∨
      (0 < vectorWidth elem count ∧ exactAlign (.vector addr elem count) = vectorWidth elem count) := by
  have hpos := exactAlign_pos elem
  rw [exactAlign]
  by_cases hzero : vectorWidth elem count = 0
  · refine .inl ⟨hzero, ?_⟩
    rw [show exactSize elem * count.toNat = 0 from hzero]
    omega
  · have hle : exactAlign elem ≤ vectorWidth elem count :=
      Nat.le_of_dvd (Nat.pos_of_ne_zero hzero) (hdvd.mul_right _)
    refine .inr ⟨Nat.pos_of_ne_zero hzero, ?_⟩
    rw [show exactSize elem * count.toNat = vectorWidth elem count from rfl]
    omega

/-- Where vectors are regular, alignments are powers of two that divide the sizes. -/
theorem exactAlign_regular : ∀ t : LrType, VectorsRegular t →
    (exactAlign t).isPowerOfTwo ∧ exactAlign t ∣ exactSize t
  | .scalar _ kind, _ => by
    have hne : (scalarAlign kind).toNat ≠ 0 := by cases kind <;> decide
    refine ⟨(Nat.and_sub_one_eq_zero_iff_isPowerOfTwo hne).1 ?_, ?_⟩
    · cases kind <;> decide
    · rw [exactAlign, exactSize]
      cases kind <;> decide
  | .ptr _ _, _ => ⟨⟨3, rfl⟩, dvd_rfl⟩
  | .func .., _ => ⟨⟨0, rfl⟩, dvd_zero 1⟩
  | .array _ elem count, h => by
    obtain ⟨hpow, hdvd⟩ := exactAlign_regular elem (h.nested (.array (.self _)))
    exact ⟨hpow, hdvd.mul_right _⟩
  | .vector addr elem count, h => by
    obtain ⟨hpow, hdvd⟩ := exactAlign_regular elem (h.nested (.vector (.self _)))
    obtain ⟨hzero, halign⟩ | ⟨hpos, halign⟩ := vector_align addr count hdvd
    · rw [halign, exactSize]
      exact ⟨hpow, hdvd.mul_right _⟩
    · rw [halign]
      refine ⟨?_, dvd_rfl⟩
      exact (h addr elem count (.self _)).resolve_left (by omega)
  | .struct addr fields packed name, h => by
    have hall : ∀ f ∈ fields, (exactAlign f).isPowerOfTwo := fun f hf =>
      (exactAlign_regular f (h.nested (.struct hf (.self _)))).1
    have hmax := exactMaxAlign_isPowerOfTwo Nat.isPowerOfTwo_one hall
    unfold exactAlign exactSize
    cases packed with
    | true => exact ⟨⟨0, rfl⟩, one_dvd _⟩
    | false =>
      refine ⟨hmax, ?_⟩
      cases fields with
      | nil => exact dvd_zero _
      | cons field rest => exact dvd_padUp hmax _
termination_by t => t

/-- A field is placed on its alignment. -/
theorem exactAlign_dvd_offset {i : Nat} (hi : i < fields.length) (off : Nat)
    (hpow : (exactAlign fields[i]).isPowerOfTwo) :
    exactAlign fields[i] ∣ exactFieldOffset false fields i off := by
  induction fields generalizing i off with
  | nil => simp at hi
  | cons field rest ih =>
    cases i with
    | zero => exact dvd_padUp hpow off
    | succ i => exact ih (by simpa using hi) _ hpow

theorem lrStructFieldOffset_exact {addr : Nat} {packed : Bool} {name : Option CStr}
    (hfits : FitsSizeT (.struct addr fields packed name)) (i : Nat) :
    (lrStructFieldOffset (.struct addr fields packed name) i).toNat =
      exactFieldOffset packed fields i 0 :=
  fieldOffsetLoop_exact packed fields i 0 hfits.1
    (Nat.lt_of_le_of_lt (exactFields_le_size addr fields packed name) hfits.2)

theorem naturallyAligned_of_regular (hfits : FitsSizeT t) (h : VectorsRegular t) :
    NaturallyAligned t := by
  obtain ⟨hpow, hdvd⟩ := exactAlign_regular t h
  obtain ⟨hsize, halign⟩ := layout_exact t hfits
  refine ⟨halign ▸ hpow, fun _ => by rwa [hsize, halign], ?_⟩
  rintro addr fields name rfl i hi
  have hmem : fields[i] ∈ fields := getElem_mem hi
  have hfield := (exactAlign_regular _ (h.nested (.struct hmem (.self _)))).1
  have hfieldAlign := (layout_exact _ (fitsSizeT_of_mem hfits.1 hmem)).2
  have hoffset := exactAlign_dvd_offset hi 0 hfield
  rw [hfieldAlign, hsize, lrStructFieldOffset_exact hfits]
  refine ⟨hoffset, fun k => Nat.dvd_add ?_ hoffset⟩
  have hwhole : exactAlign fields[i] ∣ exactAlign (.struct addr fields false name) := by
    refine dvd_of_isPowerOfTwo hfield hpow ?_
    exact exactAlign_le_max hmem 1
  exact (hwhole.trans hdvd).mul_left k

/-- In a type all of whose parts obey the law, every vector is regular. -/
theorem vectorsRegular_of_aligned : ∀ t : LrType, FitsSizeT t →
    (∀ c, NestedIn c t → NaturallyAligned c) → VectorsRegular t
  | .scalar .., _, _ => by
    intro addr elem count hv
    cases hv
  | .ptr .., _, _ => by
    intro addr elem count hv
    cases hv
  | .func .., _, _ => by
    intro addr elem count hv
    cases hv
  | .array _ elem _, hfits, hall => by
    intro addr velem count hv
    cases hv with
    | array hv =>
      exact vectorsRegular_of_aligned elem hfits.1 (fun c hc => hall c (.array hc)) addr velem count hv
  | .vector vaddr elem vcount, hfits, hall => by
    have helem := vectorsRegular_of_aligned elem hfits.1 (fun c hc => hall c (.vector hc))
    intro addr velem count hv
    cases hv with
    | vector hv => exact helem addr velem count hv
    | self =>
      have hpow := (hall _ (.self _)).align_pow
      rw [(layout_exact _ hfits).2] at hpow
      obtain ⟨hzero, -⟩ | ⟨-, halign⟩ := vector_align vaddr vcount
        (exactAlign_regular elem helem).2
      · exact .inl hzero
      · exact .inr (halign ▸ hpow)
  | .struct _ fields _ _, hfits, hall => by
    intro addr velem count hv
    cases hv with
    | @struct field _ _ _ _ hmem hv =>
      exact vectorsRegular_of_aligned field (fitsSizeT_of_mem hfits.1 hmem)
        (fun c hc => hall c (.struct hmem hc)) addr velem count hv
termination_by t => t

/-- A type and all its parts obey the law exactly where its vectors are regular. -/
theorem natural_alignment_iff (t : LrType) (hfits : FitsSizeT t) :
    (∀ c, NestedIn c t → NaturallyAligned c) ↔ VectorsRegular t := by
  refine ⟨vectorsRegular_of_aligned t hfits, fun h c hc => ?_⟩
  exact naturallyAligned_of_regular (hc.fits hfits) (h.nested hc)

/-- `{ i8, <4 x i32> }`. -/
theorem natural_alignment_iff_four :
    NaturallyAligned (.struct 0 [.scalar 1 .i8, .vector 2 (.scalar 3 .i32) 4] false none) := by
  refine (natural_alignment_iff (.struct 0 [.scalar 1 .i8, .vector 2 (.scalar 3 .i32) 4] false none)
    ⟨⟨trivial, ⟨trivial, by decide⟩, trivial⟩, by decide⟩).2 ?_ _ (.self _)
  intro addr elem count hv
  cases hv with
  | @struct field _ _ _ _ hmem hv =>
    obtain rfl | hmem := mem_cons.1 hmem
    · cases hv
    · obtain rfl := mem_singleton.1 hmem
      cases hv with
      | self => exact .inr ⟨4, by decide⟩
      | vector hv => cases hv

/-- In `{ i8, <3 x i32> }` the vector has alignment 12 and starts at byte 4, and the size
of the struct is 20. -/
theorem natural_alignment_three :
    FitsSizeT (.struct 0 [.scalar 1 .i8, .vector 2 (.scalar 3 .i32) 3] false none) ∧
      lrTypeAlign (.vector 2 (.scalar 3 .i32) 3) = 12 ∧
      lrStructFieldOffset (.struct 0 [.scalar 1 .i8, .vector 2 (.scalar 3 .i32) 3] false none) 1 = 4 ∧
      ¬ NaturallyAligned (.vector 2 (.scalar 3 .i32) 3) ∧
      ¬ NaturallyAligned (.struct 0 [.scalar 1 .i8, .vector 2 (.scalar 3 .i32) 3] false none) := by
  have hpow : ¬ (12 : Nat).isPowerOfTwo := by
    rw [← Nat.and_sub_one_eq_zero_iff_isPowerOfTwo (by decide)]
    decide
  have halign : (lrTypeAlign (.vector 2 (.scalar 3 .i32) 3)).toNat = 12 := by decide
  refine ⟨⟨⟨trivial, ⟨trivial, by decide⟩, trivial⟩, by decide⟩, by decide, by decide, ?_, ?_⟩
  · intro h
    exact hpow (halign ▸ h.align_pow)
  · intro h
    have hfield := (h.field_multiple _ _ _ rfl 1 (by decide)).1
    revert hfield
    decide

end Liric.Guarantees.NaturalAlignment
