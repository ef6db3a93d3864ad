import Liric.Guarantees.AggregateCode
import Liric.Guarantees.AggregateLayout

/-!
# Moves of aggregates on x86_64

A move is exact if each byte of the value comes to its place and no other byte is written. A
result that is a vreg has a slot of at least eight bytes, so shorter values may fill it up.
-/
namespace Liric.Guarantees.AggregateMoves
open Source.Ir Source.X8664 Lib Lib.X64
open Lib.A64 (load store)
open AggregateLayout X8664Code X8664Values X8664Memory AggregateCode

variable {off : SizeT} {leaf : LrType}

inductive Move where
  | load (desc : LrInst) (op0 : LrOperand)
  | store (op0 op1 : LrOperand)
  | extractvalue (desc : LrInst) (op0 : LrOperand)
  | insertvalue (desc : LrInst) (op0 op1 : LrOperand)

/-- The offset and the size of a field. -/
def fieldAt (desc : LrInst) (type : Option LrType) : Nat × Nat :=
  (fieldPath desc type).elim (0, 0) fun p => (p.1.toNat, (lrTypeSize p.2).toNat)

/-- The slot of a vreg. -/
def slotPlace (d : X86Ctx) (σ : State) (vreg : Nat) : BitVec 64 :=
  place σ x86Rbp (d.frame.slot vreg).off

namespace Move
variable (host : X86Host) (address : RelocRef → BitVec 64) (c d : X86Ctx) (σ τ : State)

def emit : Move → X86M Unit
  | .load desc op0 => emitLoadInst host desc op0
  | .store op0 op1 => emitStoreInst host op0 op1
  | .extractvalue desc op0 => emitExtractvalue host desc op0
  | .insertvalue desc op0 op1 => emitInsertvalue host desc op0 op1

/-- The size of the value that is moved. -/
def size : Move → Nat
  | .load desc _ | .insertvalue desc _ _ => (typeSize desc.type).toNat
  | .store op0 _ => (typeSize op0.type).toNat
  | .extractvalue desc op0 => (fieldAt desc op0.type).2

/-- The bytes of the value, in the state before the move. -/
def given : Move → Nat → BitVec 8
  | .load _ op0, i => σ.mem (operandWord host address d σ op0 + BitVec.ofNat 64 i)
  | .store op0 _, i => operandByte host address d σ (typeSize op0.type).toNat op0 i
  | .extractvalue desc op0, i =>
    operandByte host address d σ (typeSize op0.type).toNat op0 ((fieldAt desc op0.type).1 + i)
  | .insertvalue desc op0 op1, i =>
    let (off, field) := fieldAt desc desc.type
    if off ≤ i ∧ i < off + field then operandByte host address d σ field op1 (i - off)
    else operandByte host address d σ (typeSize desc.type).toNat op0 i

/-- The bytes of the result, in the state behind the move. -/
def found : Move → Nat → BitVec 8
  | .store _ op1, i => τ.mem (operandWord host address d σ op1 + BitVec.ofNat 64 i)
  | .load desc op0, i => vregByte d τ (Move.load desc op0).size desc.dest i
  | .extractvalue desc op0, i => vregByte d τ (Move.extractvalue desc op0).size desc.dest i
  | .insertvalue desc op0 op1, i => vregByte d τ (Move.insertvalue desc op0 op1).size desc.dest i

/-- The memory that may be written. -/
def room (m : Move) : BitVec 64 × Nat :=
  match m with
  | .store _ op1 => (operandWord host address d σ op1, m.size)
  | .load desc _ | .extractvalue desc _ | .insertvalue desc _ _ =>
    (slotPlace d σ desc.dest, max m.size 8)

/-- Bytes that are copied in memory are not written at the same time. -/
def Apart (m : Move) : Prop :=
  match m with
  | .load desc op0 => 8 < m.size →
    ApartBytes (operandWord host address d σ op0) m.size (slotPlace d σ desc.dest) m.size
  | .store op0 op1 => 8 < m.size → ∀ v, op0.value = .vreg v →
    ApartBytes (dataPlace d σ v) m.size (operandWord host address d σ op1) m.size
  | .extractvalue desc op0 => 8 < m.size → ∀ v, op0.value = .vreg v →
    ApartBytes (dataPlace d σ v) (typeSize op0.type).toNat (slotPlace d σ desc.dest) m.size
  | .insertvalue desc op0 op1 => InsertApart d σ op0 op1 (max m.size 8) (fieldAt desc desc.type).2
    (slotPlace d σ desc.dest)

variable (m : Move)

def compiled : X86Ctx := (m.emit host c).2

/-- The state behind the code of the move. -/
def after : State := run address ((m.compiled host c).code.drop c.code.length) σ

/-- Every byte of the value is moved, and no other byte is written. -/
structure Exact : Prop where
  bytes : ∀ σ, Agrees c (m.compiled host c) σ → m.Apart host address (m.compiled host c) σ →
    ∀ i < m.size, m.found host address (m.compiled host c) σ (m.after host address c σ) i =
      m.given host address (m.compiled host c) σ i
  frame : ∀ σ, Agrees c (m.compiled host c) σ → m.Apart host address (m.compiled host c) σ →
    ∀ b, (∀ i < (m.room host address (m.compiled host c) σ).2,
      b ≠ (m.room host address (m.compiled host c) σ).1 + BitVec.ofNat 64 i) →
    (m.after host address c σ).mem b = σ.mem b

end Move

section Given
variable (host : X86Host) (c : X86Ctx)

/-- A pointer, whose offset from a symbol is not the least 32-bit number. -/
structure IsPlain (op : LrOperand) : Prop where
  operand : IsOperand host op
  offset : ¬ (Adds host op ∧ op.globalOffset = -2 ^ 31)

/-- A value of `n` bytes. A vreg has room for it or for its address, and a constant of more
than eight bytes is zero. -/
structure IsValue (n : Nat) (op : LrOperand) : Prop extends IsPlain host op where
  room : ∀ v, op.value = .vreg v → HasRoom c.frame n v
  long : 8 < n → IsZero op ∨ ∃ v, op.value = .vreg v

/-- An aggregate of `n` bytes is zero or a vreg, and no alloca, which is a pointer. -/
structure IsAggregate (n : Nat) (op : LrOperand) : Prop where
  value : IsZero op ∨ ∃ v, op.value = .vreg v
  vreg : ∀ v, op.value = .vreg v →
    v < uint32Max ∧ HasRoom c.frame n v ∧ c.frame.lookupStaticAllocaOffset v = 0

/-- A result that is no alloca and no operand, in a frame that stays below 2 GiB. -/
structure IsResult (desc : LrInst) (ops : List LrOperand) (n : Nat) (align : SizeT) : Prop where
  plain : c.frame.lookupStaticAllocaOffset desc.dest = 0
  fresh : ∀ op ∈ ops, op.value ≠ .vreg desc.dest
  sound : Sound (n + align.toNat + 128) c

/-- The field lies in the aggregate. -/
structure HasField (desc : LrInst) (type : Option LrType) : Prop where
  fits : ∃ t, type = some t ∧ FitsSizeT t
  path : (fieldPath desc type).isSome
  small : (typeSize type).toNat + 8 < 2 ^ 31

end Given

/-- What the builders of instructions see to. -/
def Move.WellFormed (host : X86Host) (c : X86Ctx) (m : Move) : Prop :=
  match m with
  | .load desc op0 => IsPlain host op0 ∧ IsResult c desc [op0] m.size (typeAlign desc.type)
  | .store op0 op1 => IsValue host c m.size op0 ∧ IsPlain host op1 ∧ Sound (m.size + 128) c ∧
    ∀ v w, op0.value = .vreg v → op1.value = .vreg w → c.frame.lookupStaticAllocaOffset v = 0 →
      c.frame.lookupStaticAllocaOffset w ≠ 0 →
      ((m.compiled host c).frame.slot v).off ≠ c.frame.lookupStaticAllocaOffset w
  | .extractvalue desc op0 => IsAggregate c (typeSize op0.type).toNat op0 ∧
    HasField desc op0.type ∧ IsResult c desc [op0] m.size (resultAlign desc)
  | .insertvalue desc op0 op1 => IsAggregate c (max m.size 8) op0 ∧ HasField desc desc.type ∧
    IsValue host c (fieldAt desc desc.type).2 op1 ∧
    IsResult c desc [op0, op1] m.size (resultAlign desc)

/-- A move of a register has this width, or there is a loop over the bytes. -/
def IsWidth (n : Nat) : Prop := n ∉ [3, 5, 6, 7]

/-- When the moves are exact. -/
def Move.HasWidth (m : Move) : Prop :=
  match m with
  | .load _ _ => IsWidth m.size
  | .store _ _ => IsWidth m.size ∧ m.size ≠ 0
  | .extractvalue _ op0 =>
    match op0.value with
    | .vreg _ => IsWidth m.size
    | .immI64 _ => m.size ≤ 8
    | _ => True
  | .insertvalue desc _ _ => IsWidth (fieldAt desc desc.type).2

section Values
variable {host : X86Host} {address : RelocRef → BitVec 64} {c d : X86Ctx} {σ τ : State}
  {op : LrOperand} {n v i : Nat}

theorem operandByte_zero (h : IsZero op) : operandByte host address d σ n op i = 0 := by
  have hword : operandWord host address d σ op = 0 := by
    rcases h with h | h | h
    · rw [operandWord, h]
      simp only [constant, h]
      rfl
    · rw [operandWord, h]
      simp only [constant, h]
      rfl
    · rw [operandWord, h]
      simp only [constant, h]
      rfl
  rcases h with h | h | h
  · simp [operandByte, h, hword]
  · simp [operandByte, h, hword]
  · simp [operandByte, h, hword]

/-- The bytes of a vreg that is no alloca are in memory. -/
theorem vregByte_place (hstatic : n ≤ 8 → d.frame.lookupStaticAllocaOffset v = 0)
    (hi : n ≤ 8 → i < 8) :
    vregByte d σ n v i = σ.mem (valuePlace d σ n v + BitVec.ofNat 64 i) := by
  unfold vregByte valuePlace
  split
  · next hshort =>
    rw [freshValue, if_neg (not_not.2 (hstatic hshort)), load_byte _ _ (hi hshort),
      if_pos (hi hshort)]
  · rfl

theorem valuePlace_max : valuePlace d σ (max n 8) v = valuePlace d σ n v := by
  unfold valuePlace
  by_cases h : n ≤ 8
  · rw [max_eq_right h, if_pos h, if_pos (le_refl 8)]
  · rw [max_eq_left (by omega)]

theorem loadedByte_width (hn : IsWidth n) (hi : i < n) (mem : Lib.A64.Mem) (p : BitVec 64) :
    loadedByte mem p n i = mem (p + BitVec.ofNat 64 i) := by
  have hwidth : n ≤ 8 → n ≤ loadWidth n := by
    intro h
    simp only [IsWidth, List.mem_cons, List.not_mem_nil, or_false, not_or] at hn
    unfold loadWidth
    repeat' split
    all_goals omega
  unfold loadedByte
  split
  · next hshort =>
    have := hwidth hshort
    rw [if_pos (by omega)]
  · rfl

theorem storeWidth_width (hn : IsWidth n) (hzero : n ≠ 0) (hshort : n ≤ 8) : storeWidth n = n := by
  simp only [IsWidth, List.mem_cons, List.not_mem_nil, or_false, not_or] at hn
  unfold storeWidth
  repeat' split
  all_goals omega

/-- The operand is loaded as its word. -/
theorem holds_plain {keep : Nat → Bool} {k : Nat} (h : IsPlain host op)
    (hkeep : ∀ v, op.value = .vreg v → keep v = true)
    (hstatics : d.frame.staticAllocaOffsets = c.frame.staticAllocaOffsets)
    (hag : Agrees c d σ) (hroom : Room k c) :
    Holds host address d.frame.slot keep k c σ op (operandWord host address d σ op) := by
  rw [← loadedWord_exact h.offset]
  exact holds_of_isOperand h.operand hkeep hstatics hag hroom

theorem room_of_sound {spare k : Nat} (h : Sound spare c) (hk : 16 * k ≤ spare) : Room k c := by
  have hroom := h.room
  unfold Room
  omega

end Values

section Exact
variable {host : X86Host} {address : RelocRef → BitVec 64} {c : X86Ctx} {σ : State}
  {desc : LrInst} {op0 op1 : LrOperand}

theorem sizeOr8_or (size : SizeT) : (sizeOr8 size).toNat = size.toNat ∨
    (size.toNat = 0 ∧ (sizeOr8 size).toNat = 8) := by
  rw [toNat_sizeOr8]
  by_cases h : size.toNat = 0
  · simp [h]
  · simp [h]

variable {i : Nat}

section
variable {d : X86Ctx} {τ : State} {dest : Nat} {size : SizeT} {f : Nat → BitVec 8}
  (h : Fills d σ τ dest (sizeOr8 size).toNat f)
include h

/-- A size of 0 is treated as one of 8, which fills the same slot. -/
theorem found_of_fills (hdest : d.frame.lookupStaticAllocaOffset dest = 0) (hi : i < size.toNat) :
    vregByte d τ size.toNat dest i = f i := by
  rcases sizeOr8_or size with hsame | ⟨hzero, -⟩
  · rw [hsame] at h
    exact h.vregByte hdest hi
  · omega

theorem frame_of_fills {b : BitVec 64}
    (hb : ∀ i < max size.toNat 8, b ≠ slotPlace d σ dest + BitVec.ofNat 64 i) :
    τ.mem b = σ.mem b := by
  apply h.wrote.frame
  intro i hi
  apply hb
  rcases sizeOr8_or size with hsame | ⟨hzero, hsame⟩
  · rwa [hsame] at hi
  · rw [hsame] at hi
    omega

end

/-- All vregs but the result stay where they are. -/
def others (desc : LrInst) (v : Nat) : Bool := v ≠ desc.dest

theorem others_op (h : op0.value ≠ .vreg desc.dest) :
    ∀ v, op0.value = .vreg v → others desc v = true := by
  intro v hv
  have hne : v ≠ desc.dest := by
    rintro rfl
    exact h hv
  simp [others, hne]

/-- What the code of LOAD leaves in the slot. -/
theorem load_fills (h : (Move.load desc op0).WellFormed host c)
    (hag : Agrees c ((Move.load desc op0).compiled host c) σ)
    (hapart : (Move.load desc op0).Apart host address ((Move.load desc op0).compiled host c) σ) :
    Fills ((Move.load desc op0).compiled host c) σ ((Move.load desc op0).after host address c σ)
      desc.dest (sizeOr8 (typeSize desc.type)).toNat
      (loadedByte σ.mem (operandWord host address ((Move.load desc op0).compiled host c) σ op0)
        (sizeOr8 (typeSize desc.type)).toNat) := by
  obtain ⟨hop, hresult⟩ := h
  have hdest : others desc desc.dest = false := by simp [others]
  have happ : Appends (target address (others desc) false) (emitLoadInst host desc op0) :=
    appends_emitLoadInst hdest
  have hstatics := (happ.step c).1.statics
  have hsize := toNat_sizeOr8 (typeSize desc.type)
  have hword : Holds host address ((Move.load desc op0).compiled host c).frame.slot (others desc)
      1 c σ op0 _ :=
    holds_plain hop (others_op (hresult.fresh op0 (by simp))) hstatics hag
      (room_of_sound hresult.sound (by omega))
  have hsound : Sound (0 + max (sizeOr8 (typeSize desc.type)).toNat 8 +
      max (typeAlign desc.type).toNat 8 + 16) c := by
    apply hresult.sound.less
    rw [hsize]
    simp only [Move.size]
    split <;> omega
  have hcode : Emits (target address (others desc) false) _ (emitLoadInst host desc op0) c σ _ :=
    emits_emitLoadInst hdest hword rfl hsound
  apply hcode.after fun _ _ _ => rfl
  intro hlong
  rcases sizeOr8_or (typeSize desc.type) with hsame | ⟨-, hsame⟩
  · rw [hsame] at hlong ⊢
    exact hapart hlong
  · omega

theorem load_dest (h : (Move.load desc op0).WellFormed host c) :
    ((Move.load desc op0).compiled host c).frame.lookupStaticAllocaOffset desc.dest = 0 := by
  have happ : Appends (target (fun _ => 0) (others desc) false) (emitLoadInst host desc op0) :=
    appends_emitLoadInst (by simp [others])
  exact (lookup_congr (happ.step c).1.statics _).trans h.2.plain

theorem load_exact (h : (Move.load desc op0).WellFormed host c)
    (hwidth : (Move.load desc op0).HasWidth) : (Move.load desc op0).Exact host address c := by
  constructor
  · intro σ hag hapart i hi
    have hfills := load_fills h hag hapart
    have hbyte := found_of_fills hfills (load_dest h) hi
    refine hbyte.trans ?_
    rcases sizeOr8_or (typeSize desc.type) with hsame | ⟨hzero, -⟩
    · rw [hsame]
      exact loadedByte_width hwidth hi ..
    · exact absurd (hzero ▸ hi : i < 0) (Nat.not_lt_zero i)
  · intro σ hag hapart b hb
    exact frame_of_fills (load_fills h hag hapart) hb

/-- A store of at most eight bytes. -/
theorem store_short (h : (Move.store op0 op1).WellFormed host c)
    (hshort : (sizeOr8 (typeSize op0.type)).toNat ≤ 8)
    (hag : Agrees c ((Move.store op0 op1).compiled host c) σ) :
    ((Move.store op0 op1).after host address c σ).mem =
      store σ.mem (operandWord host address ((Move.store op0 op1).compiled host c) σ op1)
        (storeWidth (sizeOr8 (typeSize op0.type)).toNat)
        (operandWord host address ((Move.store op0 op1).compiled host c) σ op0) := by
  obtain ⟨hvalue, hpointer, hsound, -⟩ := h
  have happ : Appends (target address (fun _ => true) false) (emitStoreInst host op0 op1) :=
    appends_emitStoreInst ..
  have hstatics := (happ.step c).1.statics
  have hroom : Room 2 c := room_of_sound hsound (by omega)
  have hless : Sound (0 + 32) c := hsound.less (by omega)
  have hcode : Emits (target address (fun _ => true) false) _ (emitStoreInst host op0 op1) c σ _ :=
    emits_storeShort (holds_plain hpointer (fun _ _ => rfl) hstatics hag hroom)
      (holds_plain hvalue.toIsPlain (fun _ _ => rfl) hstatics hag hroom) hshort hless
  exact hcode.after fun _ _ _ => rfl

/-- A longer store writes the bytes of the value. -/
theorem store_long (h : (Move.store op0 op1).WellFormed host c)
    (hlong : 8 < (Move.store op0 op1).size)
    (hag : Agrees c ((Move.store op0 op1).compiled host c) σ)
    (hapart : (Move.store op0 op1).Apart host address ((Move.store op0 op1).compiled host c) σ) :
    Wrote σ.mem ((Move.store op0 op1).after host address c σ).mem
      (operandWord host address ((Move.store op0 op1).compiled host c) σ op1)
      ((Move.store op0 op1).given host address ((Move.store op0 op1).compiled host c) σ)
      (Move.store op0 op1).size := by
  obtain ⟨hvalue, hpointer, hsound, -⟩ := h
  have happ : Appends (target address (fun _ => true) false) (emitStoreInst host op0 op1) :=
    appends_emitStoreInst ..
  have hstatics := (happ.step c).1.statics
  have hroom : Room 1 c := room_of_sound hsound (by omega)
  have hbound : (Move.store op0 op1).size < 2 ^ 31 := by
    have hframe := hsound.room
    omega
  have hp : Holds host address ((Move.store op0 op1).compiled host c).frame.slot (fun _ => true)
      1 c σ op1 _ := holds_plain hpointer (fun _ _ => rfl) hstatics hag hroom
  have hsame : (typeSize op0.type).toNat = (sizeOr8 (typeSize op0.type)).toNat := by
    simp only [Move.size] at hlong
    rcases sizeOr8_or (typeSize op0.type) with hsame | ⟨hzero, -⟩
    · exact hsame.symm
    · omega
  rcases hvalue.long hlong with hzero | ⟨v, hv⟩
  · have hno : ∀ v, op0.value ≠ .vreg v := by
      intro v hv
      rcases hzero with h | h | h <;> rw [hv] at h <;> cases h
    have hless : Sound (0 + 16) c := hsound.less (by omega)
    have hcode : Emits (target address (fun _ => true) false) _ (emitStoreInst host op0 op1)
        c σ _ := emits_storeZero hno hp hsame hlong hbound hless
    apply Wrote.congr (hcode.after fun _ _ _ => rfl)
    intro i _
    exact (operandByte_zero hzero).symm
  · have hless : Sound (0 + 32) c := hsound.less (by omega)
    have hplace : valuePlace ((Move.store op0 op1).compiled host c) σ (Move.store op0 op1).size v =
        dataPlace ((Move.store op0 op1).compiled host c) σ v := if_neg (Nat.not_le.2 hlong)
    have hcode : Emits (target address (fun _ => true) false) _ (emitStoreInst host op0 op1)
        c σ _ := emits_storeLong hv hp rfl hsame hlong hbound (hvalue.room v hv) hless hstatics
          (hplace ▸ hapart hlong v hv)
    apply Wrote.congr (hcode.after fun _ _ _ => rfl)
    intro i _
    rw [Move.given, operandByte, hv]
    exact (vregByte_place (fun hshort => absurd hlong (Nat.not_lt.2 hshort))
      (fun hshort => absurd hlong (Nat.not_lt.2 hshort))).symm

theorem store_exact (h : (Move.store op0 op1).WellFormed host c)
    (hwidth : (Move.store op0 op1).HasWidth) : (Move.store op0 op1).Exact host address c := by
  have hwrote : ∀ σ, Agrees c ((Move.store op0 op1).compiled host c) σ →
      (Move.store op0 op1).Apart host address ((Move.store op0 op1).compiled host c) σ →
      Wrote σ.mem ((Move.store op0 op1).after host address c σ).mem
        (operandWord host address ((Move.store op0 op1).compiled host c) σ op1)
        ((Move.store op0 op1).given host address ((Move.store op0 op1).compiled host c) σ)
        (Move.store op0 op1).size := by
    intro σ hag hapart
    by_cases hlong : 8 < (Move.store op0 op1).size
    · exact store_long h hlong hag hapart
    · have hshort : (Move.store op0 op1).size ≤ 8 := Nat.not_lt.1 hlong
      have hsame : (sizeOr8 (typeSize op0.type)).toNat = (Move.store op0 op1).size := by
        rcases sizeOr8_or (typeSize op0.type) with hsame | ⟨hzero, -⟩
        · exact hsame
        · exact absurd hzero hwidth.2
      rw [store_short h (hsame ▸ hshort) hag, hsame, storeWidth_width hwidth.1 hwidth.2 hshort]
      apply (Wrote.of_store _ _ _ hshort).congr
      intro i _
      exact (operandByte_word hshort op0 i).symm
  constructor
  · intro σ hag hapart i hi
    exact (hwrote σ hag hapart).bytes i hi
  · intro σ hag hapart b hb
    exact (hwrote σ hag hapart).frame b hb

/-- Where the field is, as numbers: it lies in the aggregate. -/
theorem field_inside {type : Option LrType} (h : HasField desc type)
    (hpath : fieldPath desc type = some (off, leaf)) :
    fieldAt desc type = (off.toNat, (lrTypeSize leaf).toNat) ∧
      off.toNat + (lrTypeSize leaf).toNat ≤ (typeSize type).toNat := by
  obtain ⟨⟨t, rfl, hfits⟩, -, -⟩ := h
  refine ⟨by rw [fieldAt, hpath]; rfl, ?_⟩
  have hexact := lrAggregateIndexPath_exact hfits hpath
  have hleaf := (layout_exact leaf (fitsSizeT_leaf hfits hexact)).1
  have hwhole := (layout_exact t hfits).1
  have hin := exactPath_contained t _ _ _ hexact
  change off.toNat + (lrTypeSize leaf).toNat ≤ (lrTypeSize t).toNat
  omega

theorem ofNat_toNat_size (off : SizeT) : BitVec.ofNat 64 off.toNat = off := by
  rw [BitVec.ofNat_toNat, BitVec.setWidth_eq]

section
variable {d : X86Ctx} (hd : d = (Move.extractvalue desc op0).compiled host c)
include hd

theorem extract_statics : d.frame.staticAllocaOffsets = c.frame.staticAllocaOffsets := by
  have happ : Appends (target (fun _ => 0) (others desc) false) (emitExtractvalue host desc op0) :=
    appends_emitExtractvalue (by simp [others])
  rw [hd]
  exact (happ.step c).1.statics

variable {τ : State} (hτ : τ = (Move.extractvalue desc op0).after host address c σ)
  (h : (Move.extractvalue desc op0).WellFormed host c)
include hτ h

/-- What the code of EXTRACTVALUE leaves in the slot for a field of a vreg. -/
theorem extract_fills {v : Nat}
    (hv : op0.value = .vreg v) (hpath : fieldPath desc op0.type = some (off, leaf))
    (hapart : (Move.extractvalue desc op0).Apart host address d σ) :
    Fills d σ τ desc.dest (sizeOr8 (lrTypeSize leaf)).toNat
      (loadedByte σ.mem (valuePlace d σ (typeSize op0.type).toNat v + off)
        (sizeOr8 (lrTypeSize leaf)).toNat) := by
  obtain ⟨hagg, hfield, hresult⟩ := h
  obtain ⟨hat, hin⟩ := field_inside hfield hpath
  obtain ⟨-, -, hstatic⟩ := hagg.vreg v hv
  have hsize : (Move.extractvalue desc op0).size = (lrTypeSize leaf).toNat := by
    rw [Move.size, hat]
  have hbound := hfield.small
  have hwide := toNat_sizeOr8 (lrTypeSize leaf)
  have hsound : Sound (0 + 16 + max (sizeOr8 (lrTypeSize leaf)).toNat 8 +
      max (resultAlign desc).toNat 8) c := by
    apply hresult.sound.less
    rw [hwide, hsize]
    split <;> omega
  have hroom : off.toNat + (sizeOr8 (lrTypeSize leaf)).toNat < 2 ^ 31 := by
    rw [hwide]
    split <;> omega
  have hstatics := extract_statics hd
  subst hd hτ
  have hcode : Emits (target address (others desc) false) _ (emitExtractvalue host desc op0)
      c σ _ := emits_extractField hv hpath (others_op (hresult.fresh op0 (by simp)) v hv)
        (by simp [others]) rfl hsound hstatic hstatics hroom
  apply hcode.after fun _ _ _ => rfl
  intro hlong
  rcases sizeOr8_or (lrTypeSize leaf) with hsame | ⟨-, hsame⟩
  · rw [hsame] at hlong ⊢
    have hbytes := hapart (by rw [hsize]; exact hlong) v hv
    rw [valuePlace, if_neg (by omega)]
    intro i hi j hj
    rw [← ofNat_toNat_size off, add_ofNat_add]
    exact hbytes _ (by omega) j (by omega)
  · omega

/-- A field of the number 0 is a word. -/
theorem extract_word (hop : op0.value = .immI64 0) (hag : Agrees c d σ) :
    τ.reg x86Rbp = σ.reg x86Rbp ∧ τ.mem = store σ.mem (slotPlace d σ desc.dest) 8 0 := by
  obtain ⟨-, -, hresult⟩ := h
  have hplain : IsPlain host op0 := by
    refine ⟨?_, fun hadds => ?_⟩
    · rw [IsOperand, hop]
      trivial
    · obtain ⟨-, -, id, hid, -⟩ := hadds.1
      rw [hop] at hid
      cases hid
  have hroom : Room 1 c := room_of_sound hresult.sound (by omega)
  have hword : Holds host address d.frame.slot (others desc) 1 c σ op0 _ :=
    holds_plain hplain (others_op (hresult.fresh op0 (by simp))) (extract_statics hd) hag hroom
  have hvalue : operandWord host address d σ op0 = 0 := by
    simp [operandWord, constant, hop]
  rw [hvalue] at hword
  subst hd hτ
  have hcode : Emits (target address (others desc) false) _ (emitExtractvalue host desc op0)
      c σ _ := emits_extractOther (by simp [hop]) (by simp [hop]) (by simp [hop]) hword
  exact hcode.after fun _ _ _ => rfl

/-- A field of a constant is a word of zeros, or for a null or undefined operand the bytes. -/
theorem extract_zero (hzero : IsZero op0) (hpath : fieldPath desc op0.type = some (off, leaf))
    (hshort : op0.value = .immI64 0 → (lrTypeSize leaf).toNat ≤ 8) (hag : Agrees c d σ) :
    Fills d σ τ desc.dest (sizeOr8 (lrTypeSize leaf)).toNat fun _ => 0 := by
  have ⟨_, hfield, hresult⟩ := h
  obtain ⟨hat, hin⟩ := field_inside hfield hpath
  have hsize : (Move.extractvalue desc op0).size = (lrTypeSize leaf).toNat := by
    rw [Move.size, hat]
  have hwide := toNat_sizeOr8 (lrTypeSize leaf)
  have hnull : op0.value = .undef ∨ op0.value = .null →
      Fills d σ τ desc.dest (sizeOr8 (lrTypeSize leaf)).toNat fun _ => 0 := by
    intro hop
    have hsound : Sound (0 + max (sizeOr8 (lrTypeSize leaf)).toNat 8 +
        max (resultAlign desc).toNat 8) c := by
      apply hresult.sound.less
      rw [hwide, hsize]
      split <;> omega
    subst hd hτ
    have hcode : Emits (target address (others desc) false)
        (Fits ((Move.extractvalue desc op0).compiled host c).frame.slot (others desc))
        (emitExtractvalue host desc op0) c σ _ :=
      emits_extractZero hop (by simp [others]) (by rw [hpath]; rfl) hsound
    exact hcode.after fun _ _ _ => rfl
  rcases hzero with hop | hop | hop
  · exact hnull (.inr hop)
  · exact hnull (.inl hop)
  · obtain ⟨hbase, hmem⟩ := extract_word hd hτ h hop hag
    apply fills_of_store _ hbase hmem fun i _ => by simp
    rw [hwide]
    split
    · omega
    · exact hshort hop

end

theorem extract_exact (h : (Move.extractvalue desc op0).WellFormed host c)
    (hwidth : (Move.extractvalue desc op0).HasWidth) :
    (Move.extractvalue desc op0).Exact host address c := by
  obtain ⟨⟨off, leaf⟩, hpath⟩ := Option.isSome_iff_exists.1 h.2.1.path
  obtain ⟨hat, hin⟩ := field_inside h.2.1 hpath
  have hsize : (Move.extractvalue desc op0).size = (lrTypeSize leaf).toNat := by
    rw [Move.size, hat]
  obtain ⟨d, hd⟩ : ∃ d, d = (Move.extractvalue desc op0).compiled host c := ⟨_, rfl⟩
  have hdest : d.frame.lookupStaticAllocaOffset desc.dest = 0 :=
    (lookup_congr (extract_statics hd) _).trans h.2.2.plain
  have hfills : ∀ σ, Agrees c d σ → (Move.extractvalue desc op0).Apart host address d σ →
      ∃ f, Fills d σ ((Move.extractvalue desc op0).after host address c σ) desc.dest
        (sizeOr8 (lrTypeSize leaf)).toNat f ∧ ∀ i < (lrTypeSize leaf).toNat,
          f i = (Move.extractvalue desc op0).given host address d σ i := by
    intro σ hag hapart
    rcases h.1.value with hzero | ⟨v, hv⟩
    · refine ⟨_, extract_zero hd rfl h hzero hpath (fun himm => ?_) hag, fun i _ => ?_⟩
      · simp only [Move.HasWidth, himm] at hwidth
        rwa [hsize] at hwidth
      · exact (operandByte_zero hzero).symm
    · refine ⟨_, extract_fills hd rfl h hv hpath hapart, fun i hi => ?_⟩
      simp only [Move.HasWidth, hv] at hwidth
      rw [hsize] at hwidth
      have hstatic := (h.1.vreg v hv).2.2
      have hbyte : (Move.extractvalue desc op0).given host address d σ i =
          vregByte d σ (typeSize op0.type).toNat v (off.toNat + i) := by
        rw [Move.given, operandByte, hv, hat]
      rw [hbyte, vregByte_place (fun _ => ?_) (by omega), ← add_ofNat_add, ofNat_toNat_size]
      · rcases sizeOr8_or (lrTypeSize leaf) with hsame | ⟨hzero, -⟩
        · rw [hsame]
          exact loadedByte_width hwidth hi ..
        · omega
      · exact (lookup_congr (extract_statics hd) _).trans hstatic
  subst hd
  constructor
  · intro σ hag hapart i hi
    obtain ⟨f, hf, hgiven⟩ := hfills σ hag hapart
    rw [hsize] at hi
    rw [← hgiven i hi, Move.found, hsize]
    exact found_of_fills hf hdest hi
  · intro σ hag hapart b hb
    obtain ⟨f, hf, -⟩ := hfills σ hag hapart
    simp only [Move.room, hsize] at hb
    exact frame_of_fills hf hb

variable {d : X86Ctx} {n : Nat}

theorem storedByte_operand {op : LrOperand}
    (hop : IsZero op ∨ ∃ v, op.value = .vreg v)
    (hstatic : n ≤ 8 → ∀ v, op.value = .vreg v → d.frame.lookupStaticAllocaOffset v = 0)
    (hi : n ≤ 8 → i < 8) : storedByte d σ n op i = operandByte host address d σ n op i := by
  rcases hop with hzero | ⟨v, hv⟩
  · rw [operandByte_zero hzero, storedByte]
    split
    · next v hv => rcases hzero with h | h | h <;> rw [hv] at h <;> cases h
    · rfl
  · rw [storedByte, operandByte, hv]
    exact (vregByte_place (fun hshort => hstatic hshort v hv) hi).symm

/-- The allocation of the result leaves the room that other vregs have. -/
theorem hasRoom_result {size align : SizeT} {v : Nat} (hne : v ≠ desc.dest)
    (h : HasRoom c.frame n v) : HasRoom (slotOf desc.dest size align c).2.frame n v := by
  have hslot : (slotOf desc.dest size align c).2.frame.slot v = c.frame.slot v := frame_slot_ne hne
  have hsame : (slotOf desc.dest size align c).2.frame.staticAllocaOffsets =
      c.frame.staticAllocaOffsets := statics_allocSlot ..
  unfold HasRoom at h ⊢
  rwa [lookup_congr hsame, X86Frame.vregSlotSize, hslot]

/-- The slot of the result is allocated first. -/
theorem insert_run (hpath : fieldPath desc desc.type = some (off, leaf)) {size : SizeT}
    (hsize : size = atLeast8 (desc.type.elim 8 lrTypeSize)) :
    emitInsertvalue host desc op0 op1 c = (do
      emitInsertBase host op0
        ((slotOf desc.dest size (resultAlign desc) c).2.frame.slot desc.dest).off size
      emitInsertField host op1
        (((slotOf desc.dest size (resultAlign desc) c).2.frame.slot desc.dest).off +
          off.setWidth 32) (lrTypeSize leaf))
      (slotOf desc.dest size (resultAlign desc) c).2 := by
  have hpath' : (desc.type.bind fun type => lrAggregateIndexPath type (instIndices desc)) =
      some (off, leaf) := hpath
  rw [← slotOf_fst, hsize]
  unfold emitInsertvalue
  simp only [hpath']
  rfl

section
variable (hd : d = (Move.insertvalue desc op0 op1).compiled host c)
include hd

theorem insert_statics : d.frame.staticAllocaOffsets = c.frame.staticAllocaOffsets := by
  have happ : Appends (target (fun _ => 0) (others desc) false)
      (emitInsertvalue host desc op0 op1) := by
    have hslot : ∀ size, SlotSize (others desc) desc.dest size :=
      slotSize_of_false (by simp [others])
    unfold emitInsertvalue
    rcases desc.type.bind fun type => lrAggregateIndexPath type (instIndices desc) with
      _ | ⟨fieldOff, fieldTy⟩
    · exact Appends.bind
    · exact Appends.bind
  rw [hd]
  exact (happ.step c).1.statics

/-- What the code of INSERTVALUE leaves in the slot. -/
theorem insert_fills (h : (Move.insertvalue desc op0 op1).WellFormed host c)
    (hwidth : (Move.insertvalue desc op0 op1).HasWidth)
    (hpath : fieldPath desc desc.type = some (off, leaf)) (hag : Agrees c d σ)
    (hapart : (Move.insertvalue desc op0 op1).Apart host address d σ) :
    Fills d σ ((Move.insertvalue desc op0 op1).after host address c σ) desc.dest
      (Move.insertvalue desc op0 op1).size
      (insertedByte d σ (operandWord host address d σ op1) op0 op1
        (max (Move.insertvalue desc op0 op1).size 8) off.toNat (lrTypeSize leaf).toNat) := by
  obtain ⟨hagg, hfield, hvalue, hresult⟩ := h
  obtain ⟨hat, hin⟩ := field_inside hfield hpath
  obtain ⟨⟨t, ht, -⟩, -, hsmall⟩ := hfield
  have hsize : (Move.insertvalue desc op0 op1).size = (typeSize desc.type).toNat := rfl
  have hlarge : (atLeast8 (desc.type.elim 8 lrTypeSize)).toNat =
      max (Move.insertvalue desc op0 op1).size 8 := by
    rw [FrameSlots.toNat_atLeast8, hsize, typeSize, ht]
    rfl
  have hopen : emitInsertvalue host desc op0 op1 c = _ := insert_run hpath rfl
  generalize atLeast8 (desc.type.elim 8 lrTypeSize) = size at hlarge hopen
  have hspare : Sound (0 + 64 + max size.toNat 8 + max (resultAlign desc).toNat 8) c := by
    apply hresult.sound.less
    omega
  obtain ⟨hsound, hdown, hslotted, hroom⟩ := sound_slotOf desc.dest hspare
  have hstatics : (slotOf desc.dest size (resultAlign desc) c).2.frame.staticAllocaOffsets =
      c.frame.staticAllocaOffsets := statics_allocSlot ..
  have hkept : ∀ {op n v}, op ∈ [op0, op1] → op.value = .vreg v → HasRoom c.frame n v →
      HasRoom (slotOf desc.dest size (resultAlign desc) c).2.frame n v := by
    intro op n v hop hv
    apply hasRoom_result
    rintro rfl
    exact hresult.fresh op hop hv
  have hcode : (slotOf desc.dest size (resultAlign desc) c).2.code = c.code := rfl
  have htags : Agrees (slotOf desc.dest size (resultAlign desc) c).2 d σ := ⟨hag.rax, hag.rcx⟩
  generalize (slotOf desc.dest size (resultAlign desc) c).2 = c₁ at *
  have hcompiled : d = _ := hd.trans (congrArg Prod.snd hopen)
  have happ : Appends (target address (fun _ => true) false) (do
      emitInsertBase host op0 (c₁.frame.slot desc.dest).off size
      emitInsertField host op1 ((c₁.frame.slot desc.dest).off + off.setWidth 32)
        (lrTypeSize leaf)) := Appends.bind
  have hgrows := (happ.step c₁).1
  rw [← hcompiled] at hgrows
  have hword : Holds host address d.frame.slot (fun _ => true) 2 c₁ σ op1 _ :=
    holds_plain hvalue.toIsPlain (fun _ _ => rfl) hgrows.statics htags
      (room_of_sound hsound (by omega))
  have hbase : IsZero op0 ∨ ∃ v, op0.value = .vreg v ∧ HasRoom c₁.frame size.toNat v ∧
      c₁.frame.lookupStaticAllocaOffset v = 0 := by
    refine hagg.value.imp_right fun ⟨v, hv⟩ => ?_
    obtain ⟨-, hfits, hstatic⟩ := hagg.vreg v hv
    rw [hlarge]
    exact ⟨v, hv, hkept (by simp) hv hfits, (lookup_congr hstatics v).trans hstatic⟩
  have hlong : 8 < (lrTypeSize leaf).toNat → IsZero op1 ∨ ∃ v, op1.value = .vreg v ∧
      HasRoom c₁.frame (lrTypeSize leaf).toNat v := by
    intro hlong
    rw [hat] at hvalue
    refine (hvalue.long hlong).imp_right fun ⟨v, hv⟩ => ⟨v, hv, ?_⟩
    exact hkept (by simp) hv (hvalue.room v hv)
  have hfits : IsWidth (lrTypeSize leaf).toNat := by
    simpa only [Move.HasWidth, hat] using hwidth
  have hstored : (lrTypeSize leaf).toNat ≤ 8 → (lrTypeSize leaf).toNat = 0 ∨
      storeWidth (lrTypeSize leaf).toNat = (lrTypeSize leaf).toNat := by
    intro hshort
    by_cases hzero : (lrTypeSize leaf).toNat = 0
    · exact .inl hzero
    · exact .inr (storeWidth_width hfits hzero hshort)
  have hplaces : InsertApart d σ op0 op1 size.toNat (lrTypeSize leaf).toNat
      (slotPlace d σ desc.dest) := by
    rw [hlarge]
    simpa only [Move.Apart, hat] using hapart
  have hinside : off.toNat + (lrTypeSize leaf).toNat ≤ size.toNat := by omega
  have hrest : Emits (target address (fun _ => true) false) _ _ c₁ σ _ :=
    emits_insertRest hslotted hdown hsound hbase (by omega) (by omega) hinside hword hstored
      hlong hgrows.statics hplaces
  obtain ⟨hreg, hwrote⟩ := hrest.after (by rw [← hcompiled]; exact fun _ _ _ => rfl)
  have hafter : (target address (fun _ => true) false).run
      ((target address (fun _ => true) false).newCode c₁ d) σ =
      (Move.insertvalue desc op0 op1).after host address c σ := by
    rw [Generator.newCode, Move.after, ← hcode, hd]
    rfl
  rw [← hcompiled, hafter] at hreg hwrote
  rw [hlarge] at hwrote
  refine ⟨hreg, .inr ?_, hwrote⟩
  have hslot := hgrows.slot rfl hslotted
  rw [hslot]
  omega

end

theorem storedByte_max {op : LrOperand} :
    storedByte d σ (max n 8) op i = storedByte d σ n op i := by
  unfold storedByte
  simp only [valuePlace_max]

/-- The bytes that are left are those of the field in the aggregate. -/
theorem insertedByte_given (h : (Move.insertvalue desc op0 op1).WellFormed host c)
    (hpath : fieldPath desc desc.type = some (off, leaf))
    (hstatics : d.frame.staticAllocaOffsets = c.frame.staticAllocaOffsets)
    (hi : i < (Move.insertvalue desc op0 op1).size) :
    insertedByte d σ (operandWord host address d σ op1) op0 op1
        (max (Move.insertvalue desc op0 op1).size 8) off.toNat (lrTypeSize leaf).toNat i =
      (Move.insertvalue desc op0 op1).given host address d σ i := by
  obtain ⟨hagg, -, hvalue, -⟩ := h
  have hat : fieldAt desc desc.type = (off.toNat, (lrTypeSize leaf).toNat) := by
    rw [fieldAt, hpath]
    rfl
  rw [hat] at hvalue
  simp only [insertedByte, Move.given, hat]
  split
  · unfold fieldByte
    split
    · next hshort => exact (operandByte_word hshort op1 _).symm
    · next hlong =>
      have hbig : 8 < (lrTypeSize leaf).toNat := Nat.not_le.1 hlong
      exact storedByte_operand (hvalue.long hbig) (fun hshort => absurd hshort hlong)
        (fun hshort => absurd hshort hlong)
  · rw [storedByte_max]
    apply storedByte_operand hagg.value
    · intro _ v hv
      exact (lookup_congr hstatics v).trans (hagg.vreg v hv).2.2
    · intro hshort
      exact lt_of_lt_of_le hi hshort

theorem insert_exact (h : (Move.insertvalue desc op0 op1).WellFormed host c)
    (hwidth : (Move.insertvalue desc op0 op1).HasWidth) :
    (Move.insertvalue desc op0 op1).Exact host address c := by
  obtain ⟨⟨off, leaf⟩, hpath⟩ := Option.isSome_iff_exists.1 h.2.1.path
  obtain ⟨d, hd⟩ : ∃ d, d = (Move.insertvalue desc op0 op1).compiled host c := ⟨_, rfl⟩
  have hstatics := insert_statics hd
  have hdest := (lookup_congr hstatics desc.dest).trans h.2.2.2.plain
  subst hd
  constructor
  · intro σ hag hapart i hi
    have hfills := insert_fills rfl h hwidth hpath hag hapart
    exact (hfills.vregByte hdest hi).trans (insertedByte_given h hpath hstatics hi)
  · intro σ hag hapart b hb
    exact (insert_fills rfl h hwidth hpath hag hapart).wrote.frame b hb

end Exact

end Liric.Guarantees.AggregateMoves
