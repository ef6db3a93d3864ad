import Liric.Guarantees.X8664Code

/-!
# Values in x86_64 code

Where a vreg has its bytes: a value of at most eight bytes is the word that a load of the
operand gives, a longer one is in memory.
-/
namespace Liric.Guarantees.X8664Values
open Source.Ir Source.X8664 Lib Lib.X64
open Lib.A64 (load store)
open X8664Code

/-- The word of an operand. Vregs are found in the slots of `c`. -/
def operandWord (host : X86Host) (address : RelocRef → BitVec 64) (c : X86Ctx) (σ : State)
    (op : LrOperand) : BitVec 64 :=
  match op.value with
  | .vreg v => freshValue c c.frame.slot σ v
  | _ => (constant host address op.globalOffset op).getD 0

/-- Where a value of more than eight bytes is: in a static alloca, where the slot points if it
has only room for a pointer, or in the slot. -/
def dataPlace (c : X86Ctx) (σ : State) (vreg : Nat) : BitVec 64 :=
  if c.frame.lookupStaticAllocaOffset vreg ≠ 0 ∨ c.frame.vregSlotSize vreg = 8 then
    freshValue c c.frame.slot σ vreg
  else place σ x86Rbp (c.frame.slot vreg).off

/-- A byte of a vreg of `n` bytes. -/
def vregByte (c : X86Ctx) (σ : State) (n vreg i : Nat) : BitVec 8 :=
  if n ≤ 8 then (freshValue c c.frame.slot σ vreg).extractLsb' (8 * i) 8
  else σ.mem (dataPlace c σ vreg + BitVec.ofNat 64 i)

/-- A byte of an operand of `n` bytes; above a constant there are zeros. -/
def operandByte (host : X86Host) (address : RelocRef → BitVec 64) (c : X86Ctx) (σ : State)
    (n : Nat) (op : LrOperand) (i : Nat) : BitVec 8 :=
  match op.value with
  | .vreg v => vregByte c σ n v i
  | _ => (operandWord host address c σ op).extractLsb' (8 * i) 8

/-- A register that the target believes to hold a value holds it. -/
structure Agrees (c slots : X86Ctx) (σ : State) : Prop where
  rax : ∀ v, v < uint32Max → c.raxHoldsVreg = v →
    σ.reg x86Rax = freshValue slots slots.frame.slot σ v
  rcx : ∀ v, v < uint32Max → c.rcxHoldsVreg = v →
    σ.reg x86Rcx = freshValue slots slots.frame.slot σ v

/-- An operand of a SELECT: a vreg, a constant, or in JIT or object mode a global. -/
def IsOperand (host : X86Host) (op : LrOperand) : Prop :=
  match op.value with
  | .vreg v => v < uint32Max
  | .global _ => host.jit = true ∨ host.obj = true
  | .block _ => False
  | _ => True

section Values
variable {host : X86Host} {address : RelocRef → BitVec 64} {n : Nat} {c : X86Ctx} {σ : State}

/-- The word that is loaded for an operand. -/
def loadedWord (host : X86Host) (address : RelocRef → BitVec 64) (c : X86Ctx) (σ : State)
    (op : LrOperand) : BitVec 64 :=
  match op.value with
  | .vreg v => freshValue c c.frame.slot σ v
  | _ => (constant host address (addend op.globalOffset) op).getD 0

/-- What is added to an address matters for the globals that have one in object mode. -/
theorem constant_cases (host : X86Host) (address : RelocRef → BitVec 64) (op : LrOperand) :
    (∀ x y, constant host address x op = constant host address y op) ∨
      (host.obj = true ∧
        (∃ id, op.value = .global id ∧ (lrModuleSymbolName host.mod.symbols id).isSome) ∧
        ∃ a, ∀ x, constant host address x op = some (a + x)) := by
  cases hcase : op.value with
  | immI64 | immF64 | vreg | block | null | undef =>
    left
    intro x y
    rw [constant, constant, hcase]
  | global id =>
    by_cases hjit : (host.jit && !host.obj) = true
    · left
      intro x y
      rw [constant, constant, hcase]
      simp only [if_pos hjit]
    · by_cases hobj : host.obj = true
      · cases hname : lrModuleSymbolName host.mod.symbols id with
        | none =>
          left
          intro x y
          rw [constant, constant, hcase]
          simp [hobj, hname]
        | some symName =>
          right
          refine ⟨hobj, ⟨id, rfl, by rw [hname]; rfl⟩,
            address ⟨host.remap symName, addressReloc host id symName⟩, fun x => ?_⟩
          rw [constant, hcase]
          simp [hobj, hname]
      · left
        intro x y
        rw [constant, constant, hcase]
        simp only [if_neg hjit, if_neg hobj]

variable {op : LrOperand}

/-- Words are loaded as they are unless a constant is added in code. -/
theorem loadedWord_eq (h : ¬ Adds host op) :
    loadedWord host address c σ op = operandWord host address c σ op := by
  unfold loadedWord operandWord
  split
  · rfl
  · by_cases hzero : op.globalOffset = 0
    · rw [hzero]
      rfl
    · rcases constant_cases host address op with hsame | ⟨hobj, hid, -⟩
      · rw [hsame]
      · exact absurd ⟨hobj, hzero, hid⟩ h

/-- The low byte of a word, which a condition is, is always as it should be. -/
theorem loadedWord_byte (op : LrOperand) :
    (loadedWord host address c σ op).setWidth 8 = (operandWord host address c σ op).setWidth 8 := by
  unfold loadedWord operandWord
  split
  · rfl
  · rcases constant_cases host address op with hsame | ⟨-, -, a, hvalue⟩
    · rw [hsame]
    · rw [hvalue, hvalue, Option.getD_some, Option.getD_some,
        BitVec.setWidth_add _ _ (by decide), BitVec.setWidth_add _ _ (by decide), addend_byte]

theorem operandByte_word (hn : n ≤ 8) (op : LrOperand) (i : Nat) :
    operandByte host address c σ n op i =
      (operandWord host address c σ op).extractLsb' (8 * i) 8 := by
  unfold operandByte
  split
  · next v hv => rw [vregByte, if_pos hn, operandWord, hv]
  · rfl

/-- An offset other than the least 32-bit number is added as it is. -/
theorem loadedWord_exact (h : ¬ (Adds host op ∧ op.globalOffset = -2 ^ 31)) :
    loadedWord host address c σ op = operandWord host address c σ op := by
  by_cases hadds : Adds host op
  · have hne : op.globalOffset ≠ -2 ^ 31 := fun heq => h ⟨hadds, heq⟩
    unfold loadedWord operandWord
    split
    · rfl
    · rw [addend_of_ne hne]
  · exact loadedWord_eq hadds

variable {keep : Nat → Bool}

/-- Operands are where the code finds them if there is room in the frame. -/
theorem holds_of_isOperand {d : X86Ctx}
    (hop : IsOperand host op) (hkeep : ∀ v, op.value = .vreg v → keep v = true)
    (hstatics : d.frame.staticAllocaOffsets = c.frame.staticAllocaOffsets)
    (hag : Agrees c d σ) (hroom : Room n c) :
    Holds host address d.frame.slot keep n c σ op (loadedWord host address d σ op) := by
  have hconst : (∀ v, op.value ≠ .vreg v) →
      (constant host address (addend op.globalOffset) op).isSome →
      Holds host address d.frame.slot keep n c σ op (loadedWord host address d σ op) := by
    intro hno hsome
    obtain ⟨a, ha⟩ := Option.isSome_iff_exists.1 hsome
    have hword : loadedWord host address d σ op = a := by
      unfold loadedWord
      split
      · next v hv => exact absurd hv (hno v)
      · rw [ha, Option.getD_some]
    unfold X8664Code.Holds
    split
    · next v hv => exact absurd hv (hno v)
    · rw [ha, hword]
  cases hcase : op.value with
  | vreg v =>
    rw [IsOperand, hcase] at hop
    rw [X8664Code.Holds, loadedWord, hcase]
    change VregHolds d.frame.slot keep n c σ v (freshValue d d.frame.slot σ v)
    refine ⟨hop, hkeep v hcase, .inr hroom, hag.rax v hop, hag.rcx v hop, ?_⟩
    exact freshValue_congr hstatics.symm rfl rfl v
  | block b =>
    rw [IsOperand, hcase] at hop
    cases hop
  | immI64 | immF64 | null | undef =>
    apply hconst (by simp [hcase])
    rw [constant, hcase]
    rfl
  | global id =>
    rw [IsOperand, hcase] at hop
    apply hconst (by simp [hcase])
    rw [constant, hcase]
    by_cases hobj : host.obj = true
    · simp [hobj]
    · have hjit : host.jit = true := by simpa [hobj] using hop
      simp [hobj, hjit]

theorem vregSlotSize_grows {d : X86Ctx} (h : Grows keep c d) {v : Nat}
    (hkeep : keep v = true) (hv : c.frame.vregSlotSize v = 8) : d.frame.vregSlotSize v = 8 := by
  rcases h.slots v hkeep with hslot | ⟨-, hsize⟩
  · rw [X86Frame.vregSlotSize, hslot]
    exact hv
  · rw [X86Frame.vregSlotSize, hsize]
    rfl

end Values

end Liric.Guarantees.X8664Values
