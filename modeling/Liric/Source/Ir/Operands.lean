import Liric.Source.Ir.Types

/-!
# Operands and the index steps of an address

Source: src/ir.h:43-63 (`lr_operand_t`), src/ir.c:923-960 (`lr_op_*`), 1735-1799
(`lr_gep_index_signext_bytes`, `lr_gep_analyze_step`).

The kind of an operand and the member of its union are one constructor. Floating
point immediates are kept as their 64 bits. `int64_t` is 64 bits and wraps.
-/
namespace Liric.Source.Ir

inductive OperandValue where
  | vreg (id : Nat)
  | immI64 (val : BitVec 64)
  | immF64 (bits : BitVec 64)
  | block (id : Nat)
  | global (id : Nat)
  | null
  | undef
  deriving DecidableEq

structure LrOperand where
  value : OperandValue
  type : Option LrType
  globalOffset : BitVec 64 := 0
  deriving DecidableEq

def LrType.isI1 : LrType → Bool
  | .scalar _ .i1 => true
  | _ => false

def lrOpVreg (vreg : Nat) (type : Option LrType) : LrOperand := ⟨.vreg vreg, type, 0⟩

/-- Immediates of type `i1` are stored as 0 or 1. -/
def lrOpImmI64 (val : BitVec 64) (type : Option LrType) : LrOperand :=
  let val := if type.any LrType.isI1 then (if val ≠ 0 then 1 else 0) else val
  ⟨.immI64 val, type, 0⟩

def lrOpImmF64 (bits : BitVec 64) (type : Option LrType) : LrOperand := ⟨.immF64 bits, type, 0⟩
def lrOpBlock (id : Nat) : LrOperand := ⟨.block id, none, 0⟩
def lrOpGlobal (id : Nat) (type : Option LrType) : LrOperand := ⟨.global id, type, 0⟩
def lrOpNull (type : Option LrType) : LrOperand := ⟨.null, type, 0⟩
def lrOpUndef (type : Option LrType) : LrOperand := ⟨.undef, type, 0⟩

/-- `(uint32_t)op->vreg` of an operand of any kind: the low half of the union. -/
def OperandValue.low32 : OperandValue → BitVec 32
  | .vreg id | .block id | .global id => BitVec.ofNat 32 id
  | .immI64 val => val.setWidth 32
  | .immF64 bits => bits.setWidth 32
  | .null | .undef => 0

/-- `lr_gep_step_t`. -/
structure GepStep where
  isConst : Bool := false
  constByteOffset : BitVec 64 := 0
  runtimeElemSize : SizeT := 0
  runtimeSignextBytes : Nat := 0
  nextType : LrType
  deriving DecidableEq

def lrGepIndexSignextBytes (idxOp : LrOperand) : Nat :=
  match idxOp.type with
  | some (.scalar _ .i1) | some (.scalar _ .i8) => 1
  | some (.scalar _ .i16) => 2
  | some (.scalar _ .i32) => 4
  | _ => 0

/-- An index that is multiplied by an element size, at compile time if it is a
constant. -/
def scaledStep (elem next : LrType) (idxOp : LrOperand) : GepStep :=
  match idxOp.value with
  | .immI64 val =>
    { isConst := true, constByteOffset := val * lrTypeSize elem, nextType := next }
  | _ =>
    { runtimeElemSize := lrTypeSize elem
      runtimeSignextBytes := lrGepIndexSignextBytes idxOp
      nextType := next }

/-- `none` is the return value `false`. -/
def lrGepAnalyzeStep (curTy : LrType) (firstIndex : Bool) (idxOp : LrOperand) : Option GepStep :=
  if firstIndex then some (scaledStep curTy curTy idxOp)
  else
    match curTy with
    | .struct _ fields _ _ =>
      let field := idxOp.value.low32.toNat
      some {
        isConst := true
        constByteOffset := lrStructFieldOffset curTy field
        nextType := fields[field]?.getD curTy }
    | .array _ elem _ | .vector _ elem _ => some (scaledStep elem elem idxOp)
    | .scalar .. | .ptr .. | .func .. => none

end Liric.Source.Ir
