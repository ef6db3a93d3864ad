import Liric.Source.Ir.Module

/-!
# Local rewrites of the peephole pass

Source: src/ir.c:269-342 (`int_type_width_bits` to `operand_equal`), 397-615
(`fold_int_binop_immediates` to `try_inst_replacement`).

`uint64_t` and `int64_t` are 64 bits and wrap; `/` and `%` of `int64_t` round toward zero
and `>>` keeps the sign. The result `none` is the return value `false`.
-/
namespace Liric.Source.Ir

def intTypeWidthBits : Option LrType → Nat
  | some (.scalar _ .i1) => 1
  | some (.scalar _ .i8) => 8
  | some (.scalar _ .i16) => 16
  | some (.scalar _ .i32) => 32
  | some (.scalar _ .i64) => 64
  | none => 64
  | some type =>
    let fallbackBits := lrTypeSize type * 8
    if fallbackBits = 0 ∨ fallbackBits > 64 then 64 else fallbackBits.toNat

def intMaskForBits (bits : Nat) : BitVec 64 :=
  if bits ≥ 64 then -1 else if bits = 0 then 0 else (1#64 <<< bits) - 1

def intToUnsignedBits (val : BitVec 64) (bits : Nat) : BitVec 64 := val &&& intMaskForBits bits

def intSignExtendBits (val : BitVec 64) (bits : Nat) : BitVec 64 :=
  if bits ≥ 64 then val
  else if bits = 0 then 0
  else
    let sign := 1#64 <<< (bits - 1)
    let v := val &&& intMaskForBits bits
    (v ^^^ sign) - sign

def operandEqual (a b : LrOperand) : Bool :=
  if a.type ≠ b.type ∨ a.globalOffset ≠ b.globalOffset then false
  else
    match a.value, b.value with
    | .vreg x, .vreg y | .block x, .block y | .global x, .global y => x == y
    | .immI64 x, .immI64 y | .immF64 x, .immF64 y => x == y
    | .null, .null | .undef, .undef => true
    | _, _ => false

/-- The switch of `fold_int_binop_immediates`, on `imm_i64` of both operands. -/
def foldIntWords (op : Opcode) (bits : Nat) (lhs rhs : BitVec 64) : Option (BitVec 64) :=
  let mask := intMaskForBits bits
  let uLhs := intToUnsignedBits lhs bits
  let uRhs := intToUnsignedBits rhs bits
  let sLhs := intSignExtendBits uLhs bits
  let sRhs := intSignExtendBits uRhs bits
  match op with
  | .add => some ((uLhs + uRhs) &&& mask)
  | .sub => some ((uLhs - uRhs) &&& mask)
  | .mul => some ((uLhs * uRhs) &&& mask)
  | .and => some ((uLhs &&& uRhs) &&& mask)
  | .or => some ((uLhs ||| uRhs) &&& mask)
  | .xor => some ((uLhs ^^^ uRhs) &&& mask)
  | .shl => if uRhs.toNat ≥ bits then none else some ((uLhs <<< uRhs.toNat) &&& mask)
  | .lshr => if uRhs.toNat ≥ bits then none else some ((uLhs >>> uRhs.toNat) &&& mask)
  | .ashr => if uRhs.toNat ≥ bits then none else some (sLhs.sshiftRight uRhs.toNat &&& mask)
  | .sdiv =>
    if sRhs = 0 then none
    else if bits = 64 ∧ sLhs = BitVec.intMin 64 ∧ sRhs = -1 then none
    else some (sLhs.sdiv sRhs &&& mask)
  | .srem =>
    if sRhs = 0 then none
    else if bits = 64 ∧ sLhs = BitVec.intMin 64 ∧ sRhs = -1 then none
    else some (sLhs.srem sRhs &&& mask)
  | .udiv => if uRhs = 0 then none else some ((uLhs / uRhs) &&& mask)
  | .urem => if uRhs = 0 then none else some ((uLhs % uRhs) &&& mask)
  | _ => none

def foldIntBinopImmediates (inst : LrInst) : Option LrOperand :=
  match inst.operands with
  | ⟨.immI64 lhs, _, _⟩ :: ⟨.immI64 rhs, _, _⟩ :: _ =>
    let bits := intTypeWidthBits inst.type
    (foldIntWords inst.op bits lhs rhs).map fun uRes =>
      lrOpImmI64 (intSignExtendBits uRes bits) inst.type
  | _ => none

/-- The switch of `fold_icmp_immediates`. -/
def foldIcmpWords (pred : IcmpPred) (bits : Nat) (lhs rhs : BitVec 64) : Bool :=
  let uLhs := intToUnsignedBits lhs bits
  let uRhs := intToUnsignedBits rhs bits
  let sLhs := intSignExtendBits uLhs bits
  let sRhs := intSignExtendBits uRhs bits
  match pred with
  | .eq => uLhs == uRhs
  | .ne => uLhs != uRhs
  | .sgt => sRhs.slt sLhs
  | .sge => sRhs.sle sLhs
  | .slt => sLhs.slt sRhs
  | .sle => sLhs.sle sRhs
  | .ugt => uRhs.ult uLhs
  | .uge => uRhs.ule uLhs
  | .ult => uLhs.ult uRhs
  | .ule => uLhs.ule uRhs

def foldIcmpImmediates (inst : LrInst) : Option LrOperand :=
  if inst.op ≠ .icmp then none
  else
    match inst.operands, inst.payload with
    | ⟨.immI64 lhs, lhsType, _⟩ :: ⟨.immI64 rhs, _, _⟩ :: _, .icmpPred pred =>
      let cmpTy := if lhsType.isSome then lhsType else inst.type
      some (lrOpImmI64 (if foldIcmpWords pred (intTypeWidthBits cmpTy) lhs rhs then 1 else 0)
        inst.type)
    | _, _ => none

def LrOperand.isImm (o : LrOperand) (holds : BitVec 64 → Bool) : Bool :=
  match o.value with
  | .immI64 val => holds val
  | _ => false

/-- One test of `fold_identity_int_binop` on either operand, the left one first. -/
def foldEither (holds : BitVec 64 → Bool) (lhs rhs : LrOperand) : Option LrOperand :=
  if lhs.isImm holds then some rhs else if rhs.isImm holds then some lhs else none

def foldRight (holds : BitVec 64 → Bool) (lhs rhs : LrOperand) : Option LrOperand :=
  if rhs.isImm holds then some lhs else none

def foldIdentityIntBinop (inst : LrInst) : Option LrOperand :=
  match inst.operands with
  | lhs :: rhs :: _ =>
    let mask := intMaskForBits (intTypeWidthBits inst.type)
    match inst.op with
    | .add => foldEither (· == 0) lhs rhs
    | .sub => foldRight (· == 0) lhs rhs
    | .mul => foldEither (· == 1) lhs rhs
    | .sdiv | .udiv => foldRight (· == 1) lhs rhs
    | .and => foldEither (fun val => val &&& mask == mask) lhs rhs
    | .or | .xor => foldEither (· == 0) lhs rhs
    | .shl | .lshr | .ashr => foldRight (· == 0) lhs rhs
    | _ => none
  | _ => none

def foldSelect (inst : LrInst) : Option LrOperand :=
  if inst.op ≠ .select then none
  else
    match inst.operands with
    | ⟨.immI64 cond, _, _⟩ :: a :: b :: _ => some (if cond ≠ 0 then a else b)
    | _ :: a :: b :: _ => if operandEqual a b then some a else none
    | _ => none

def tryInstReplacement (inst : LrInst) : Option LrOperand :=
  foldSelect inst <|> foldIcmpImmediates inst <|> foldIntBinopImmediates inst <|>
    foldIdentityIntBinop inst

end Liric.Source.Ir
