import Liric.Lib.LowBits
import Liric.Guarantees.Aarch64Integers

/-!
# Integer code and the bits above an integer

An integer of `w` bits is found in a slot of 64 bits, and nothing is said of the bits
above it. For each instruction on integers: whether its code computes the result of LLVM
from the low bits of its operands, whatever is above them.
-/
namespace Liric.Guarantees.IntegerWidths
open Source Source.Ir Source.Aarch64 Lib Lib.A64 Aarch64Code Aarch64Integers BitVec

variable {type : Option LrType} {v w : Nat} {op0 op1 : LrOperand} {insn : Bool → Inst}
  {f : ∀ w, BitVec w → BitVec w → BitVec w} {isDouble : Bool} {c' : A64Ctx}

inductive IntTy where
  | i1 | i8 | i16 | i32 | i64
  deriving DecidableEq

def IntTy.kind : IntTy → ScalarKind
  | i1 => .i1
  | i8 => .i8
  | i16 => .i16
  | i32 => .i32
  | i64 => .i64

def IntTy.bits : IntTy → Nat
  | i1 => 1
  | i8 => 8
  | i16 => 16
  | i32 => 32
  | i64 => 64

/-- The type is this one, at some address. -/
def IntTy.Is (t : IntTy) (type : Option LrType) : Prop := ∃ addr, type = some (.scalar addr t.kind)

inductive BinOp where
  | add | sub | mul | and | or | xor | shl | lshr | ashr | sdiv | srem | udiv | urem
  deriving DecidableEq

def BinOp.opcode : BinOp → Opcode
  | add => .add
  | sub => .sub
  | mul => .mul
  | and => .and
  | or => .or
  | xor => .xor
  | shl => .shl
  | lshr => .lshr
  | ashr => .ashr
  | sdiv => .sdiv
  | srem => .srem
  | udiv => .udiv
  | urem => .urem

/-- The result, unless it is poison or undefined behaviour. -/
def BinOp.meaning {w : Nat} (op : BinOp) (a b : BitVec w) : Option (BitVec w) :=
  let overflow := a = intMin w ∧ b = -1
  match op with
  | add => some (a + b)
  | sub => some (a - b)
  | mul => some (a * b)
  | and => some (a &&& b)
  | or => some (a ||| b)
  | xor => some (a ^^^ b)
  | shl => if b.toNat < w then some (a <<< b.toNat) else none
  | lshr => if b.toNat < w then some (a >>> b.toNat) else none
  | ashr => if b.toNat < w then some (a.sshiftRight b.toNat) else none
  | sdiv => if b = 0 ∨ overflow then none else some (a.sdiv b)
  | srem => if b = 0 ∨ overflow then none else some (a.srem b)
  | udiv => if b = 0 then none else some (a / b)
  | urem => if b = 0 then none else some (a % b)

def icmpMeaning {w : Nat} (pred : IcmpPred) (a b : BitVec w) : Bool :=
  match pred with
  | .eq => a = b
  | .ne => a ≠ b
  | .ugt => b.toNat < a.toNat
  | .uge => b.toNat ≤ a.toNat
  | .ult => a.toNat < b.toNat
  | .ule => a.toNat ≤ b.toNat
  | .sgt => b.toInt < a.toInt
  | .sge => b.toInt ≤ a.toInt
  | .slt => a.toInt < b.toInt
  | .sle => a.toInt ≤ b.toInt

def minmaxMeaning {w : Nat} (kind : IntCmpIntrinsic) (a b : BitVec w) : BitVec w :=
  match kind with
  | .umax => if b.toNat < a.toNat then a else b
  | .umin => if a.toNat < b.toNat then a else b
  | .smax => if b.toInt < a.toInt then a else b
  | .smin => if a.toInt < b.toInt then a else b

/-- The instructions that leave a result. -/
inductive IntInst where
  | binary (op : BinOp) (t : IntTy)
  | icmp (pred : IcmpPred) (t : IntTy)
  | select (t : IntTy)
  | zext (src dst : IntTy)
  | sext (src dst : IntTy)
  | trunc (src dst : IntTy)
  | toFp (signed : Bool) (t : IntTy) (isDouble : Bool)
  | minmax (kind : IntCmpIntrinsic) (t : IntTy)
  deriving DecidableEq

def IntInst.operandTypes : IntInst → List IntTy
  | binary _ t | icmp _ t | minmax _ t => [t, t]
  | select t => [.i1, t, t]
  | zext src _ | sext src _ | trunc src _ => [src]
  | toFp _ t _ => [t]

/-- The width of the result. -/
def IntInst.resultBits : IntInst → Nat
  | binary _ t | select t | minmax _ t => t.bits
  | icmp .. => 1
  | zext _ dst | sext _ dst | trunc _ dst => dst.bits
  | toFp _ _ isDouble => if isDouble then 64 else 32

/-- The result in LLVM, in the low bits, of operands that are the low bits of these. -/
def IntInst.meaning : IntInst → List (BitVec 64) → Option (BitVec 64)
  | binary op t, [a, b] =>
    (op.meaning (a.setWidth t.bits) (b.setWidth t.bits)).map fun r => r.setWidth 64
  | icmp pred t, [a, b] =>
    some (if icmpMeaning pred (a.setWidth t.bits) (b.setWidth t.bits) then 1 else 0)
  | select _, [s, a, b] => some (if s.setWidth 1 = 1 then a else b)
  | zext src dst, [a] =>
    if src.bits < dst.bits then some ((a.setWidth src.bits).setWidth 64) else none
  | sext src dst, [a] =>
    if src.bits < dst.bits then some ((a.setWidth src.bits).signExtend 64) else none
  | trunc src dst, [a] => if dst.bits < src.bits then some a else none
  | toFp signed t isDouble, [a] =>
    let value := a.setWidth t.bits
    some (floatOfInt isDouble (if signed then value.toInt else value.toNat))
  | minmax kind t, [a, b] =>
    some ((minmaxMeaning kind (a.setWidth t.bits) (b.setWidth t.bits)).setWidth 64)
  | _, _ => none

def minmaxName (kind : IntCmpIntrinsic) (t : IntTy) : CStr :=
  cstr "llvm." ++
    (match kind with
      | .umax => cstr "umax"
      | .umin => cstr "umin"
      | .smax => cstr "smax"
      | .smin => cstr "smin") ++
    (match t with
      | .i1 => cstr ".i1"
      | .i8 => cstr ".i8"
      | .i16 => cstr ".i16"
      | .i32 => cstr ".i32"
      | .i64 => cstr ".i64")

/-- The type of the result. -/
def floatKind (isDouble : Bool) : ScalarKind := if isDouble then .double else .float

/-- `desc` is the instruction on these operands. -/
def IntInst.Encodes (inst : IntInst) (mod : LrModule) (desc : LrInst) (args : List LrOperand) :
    Prop :=
  List.Forall₂ (fun t op => IntTy.Is t op.type) inst.operandTypes args ∧
    match inst with
    | binary op t => desc.op = op.opcode ∧ t.Is desc.type ∧ desc.operands = args
    | icmp pred _ =>
      desc.op = .icmp ∧ IntTy.i1.Is desc.type ∧ desc.operands = args ∧ desc.payload = .icmpPred pred
    | select t => desc.op = .select ∧ t.Is desc.type ∧ desc.operands = args
    | zext _ dst => desc.op = .zext ∧ dst.Is desc.type ∧ desc.operands = args
    | sext _ dst => desc.op = .sext ∧ dst.Is desc.type ∧ desc.operands = args
    | trunc _ dst => desc.op = .trunc ∧ dst.Is desc.type ∧ desc.operands = args
    | toFp signed _ isDouble =>
      desc.op = (if signed then .sitofp else .uitofp) ∧
        (∃ addr, desc.type = some (.scalar addr (floatKind isDouble))) ∧ desc.operands = args
    | minmax kind t =>
      desc.op = .call ∧ t.Is desc.type ∧ ∃ id type off,
        desc.operands = ⟨.global id, type, off⟩ :: args ∧
          lrModuleSymbolName mod.symbols id = some (minmaxName kind t)

/-- The operands are found with the low bits of these values. -/
def Operands (slot : Nat → BitVec 32) (c : A64Ctx) (σ : State) :
    List IntTy → List LrOperand → List (BitVec 64) → Prop
  | [], [], [] => True
  | t :: types, op :: ops, a :: values =>
    Holds slot 3 c σ op (a.setWidth t.bits) ∧ Operands slot c σ types ops values
  | _, _, _ => False

/-- The code between two contexts is run to its end, and `P` holds there. -/
def Lands (env : Env) (calls : Calls) (c c' : A64Ctx) (σ : State) (P : State → Prop) : Prop :=
  (∃ σ', Runs env calls c'.code (c.code.length, σ) (c'.code.length, σ')) ∧
    ∀ σ', Runs env calls c'.code (c.code.length, σ) (c'.code.length, σ') → P σ'

/-- The code of the instruction leaves the result of LLVM in the slot of its destination,
whatever is above the operands. -/
def Insensitive (inst : IntInst) : Prop :=
  ∀ (host : A64Host) (apple : Bool) (env : Env) (calls : Calls) (c : A64Ctx) (desc : LrInst)
    (args : List LrOperand), inst.Encodes c.mod desc args →
    ∃ emit, emitInst host apple desc = some emit ∧
      ∀ (σ : State) (values : List (BitVec 64)) (r : BitVec 64),
        Operands (slotOff (emit c).2) c σ inst.operandTypes args values →
        inst.meaning values = some r →
        Lands env calls c (emit c).2 σ fun σ' =>
          (slotValue (emit c).2 σ' desc.dest).setWidth inst.resultBits = r.setWidth inst.resultBits

/-- What is known of the new code holds when it has been run. -/
theorem lands_of_emits {env : Env} (calls : Calls) {x : A64M Unit} {c : A64Ctx} {σ : State} {Post : Unit → A64Ctx → State → Prop}
    (hext : (target env true).Extends c (x c).2)
    (h : Emits (target env true) (Fits (slotOff (x c).2)) x c σ Post) :
    Lands env calls c (x c).2 σ fun σ' => Post () (x c).2 σ' := by
  have hcode := hext.code_eq
  generalize hinsts : (target env true).newCode c (x c).2 = insts at hcode
  have hplain : ∀ inst ∈ insts, inst.isControl = false := by
    intro inst hmem
    have h := hext.plain inst (hinsts ▸ hmem)
    simpa [target] using h
  change (x c).2.code = c.code ++ insts at hcode
  have hlen : (x c).2.code.length = c.code.length + insts.length := by
    rw [hcode, List.length_append]
  have hat : ∀ i (hi : i < insts.length), (x c).2.code[c.code.length + i]? = some insts[i] := by
    intro i hi
    rw [hcode, List.getElem?_append_right (by omega)]
    simp [hi]
  have hpost : Post () (x c).2 (execAll env insts σ) := by
    have hrun := h.after (fun _ _ => rfl)
    rw [hinsts] at hrun
    exact hrun
  constructor
  · refine ⟨execAll env insts σ, ?_⟩
    rw [hlen]
    exact runs_plain hplain hat σ
  · intro σ' hrun
    rw [hlen] at hrun
    have hend : (x c).2.code[c.code.length + insts.length]? = none := by
      rw [← hlen]
      exact List.getElem?_eq_none (le_rfl)
    rw [runs_plain_unique hplain hat hend hrun]
    exact hpost

/-- The code of an instruction computes the result. -/
structure Computes (inst : IntInst) (c : A64Ctx) (x : A64M Unit) (dest : Nat)
    (args : List LrOperand) : Prop where
  appends : ∀ env, (target env true).Extends c (x c).2
  emits : ∀ env slot σ values r, Operands slot c σ inst.operandTypes args values →
    inst.meaning values = some r →
    Emits (target env true) (Fits slot) x c σ fun _ c' σ' =>
      (slotValue c' σ' dest).setWidth inst.resultBits = r.setWidth inst.resultBits

variable {inst : IntInst}

theorem insensitive_of_computes
    (h : ∀ host apple (c : A64Ctx) desc args, inst.Encodes c.mod desc args →
      ∃ emit, emitInst host apple desc = some emit ∧ Computes inst c emit desc.dest args) :
    Insensitive inst := by
  intro host apple env calls c desc args hdesc
  obtain ⟨emit, hemit, hcomputes⟩ := h host apple c desc args hdesc
  refine ⟨emit, hemit, ?_⟩
  intro σ values r hargs hmeaning
  exact lands_of_emits calls (hcomputes.appends env) (hcomputes.emits env _ σ values r hargs hmeaning)

variable {t : IntTy}

theorem is64Type_of_is (h : t.Is type) :
    is64Type type = (t == .i64) := by
  obtain ⟨addr, rfl⟩ := h
  cases t <;> simp [is64Type, typeSize, lrTypeSize, IntTy.kind, scalarSize]

theorem intTypeWidthBits_of_is (h : t.Is type) :
    Aarch64.intTypeWidthBits type = t.bits := by
  obtain ⟨addr, rfl⟩ := h
  cases t <;> rfl

/-- The width of the registers that hold the operands. -/
def IntTy.regBits (t : IntTy) : Nat := if t == .i64 then 64 else 32

theorem bits_le_regBits (t : IntTy) : t.bits ≤ t.regBits := by
  cases t <;> decide

theorem bits_pos (t : IntTy) : 0 < t.bits := by
  cases t <;> decide

theorem bits_le (t : IntTy) : t.bits ≤ 64 := by
  cases t <;> decide

/-- The part of a register that an operation at its width computes. -/
theorem reg_atWidth (t : IntTy) (f : ∀ w, BitVec w → BitVec w → BitVec w) (p q : BitVec 64) :
    (atWidth (t == .i64) f p q).setWidth t.regBits =
      f t.regBits (p.setWidth t.regBits) (q.setWidth t.regBits) := by
  by_cases h : (t == .i64) = true
  · have hreg : t.regBits = 64 := if_pos h
    generalize t.regBits = v at hreg ⊢
    subst hreg
    simp [atWidth, h]
  · have hreg : t.regBits = 32 := if_neg h
    generalize t.regBits = v at hreg ⊢
    subst hreg
    simp [atWidth, h]

theorem low_reg (t : IntTy) (p : BitVec 64) :
    (p.setWidth t.regBits).setWidth t.bits = p.setWidth t.bits :=
  setWidth_setWidth_of_le p (bits_le_regBits t)

/-- No register is wider than these. -/
theorem regBits_eq (h : 32 ≤ t.bits) : t.regBits = t.bits := by
  cases t <;> first | rfl | (exfalso; revert h; decide)

/-- Operands without bits above them. -/
theorem exact_width (h : v = w) (f : ∀ w, BitVec w → BitVec w → BitVec w) {x y : BitVec v}
    {a b : BitVec w} (hx : x.setWidth w = a) (hy : y.setWidth w = b) :
    (f v x y).setWidth w = f w a b := by
  subst h
  rw [setWidth_eq] at *
  rw [hx, hy]

theorem narrow_reg (h : ¬ 32 ≤ t.bits) : t.regBits = 32 ∧ (t == .i64) = false := by
  cases t <;> first | exact ⟨rfl, rfl⟩ | exact absurd (by decide) h

theorem toInt_extend (h : ¬ 32 ≤ t.bits) (p : BitVec 64) :
    ((extend true t.bits p).setWidth t.regBits).toInt = (p.setWidth t.bits).toInt := by
  rw [(narrow_reg h).1, extend, if_pos rfl, toInt_low _ (by decide),
    toInt_signExtend_of_le (bits_le t)]
  have hpow : (2 : Int) ^ t.bits < 2 ^ 32 := by
    exact_mod_cast Nat.pow_lt_pow_right (by decide) (by omega)
  have hlow := (p.setWidth t.bits).le_two_mul_toInt
  have hhigh := (p.setWidth t.bits).two_mul_toInt_lt
  exact Int.bmod_eq_of_le_mul_two (by push_cast; omega) (by push_cast; omega)

theorem toNat_extend (h : ¬ 32 ≤ t.bits) (p : BitVec 64) :
    ((extend false t.bits p).setWidth t.regBits).toNat = (p.setWidth t.bits).toNat := by
  rw [(narrow_reg h).1, extend, if_neg (by decide), setWidth_setWidth_of_le _ (by decide),
    toNat_setWidth]
  have hpow : 2 ^ t.bits < 2 ^ 32 := Nat.pow_lt_pow_right (by decide) (by omega)
  exact Nat.mod_eq_of_lt (lt_trans (p.setWidth t.bits).isLt hpow)

/-- An operand of a signed division is extended to the width of the division. -/
theorem toInt_narrowed (h : t.Is type) (p : BitVec 64) :
    ((narrowed (t == .i64) type p).setWidth t.regBits).toInt = (p.setWidth t.bits).toInt := by
  rw [narrowed, intTypeWidthBits_of_is h]
  by_cases hwide : 32 ≤ t.bits
  · have hreg := regBits_eq hwide
    rw [if_neg, hreg]
    unfold IntTy.regBits at hreg
    omega
  · rw [if_pos, toInt_extend hwide]
    rw [(narrow_reg hwide).2]
    exact ⟨bits_pos t, by simp; omega⟩

/-- An operand of a comparison is extended as the comparison needs it. -/
theorem toInt_widened (h : t.Is type) (p : BitVec 64) :
    ((widened true type p).setWidth t.regBits).toInt = (p.setWidth t.bits).toInt := by
  rw [widened, intTypeWidthBits_of_is h]
  by_cases hwide : 32 ≤ t.bits
  · rw [if_neg (by omega), regBits_eq hwide]
  · rw [if_pos ⟨bits_pos t, by omega⟩, toInt_extend hwide]

theorem toNat_widened (h : t.Is type) (p : BitVec 64) :
    ((widened false type p).setWidth t.regBits).toNat = (p.setWidth t.bits).toNat := by
  rw [widened, intTypeWidthBits_of_is h]
  by_cases hwide : 32 ≤ t.bits
  · rw [if_neg (by omega), regBits_eq hwide]
  · rw [if_pos ⟨bits_pos t, by omega⟩, toNat_extend hwide]

theorem reg_compared (t : IntTy) (p q : BitVec 64) :
    compared (t == .i64) p q = subFlags (p.setWidth t.regBits) (q.setWidth t.regBits) := by
  by_cases h : (t == .i64) = true
  · have hreg : t.regBits = 64 := if_pos h
    generalize t.regBits = v at hreg ⊢
    subst hreg
    simp [compared, h]
  · have hreg : t.regBits = 32 := if_neg h
    generalize t.regBits = v at hreg ⊢
    subst hreg
    simp [compared, h]

/-- The condition of a predicate holds after a subtraction if the predicate does. -/
theorem condHolds_icmpCond (pred : IcmpPred) (a b : BitVec w) :
    condHolds (icmpCond pred) (subFlags a b) = icmpMeaning pred a b := by
  have hz := subFlags_z a b
  have hlt := subFlags_lt a b
  have hc : (subFlags a b).c = decide (b.toNat ≤ a.toNat) := rfl
  have heq : a = b ↔ a.toNat = b.toNat := toNat_inj.symm
  have heq' : a = b ↔ a.toInt = b.toInt := toInt_inj.symm
  have hge : ((subFlags a b).n == (subFlags a b).v) = !decide (a.toInt < b.toInt) := by
    rw [← hlt, bne, Bool.not_not]
  cases pred with
  | eq => exact hz
  | ne =>
    change (!(subFlags a b).z) = _
    simp [hz, icmpMeaning]
  | ugt =>
    change ((subFlags a b).c && !(subFlags a b).z) = _
    rw [hc, hz, Bool.eq_iff_iff]
    simp [icmpMeaning, heq]
    omega
  | uge => exact hc
  | ult =>
    change (!(subFlags a b).c) = _
    rw [hc, Bool.eq_iff_iff]
    simp [icmpMeaning]
  | ule =>
    change (!(subFlags a b).c || (subFlags a b).z) = _
    rw [hc, hz, Bool.eq_iff_iff]
    simp [icmpMeaning, heq]
    omega
  | sgt =>
    change (!(subFlags a b).z && (subFlags a b).n == (subFlags a b).v) = _
    rw [hz, hge, Bool.eq_iff_iff]
    simp [icmpMeaning, heq']
    omega
  | sge =>
    change ((subFlags a b).n == (subFlags a b).v) = _
    rw [hge, Bool.eq_iff_iff]
    simp [icmpMeaning]
  | slt => exact hlt
  | sle =>
    change ((subFlags a b).z || (subFlags a b).n != (subFlags a b).v) = _
    rw [hz, hlt, Bool.eq_iff_iff]
    simp [icmpMeaning, heq']
    omega

/-- A predicate sees no more of its operands than their values. -/
theorem icmpMeaning_congr (pred : IcmpPred) {x y : BitVec v} {a b : BitVec w}
    (h : if icmpPredIsSigned pred then x.toInt = a.toInt ∧ y.toInt = b.toInt
      else x.toNat = a.toNat ∧ y.toNat = b.toNat) :
    icmpMeaning pred x y = icmpMeaning pred a b := by
  cases pred <;> simp [icmpPredIsSigned] at h <;> simp [icmpMeaning, h, ← toNat_inj]

/-- The comparison of registers is the comparison of integers. -/
theorem condHolds_compared (h : t.Is type) (pred : IcmpPred) (p q : BitVec 64) :
    condHolds (icmpCond pred) (compared (t == .i64) (widened (icmpPredIsSigned pred) type p)
      (widened (icmpPredIsSigned pred) type q)) =
      icmpMeaning pred (p.setWidth t.bits) (q.setWidth t.bits) := by
  rw [reg_compared, condHolds_icmpCond]
  apply icmpMeaning_congr
  cases icmpPredIsSigned pred with
  | true => exact ⟨toInt_widened h p, toInt_widened h q⟩
  | false => exact ⟨toNat_widened h p, toNat_widened h q⟩

/-- The first operand of a minimum or maximum is taken also if both are equal. -/
theorem minmaxMeaning_eq (kind : IntCmpIntrinsic) (a b : BitVec w) :
    (if condHolds (intCmpCond kind) (subFlags a b) then a else b) = minmaxMeaning kind a b := by
  have heq : a.toNat = b.toNat → a = b := eq_of_toNat_eq
  have heq' : a.toInt = b.toInt → a = b := eq_of_toInt_eq
  cases kind with
  | umax =>
    have h : condHolds (intCmpCond .umax) (subFlags a b) = icmpMeaning .uge a b :=
      condHolds_icmpCond .uge a b
    rw [h]
    grind [icmpMeaning, minmaxMeaning]
  | umin =>
    have h : condHolds (intCmpCond .umin) (subFlags a b) = icmpMeaning .ule a b :=
      condHolds_icmpCond .ule a b
    rw [h]
    grind [icmpMeaning, minmaxMeaning]
  | smax =>
    have h : condHolds (intCmpCond .smax) (subFlags a b) = icmpMeaning .sge a b :=
      condHolds_icmpCond .sge a b
    rw [h]
    grind [icmpMeaning, minmaxMeaning]
  | smin =>
    have h : condHolds (intCmpCond .smin) (subFlags a b) = icmpMeaning .sle a b :=
      condHolds_icmpCond .sle a b
    rw [h]
    grind [icmpMeaning, minmaxMeaning]

variable {kind : IntCmpIntrinsic} {op : BinOp}

section Instructions
variable {host : A64Host} {apple : Bool} {desc : LrInst} {args : List LrOperand}

variable {t₀ : IntTy}

/-- The operands of an instruction with two of them. -/
theorem two_operands {t₁ : IntTy}
    (h : List.Forall₂ (fun t op => IntTy.Is t op.type) [t₀, t₁] args) :
    ∃ op0 op1, args = [op0, op1] ∧ t₀.Is op0.type ∧ t₁.Is op1.type := by
  cases h with
  | cons h0 h =>
    cases h with
    | cons h1 h =>
      cases h
      exact ⟨_, _, rfl, h0, h1⟩

theorem one_operand (h : List.Forall₂ (fun t op => IntTy.Is t op.type) [t₀] args) :
    ∃ op0, args = [op0] ∧ t₀.Is op0.type := by
  cases h with
  | cons h0 h =>
    cases h
    exact ⟨_, rfl, h0⟩

variable {slot : Nat → BitVec 32} {c : A64Ctx} {σ : State} {values : List (BitVec 64)}

theorem two_values {t₁ : IntTy} (h : Operands slot c σ [t₀, t₁] [op0, op1] values) :
    ∃ a b, values = [a, b] ∧ Holds slot 3 c σ op0 (a.setWidth t₀.bits) ∧
      Holds slot 3 c σ op1 (b.setWidth t₁.bits) := by
  match values, h with
  | [a, b], h => exact ⟨a, b, rfl, h.1, h.2.1⟩
  | [_], h => exact False.elim h.2
  | _ :: _ :: _ :: _, h => exact False.elim h.2.2

theorem one_value (h : Operands slot c σ [t₀] [op0] values) :
    ∃ a, values = [a] ∧ Holds slot 3 c σ op0 (a.setWidth t₀.bits) := by
  match values, h with
  | [a], h => exact ⟨a, rfl, h.1⟩
  | _ :: _ :: _, h => exact False.elim h.2

/-- Two operands, one instruction of the machine. -/
theorem computes_binary (htype : t.Is desc.type)
    [∀ is64, Plain (insn is64)]
    (hexec : ∀ env is64 σ, exec env (insn is64) σ = σ.setX 9 (atWidth is64 f (σ.x 9) (σ.x 10)))
    (hf : ∀ (x y : BitVec t.regBits) (a b r : BitVec t.bits), x.setWidth t.bits = a →
      y.setWidth t.bits = b → op.meaning a b = some r → (f t.regBits x y).setWidth t.bits = r) :
    Computes (.binary op t) c (emitBinary host desc op0 op1 insn) desc.dest [op0, op1] where
  appends env := (appends_emitBinary host).step c
  emits env slot σ values r hargs hmeaning := by
    obtain ⟨a, b, rfl, h0, h1⟩ := two_values hargs
    apply (emits_emitBinary host (hexec env _) h0 h1).mono
    rintro _ c' σ' - ⟨p, q, hp, hq, hslot⟩
    obtain ⟨r', hr', rfl⟩ := Option.map_eq_some_iff.1 hmeaning
    rw [hslot, is64Type_of_is htype]
    change setWidth t.bits _ = setWidth t.bits _
    rw [setWidth_setWidth_of_le _ (bits_le t), setWidth_eq, ← low_reg, reg_atWidth]
    exact hf _ _ _ _ r' ((low_reg t p).trans hp) ((low_reg t q).trans hq) hr'

/-- Quotients and remainders, of operands that are extended to the width of the division if
they are signed. -/
theorem computes_division (isUnsigned isRem : Bool)
    (htype : t.Is desc.type) (htype0 : t.Is op0.type) (htype1 : t.Is op1.type)
    (hf : ∀ (x y : BitVec t.regBits) (a b r : BitVec t.bits),
      (if isUnsigned then x.setWidth t.bits = a ∧ y.setWidth t.bits = b
        else x.toInt = a.toInt ∧ y.toInt = b.toInt) → op.meaning a b = some r →
      (if isRem then x - quotient (!isUnsigned) t.regBits x y * y
        else quotient (!isUnsigned) t.regBits x y).setWidth t.bits = r) :
    Computes (.binary op t) c (emitDivision host desc op0 op1 isUnsigned isRem) desc.dest
      [op0, op1] where
  appends env := (appends_emitDivision host isUnsigned isRem).step c
  emits env slot σ values r hargs hmeaning := by
    obtain ⟨a, b, rfl, h0, h1⟩ := two_values hargs
    apply (emits_emitDivision host isUnsigned isRem h0 h1).mono
    rintro _ c' σ' - ⟨p, q, hp, hq, hslot⟩
    obtain ⟨r', hr', rfl⟩ := Option.map_eq_some_iff.1 hmeaning
    rw [hslot, is64Type_of_is htype]
    change setWidth t.bits _ = setWidth t.bits _
    have hdivided : ∀ signed p q, (divided signed (t == .i64) isRem p q).setWidth t.regBits =
        if isRem then p.setWidth t.regBits - quotient signed t.regBits (p.setWidth t.regBits)
            (q.setWidth t.regBits) * q.setWidth t.regBits
          else quotient signed t.regBits (p.setWidth t.regBits) (q.setWidth t.regBits) := by
      intro signed p q
      cases isRem with
      | false => exact reg_atWidth ..
      | true =>
        rw [divided]
        simp only [if_true]
        rw [reg_atWidth, reg_atWidth, reg_atWidth]
        rfl
    rw [setWidth_setWidth_of_le _ (bits_le t), setWidth_eq, ← low_reg]
    cases isUnsigned with
    | true =>
      rw [if_pos rfl, hdivided]
      apply hf _ _ _ _ r' ⟨(low_reg t p).trans hp, (low_reg t q).trans hq⟩ hr'
    | false =>
      rw [if_neg (by decide), hdivided]
      apply hf _ _ _ _ r' ⟨?_, ?_⟩ hr'
      · rw [toInt_narrowed htype0, hp]
      · rw [toInt_narrowed htype1, hq]

/-- The operands of a comparison are extended from less than 32 bits. -/
theorem computes_icmp {pred : IcmpPred} (htype0 : t.Is op0.type) :
    Computes (.icmp pred t) c (emitIcmp host desc pred op0 op1) desc.dest [op0, op1] where
  appends env := (appends_emitIcmp host pred).step c
  emits env slot σ values r hargs hmeaning := by
    obtain ⟨a, b, rfl, h0, h1⟩ := two_values hargs
    apply (emits_emitIcmp host pred h0 h1).mono
    rintro _ c' σ' - ⟨p, q, hp, hq, hslot⟩
    cases hmeaning
    rw [hslot, is64Type_of_is htype0, condHolds_compared htype0, hp, hq]

theorem computes_intCast (signed : Bool) (bits : Nat) (hpos : 0 < bits)
    (hwide : bits ≤ 64) (htypes : inst.operandTypes = [t])
    (hf : ∀ p a r : BitVec 64, p.setWidth t.bits = a.setWidth t.bits → inst.meaning [a] = some r →
      (extend signed bits p).setWidth inst.resultBits = r.setWidth inst.resultBits) :
    Computes inst c (emitIntCast host desc op0 bits (if signed then encAsrv else encLsrv))
      desc.dest [op0] where
  appends env := (appends_emitIntCast host bits).step c
  emits env slot σ values r hargs hmeaning := by
    rw [htypes] at hargs
    obtain ⟨a, rfl, h0⟩ := one_value hargs
    apply (emits_emitIntCast host signed bits hwide h0).mono
    rintro _ c' σ' - ⟨p, hp, hslot⟩
    have hwhole : (if 0 < bits ∧ bits < 64 then extend signed bits p else p) =
        extend signed bits p := by
      split
      · rfl
      · have h64 : bits = 64 := by omega
        subst h64
        cases signed <;> simp [extend]
    rw [hslot, hwhole]
    exact hf p a r hp hmeaning

/-- The number that is stored in the precision of the result. -/
theorem low_float {value : BitVec 64} {v v' : Int}
    (htype : ∃ addr, type = some (.scalar addr (floatKind isDouble)))
    (h : value.setWidth (8 * fpAccessSize (fpAbiSize type)) =
      (floatOfInt (fpAbiSize type == 8) v).setWidth (8 * fpAccessSize (fpAbiSize type)))
    (hv : v = v') (signed : Bool) (t : IntTy) :
    value.setWidth (IntInst.toFp signed t isDouble).resultBits =
      (floatOfInt isDouble v').setWidth (IntInst.toFp signed t isDouble).resultBits := by
  obtain ⟨addr, rfl⟩ := htype
  subst hv
  cases isDouble <;> exact h

/-- Signed integers are converted from 32 or 64 bits. -/
theorem computes_sitofp (hwide : 32 ≤ t.bits) (htype0 : t.Is op0.type)
    (htype : ∃ addr, desc.type = some (.scalar addr (floatKind isDouble))) :
    Computes (.toFp true t isDouble) c (emitSitofp host desc op0) desc.dest [op0] where
  appends env := (appends_emitSitofp host).step c
  emits env slot σ values r hargs hmeaning := by
    obtain ⟨a, rfl, h0⟩ := one_value hargs
    apply (emits_emitSitofp host h0).mono
    rintro _ c' σ' - ⟨p, hp, hslot⟩
    cases hmeaning
    apply low_float htype hslot
    rw [if_pos rfl, ← hp]
    obtain ⟨addr, haddr⟩ := htype0
    cases t with
    | i1 | i8 | i16 => exact absurd hwide (by decide)
    | i32 =>
      rw [if_pos (by rw [haddr]; simp [typeSize, lrTypeSize, IntTy.kind, scalarSize]), extend,
        if_pos rfl]
      exact toInt_signExtend_of_le (by decide)
    | i64 =>
      rw [if_neg (by rw [haddr]; simp [typeSize, lrTypeSize, IntTy.kind, scalarSize])]
      exact congrArg BitVec.toInt (setWidth_eq p).symm

theorem computes_uitofp (htype0 : t.Is op0.type)
    (htype : ∃ addr, desc.type = some (.scalar addr (floatKind isDouble))) :
    Computes (.toFp false t isDouble) c (emitUitofp host desc op0) desc.dest [op0] where
  appends env := (appends_emitUitofp host).step c
  emits env slot σ values r hargs hmeaning := by
    have hbits := intTypeWidthBits_of_is htype0
    obtain ⟨a, rfl, h0⟩ := one_value hargs
    apply (emits_emitUitofp host (by rw [hbits]; exact bits_le t) h0).mono
    rintro _ c' σ' - ⟨p, hp, hslot⟩
    cases hmeaning
    apply low_float htype hslot
    rw [← hp, hbits]
    change _ = ((p.setWidth t.bits).toNat : Int)
    congr 1
    split
    · rw [extend, if_neg (by decide), toNat_setWidth_of_le (bits_le t)]
    · rename_i h
      have h64 : t.bits = 64 := by
        have hpos := bits_pos t
        have hle := bits_le t
        omega
      rw [h64, setWidth_eq]

/-- The names of the intrinsics that are known. -/
theorem classify_minmaxName (kind : IntCmpIntrinsic) (t : IntTy) :
    classifyLlvmIntCmpIntrinsic (minmaxName kind t) =
      if 32 ≤ t.bits then some (kind, t == .i64) else none := by
  cases kind <;> cases t <;> decide +kernel

theorem emitCall_eq (id : Nat) (type : Option LrType) (off : BitVec 64) (args : List LrOperand) :
    emitCall host apple desc ⟨.global id, type, off⟩ args c =
      (match lrModuleSymbolName c.mod.symbols id with
        | none => emitPlainCall host apple desc ⟨.global id, type, off⟩ args
        | some name =>
          match classifyLlvmIntCmpIntrinsic name with
          | some (kind, is64) => emitIntCmpIntrinsic host desc kind is64 args
          | none =>
            if llvmObjectsizeBits name ≠ 0 then emitObjectsize desc (llvmObjectsizeBits name)
            else if isLlvmVaStartName name then emitVaStart host args
            else if isLlvmVaEndName name then invalidateCachedGprs
            else if isLlvmVaCopyName name then emitVaCopy host args
            else emitPlainCall host apple desc ⟨.global id, type, off⟩ args) c := rfl

theorem emitCall_minmax (hwide : 32 ≤ t.bits) {id : Nat}
    {off : BitVec 64} (hname : lrModuleSymbolName c.mod.symbols id = some (minmaxName kind t)) :
    emitCall host apple desc ⟨.global id, type, off⟩ args c =
      emitIntCmpIntrinsic host desc kind (t == .i64) args c := by
  have hclass := classify_minmaxName kind t
  rw [if_pos hwide] at hclass
  rw [emitCall_eq, hname]
  simp only [hclass]

theorem computes_minmax (hwide : 32 ≤ t.bits) {id : Nat} {off : BitVec 64} (htype : t.Is desc.type)
    (hname : lrModuleSymbolName c.mod.symbols id = some (minmaxName kind t)) :
    Computes (.minmax kind t) c (emitCall host apple desc ⟨.global id, type, off⟩ [op0, op1])
      desc.dest [op0, op1] where
  appends env := by
    rw [emitCall_minmax hwide hname]
    exact (appends_emitIntCmpIntrinsic host kind _).step c
  emits env slot σ values r hargs hmeaning := by
    obtain ⟨a, b, rfl, h0, h1⟩ := two_values hargs
    have hvoid : isVoidType desc.type = false := by
      obtain ⟨addr, haddr⟩ := htype
      rw [haddr]
      cases t <;> rfl
    apply Emits.congr (emitCall_minmax hwide hname)
    apply (emits_emitIntCmpIntrinsic host kind (t == .i64) hvoid h0 h1).mono
    rintro _ c' σ' - ⟨p, q, hp, hq, hslot⟩
    cases hmeaning
    change setWidth t.bits _ = setWidth t.bits _
    rw [setWidth_setWidth_of_le _ (bits_le t), setWidth_eq, hslot, ← low_reg,
      reg_atWidth, reg_compared, minmaxMeaning_eq]
    exact exact_width (regBits_eq hwide) (fun _ x y => minmaxMeaning kind x y)
      ((low_reg t p).trans hp) ((low_reg t q).trans hq)

end Instructions

/-- The instructions whose code is insensitive to what is above their operands. -/
def IntInst.sound : IntInst → Bool
  | binary op t =>
    match op with
    | .add | .sub | .mul | .and | .or | .xor | .sdiv | .srem => true
    | .shl => t != .i1
    | .lshr | .ashr | .udiv | .urem => t == .i32 || t == .i64
  | icmp .. | zext .. | sext .. | trunc .. => true
  | select _ => false
  | toFp signed t _ => !signed || t == .i32 || t == .i64
  | minmax _ t => t == .i32 || t == .i64

theorem wide_of_sound (h : (t == .i32 || t == .i64) = true) : 32 ≤ t.bits := by
  cases t <;> first | decide | exact absurd h (by decide)

theorem insensitive_binary (h : (IntInst.binary op t).sound = true) :
    Insensitive (.binary op t) := by
  apply insensitive_of_computes
  rintro host apple c ⟨opcode, type, dest, operands, payload, align, external, vararg, fixed⟩ args
    ⟨htypes, hop, htype, hargs⟩
  obtain ⟨op0, op1, rfl, h0, h1⟩ := two_operands htypes
  simp only at hop htype hargs
  subst hop hargs
  have hle := bits_le_regBits t
  cases op with
  | add =>
    refine ⟨_, rfl, computes_binary (f := addSub false) htype (fun _ _ _ => rfl) ?_⟩
    rintro x y a b r rfl rfl hr
    cases hr
    exact setWidth_add x y hle
  | sub =>
    refine ⟨_, rfl, computes_binary (f := addSub true) htype (fun _ _ _ => rfl) ?_⟩
    rintro x y a b r rfl rfl hr
    cases hr
    exact setWidth_sub x y hle
  | mul =>
    refine ⟨_, rfl, computes_binary (f := fun _ x y => x * y) htype ?_ ?_⟩
    · intro env is64 σ
      cases is64 <;> simp [encMul, exec, State.getX, atWidth, addSub, a64X9, a64X10]
    rintro x y a b r rfl rfl hr
    cases hr
    exact setWidth_mul x y hle
  | and =>
    refine ⟨_, rfl, computes_binary (f := logic .and) htype (fun _ _ _ => rfl) ?_⟩
    rintro x y a b r rfl rfl hr
    cases hr
    exact setWidth_and
  | or =>
    refine ⟨_, rfl, computes_binary (f := logic .orr) htype (fun _ _ _ => rfl) ?_⟩
    rintro x y a b r rfl rfl hr
    cases hr
    exact setWidth_or
  | xor =>
    refine ⟨_, rfl, computes_binary (f := logic .eor) htype (fun _ _ _ => rfl) ?_⟩
    rintro x y a b r rfl rfl hr
    cases hr
    exact setWidth_xor
  | shl =>
    refine ⟨_, rfl, computes_binary (f := shift .lsl) htype (fun _ _ _ => rfl) ?_⟩
    rintro x y a b r rfl hy hr
    obtain ⟨hb, hr⟩ := Option.ite_none_right_eq_some.1 hr
    cases hr
    have hamount : y.toNat % t.regBits = b.toNat := by
      apply low_amount hy
      · cases t <;> first | decide | exact absurd h (by decide)
      · omega
    change (x <<< (y.toNat % t.regBits)).setWidth t.bits = _
    rw [hamount]
    exact setWidth_shiftLeft_of_le hle
  | lshr =>
    refine ⟨_, rfl, computes_binary (f := shift .lsr) htype (fun _ _ _ => rfl) ?_⟩
    intro x y a b r hx hy hr
    obtain ⟨hb, hr⟩ := Option.ite_none_right_eq_some.1 hr
    cases hr
    rw [exact_width (regBits_eq (wide_of_sound h)) (shift .lsr) hx hy, shift, Nat.mod_eq_of_lt hb]
  | ashr =>
    refine ⟨_, rfl, computes_binary (f := shift .asr) htype (fun _ _ _ => rfl) ?_⟩
    intro x y a b r hx hy hr
    obtain ⟨hb, hr⟩ := Option.ite_none_right_eq_some.1 hr
    cases hr
    rw [exact_width (regBits_eq (wide_of_sound h)) (shift .asr) hx hy, shift, Nat.mod_eq_of_lt hb]
  | sdiv =>
    refine ⟨_, rfl, computes_division false false htype h0 h1 ?_⟩
    rintro x y a b r ⟨hx, hy⟩ hr
    obtain ⟨-, hr⟩ := Option.ite_none_left_eq_some.1 hr
    cases hr
    exact setWidth_sdiv hle hx hy
  | srem =>
    refine ⟨_, rfl, computes_division false true htype h0 h1 ?_⟩
    rintro x y a b r ⟨hx, hy⟩ hr
    obtain ⟨-, hr⟩ := Option.ite_none_left_eq_some.1 hr
    cases hr
    change (x - x.sdiv y * y).setWidth t.bits = _
    rw [sub_sdiv_mul]
    exact setWidth_srem hle hx hy
  | udiv =>
    refine ⟨_, rfl, computes_division true false htype h0 h1 ?_⟩
    rintro x y a b r ⟨hx, hy⟩ hr
    obtain ⟨-, hr⟩ := Option.ite_none_left_eq_some.1 hr
    cases hr
    exact exact_width (regBits_eq (wide_of_sound h)) (quotient false) hx hy
  | urem =>
    refine ⟨_, rfl, computes_division true true htype h0 h1 ?_⟩
    rintro x y a b r ⟨hx, hy⟩ hr
    obtain ⟨-, hr⟩ := Option.ite_none_left_eq_some.1 hr
    cases hr
    change (x - x / y * y).setWidth t.bits = _
    rw [sub_udiv_mul]
    exact exact_width (regBits_eq (wide_of_sound h)) (fun _ x y => x % y) hx hy

theorem insensitive_of_sound (h : inst.sound = true) : Insensitive inst := by
  cases inst with
  | binary op t => exact insensitive_binary h
  | select t => cases h
  | icmp pred t =>
    apply insensitive_of_computes
    rintro host apple c ⟨opcode, type, dest, operands, payload, align, external, vararg, fixed⟩ args
      ⟨htypes, hop, -, hargs, hpayload⟩
    obtain ⟨op0, op1, rfl, h0, -⟩ := two_operands htypes
    simp only at hop hargs hpayload
    subst hop hargs hpayload
    exact ⟨_, rfl, computes_icmp h0⟩
  | zext src dst =>
    apply insensitive_of_computes
    rintro host apple c desc args ⟨htypes, hop, htype, hargs⟩
    obtain ⟨op0, rfl, h0⟩ := one_operand htypes
    refine ⟨_, by rw [emitInst, hop, hargs], ?_⟩
    rw [intTypeWidthBits_of_is h0]
    apply computes_intCast false src.bits (bits_pos src) (bits_le src) rfl
    intro p a r hp hr
    obtain ⟨-, hr⟩ := Option.ite_none_right_eq_some.1 hr
    cases hr
    rw [extend, if_neg (by decide), hp]
  | sext src dst =>
    apply insensitive_of_computes
    rintro host apple c desc args ⟨htypes, hop, htype, hargs⟩
    obtain ⟨op0, rfl, h0⟩ := one_operand htypes
    refine ⟨_, by rw [emitInst, hop, hargs], ?_⟩
    rw [intTypeWidthBits_of_is h0]
    apply computes_intCast true src.bits (bits_pos src) (bits_le src) rfl
    intro p a r hp hr
    obtain ⟨-, hr⟩ := Option.ite_none_right_eq_some.1 hr
    cases hr
    rw [extend, if_pos rfl, hp]
  | trunc src dst =>
    apply insensitive_of_computes
    rintro host apple c desc args ⟨htypes, hop, htype, hargs⟩
    obtain ⟨op0, rfl, h0⟩ := one_operand htypes
    refine ⟨_, by rw [emitInst, hop, hargs], ?_⟩
    simp only [intTypeWidthBits_of_is htype]
    apply computes_intCast false dst.bits (bits_pos dst) (bits_le dst) rfl
    intro p a r hp hr
    obtain ⟨hlt, hr⟩ := Option.ite_none_right_eq_some.1 hr
    cases hr
    change setWidth dst.bits _ = setWidth dst.bits _
    rw [extend, if_neg (by decide), setWidth_setWidth_of_le _ (bits_le dst),
      setWidth_setWidth_of_le _ (le_rfl), ← setWidth_setWidth_of_le p (le_of_lt hlt), hp,
      setWidth_setWidth_of_le a (le_of_lt hlt)]
  | toFp signed t isDouble =>
    apply insensitive_of_computes
    rintro host apple c desc args ⟨htypes, hop, htype, hargs⟩
    obtain ⟨op0, rfl, h0⟩ := one_operand htypes
    cases signed with
    | true => exact ⟨_, by rw [emitInst, hop, hargs]; rfl, computes_sitofp (wide_of_sound h) h0 htype⟩
    | false => exact ⟨_, by rw [emitInst, hop, hargs]; rfl, computes_uitofp h0 htype⟩
  | minmax kind t =>
    apply insensitive_of_computes
    rintro host apple c ⟨opcode, type, dest, operands, payload, align, external, vararg, fixed⟩ args
      ⟨htypes, hop, htype, id, ctype, off, hargs, hname⟩
    obtain ⟨op0, op1, rfl, h0, h1⟩ := two_operands htypes
    simp only at hop htype hargs
    subst hop hargs
    exact ⟨_, rfl, computes_minmax (wide_of_sound h) htype hname⟩

/-- A context with three values of eight bytes, and one symbol. -/
def sampleCtx (name : CStr) : A64Ctx where
  mod := {
    builtin := lrModuleCreateTypes 0
    nextAddr := 11
    symbols := ⟨[name], [symbolHash name], 64, []⟩ }
  retType := .scalar 0 .void
  stackSize := 24
  stackSlots := [(1, ⟨-8, 8⟩), (2, ⟨-16, 8⟩), (3, ⟨-24, 8⟩)]

/-- The three slots hold these patterns. -/
def sampleState (p q s : BitVec 64) : State where
  x reg := if reg = 29 then 4096 else 0
  d _ := 0
  flags := ⟨false, false, false, false⟩
  mem := store (store (store (fun _ => 0) 4088 8 p) 4080 8 q) 4072 8 s

def sampleOp (vreg : Nat) (t : IntTy) : LrOperand := ⟨.vreg vreg, some (.scalar 0 t.kind), 0⟩

theorem sampleState_load (p q s : BitVec 64) :
    load (sampleState p q s).mem 4088 8 = p ∧ load (sampleState p q s).mem 4080 8 = q ∧
      load (sampleState p q s).mem 4072 8 = s := by
  have hfar : ∀ a b : BitVec 64, (b - a).toNat + 8 ≤ 2 ^ 64 → 8 ≤ (b - a).toNat →
      ∀ i < 8, 8 ≤ (b + BitVec.ofNat 64 i - a).toNat := by
    intro a b hlow hhigh i hi
    have h : b + BitVec.ofNat 64 i - a = b - a + BitVec.ofNat 64 i := by
      rw [BitVec.sub_eq_add_neg, BitVec.sub_eq_add_neg, BitVec.add_assoc, BitVec.add_assoc,
        BitVec.add_comm (BitVec.ofNat 64 i)]
    rw [h, toNat_add, toNat_ofNat]
    omega
  refine ⟨?_, ?_, ?_⟩
  · simp only [sampleState]
    rw [load_store_of_apart _ _ (hfar _ _ (by decide) (by decide)),
      load_store_of_apart _ _ (hfar _ _ (by decide) (by decide)), load_store_word]
  · simp only [sampleState]
    rw [load_store_of_apart _ _ (hfar _ _ (by decide) (by decide)), load_store_word]
  · exact load_store_word ..

/-- A value that is only in its slot is found with the pattern there. -/
theorem holds_slot {c : A64Ctx} {σ : State} {n : Nat} {p : BitVec 64} (h : Grows true c c')
    (hv : v < uint32Max) (hslot : Slotted c v) (hstatic : c.lookupStaticAllocaOffset v = 0)
    (h9 : c.x9HoldsVreg ≠ v) (h10 : c.x10HoldsVreg ≠ v)
    (hload : load σ.mem (σ.x 29 + (slotOff c v).signExtend 64) 8 = p) :
    Holds (slotOff c') n c σ ⟨.vreg v, type, 0⟩ p := by
  refine ⟨hv, Or.inl hslot, hstatic, fun h => absurd h h9, fun h => absurd h h10, ?_⟩
  rw [(h.slots rfl v hslot).2, hload, setWidth_eq]

/-- The values of the sample are found with exactly these patterns. -/
theorem sample_holds {name : CStr} (h : Grows true (sampleCtx name) c') (p q s : BitVec 64)
    (t₀ t₁ t₂ : IntTy) :
    Holds (slotOff c') 3 (sampleCtx name) (sampleState p q s) (sampleOp 1 t₀) p ∧
      Holds (slotOff c') 3 (sampleCtx name) (sampleState p q s) (sampleOp 2 t₁) q ∧
      Holds (slotOff c') 3 (sampleCtx name) (sampleState p q s) (sampleOp 3 t₂) s := by
  obtain ⟨hp, hq, hs⟩ := sampleState_load p q s
  have huncached : ∀ v : Nat, v < 4 → uint32Max ≠ v := by
    intro v hv
    simp [uint32Max]
    omega
  have hfp : (sampleState p q s).x 29 = 4096 := rfl
  have hslots : (sampleCtx name).slot 1 = ⟨-8, 8⟩ ∧ (sampleCtx name).slot 2 = ⟨-16, 8⟩ ∧
      (sampleCtx name).slot 3 = ⟨-24, 8⟩ := ⟨rfl, rfl, rfl⟩
  have hslotted : ∀ v off, (sampleCtx name).slot v = ⟨off, 8⟩ → off ≠ 0 →
      Slotted (sampleCtx name) v := by
    intro v off hv hoff
    right
    rw [hv]
    exact ⟨hoff, (by decide : (8 : BitVec 32) ≤ 8)⟩
  have hoff : ∀ v off, v ≤ 3 → (sampleCtx name).slot v = ⟨off, 8⟩ →
      slotOff (sampleCtx name) v = off := by
    intro v off hv hslot
    rw [slotOff, if_neg (by omega), hslot]
  refine ⟨?_, ?_, ?_⟩
  · apply holds_slot h (by decide) (hslotted 1 _ hslots.1 (by decide)) rfl
      (huncached 1 (by decide)) (huncached 1 (by decide))
    rw [hfp, hoff 1 _ (by decide) hslots.1]
    exact hp
  · apply holds_slot h (by decide) (hslotted 2 _ hslots.2.1 (by decide)) rfl
      (huncached 2 (by decide)) (huncached 2 (by decide))
    rw [hfp, hoff 2 _ (by decide) hslots.2.1]
    exact hq
  · apply holds_slot h (by decide) (hslotted 3 _ hslots.2.2 (by decide)) rfl
      (huncached 3 (by decide)) (huncached 3 (by decide))
    rw [hfp, hoff 3 _ (by decide) hslots.2.2]
    exact hs

theorem holds_narrow {slot : Nat → BitVec 32} {n : Nat} {c : A64Ctx} {σ : State} {op : LrOperand}
    {p : BitVec 64} (h : Holds slot n c σ op p) (w : Nat) : Holds slot n c σ op (p.setWidth w) := by
  have hcut : ∀ x : BitVec 64, x.setWidth 64 = p → x.setWidth w = p.setWidth w := by
    rintro x rfl
    rw [setWidth_eq]
  rcases op with ⟨value, type, globalOffset⟩
  cases value with
  | immF64 | block | global => exact h
  | immI64 imm => exact hcut imm h
  | null | undef =>
    change p = 0 at h
    subst h
    exact setWidth_zero ..
  | vreg v =>
    replace h : VregHolds slot n c σ v p := h
    exact ⟨h.isVreg, h.ready, h.noStatic, fun h9 => hcut _ (h.x9 h9), fun h10 => hcut _ (h.x10 h10),
      hcut _ h.mem⟩

def sampleHost : A64Host where
  fmod := 0
  fmodf := 0

def sampleEnv : Env where
  result _ _ := 0
  flags _ σ := σ.flags

def sampleInst (op : Opcode) (kind : ScalarKind) (args : List LrOperand) : LrInst where
  op := op
  type := some (.scalar 0 kind)
  dest := 4
  operands := args

variable {args : List LrOperand} {desc : LrInst}

/-- The code leaves another result than LLVM. -/
theorem not_insensitive (p q s : BitVec 64) {x : A64M Unit} {values : List (BitVec 64)} {r : BitVec 64}
    (hdesc : inst.Encodes (sampleCtx []).mod desc args)
    (hemit : emitInst sampleHost false desc = some x)
    (happ : Appends (target sampleEnv true) x)
    (hargs : ∀ c', Grows true (sampleCtx []) c' →
      Operands (slotOff c') (sampleCtx []) (sampleState p q s) inst.operandTypes args values)
    (hmeaning : inst.meaning values = some r)
    (hwrong : ∀ c', Grows true (sampleCtx []) c' →
      Emits (target sampleEnv true) (Fits (slotOff c')) x (sampleCtx []) (sampleState p q s)
        fun _ c' σ' =>
        (slotValue c' σ' desc.dest).setWidth inst.resultBits ≠ r.setWidth inst.resultBits) :
    ¬ Insensitive inst := by
  intro h
  obtain ⟨emit, hemit', hright⟩ := h sampleHost false sampleEnv (fun _ _ _ => False) _ desc args
    hdesc
  rw [hemit] at hemit'
  cases hemit'
  have hext := happ.step (sampleCtx [])
  have hlands := lands_of_emits (fun _ _ _ => False) hext (hwrong _ hext.1)
  obtain ⟨σ', hrun⟩ := hlands.1
  exact hlands.2 σ' hrun ((hright _ values r (hargs _ hext.1) hmeaning).2 σ' hrun)

/-- The code of an instruction on the first two values of the sample. -/
theorem emits_sampleBinary {op : Opcode} [∀ is64, Plain (insn is64)]
    (hexec : ∀ env is64 σ, exec env (insn is64) σ = σ.setX 9 (atWidth is64 f (σ.x 9) (σ.x 10)))
    (hgrows : Grows true (sampleCtx []) c') (p q : BitVec 64) :
    Emits (target sampleEnv true) (Fits (slotOff c'))
      (emitBinary sampleHost (sampleInst op t.kind [sampleOp 1 t, sampleOp 2 t]) (sampleOp 1 t)
        (sampleOp 2 t) insn) (sampleCtx []) (sampleState p q 0) fun _ c' σ' =>
      slotValue c' σ' 4 = atWidth (t == .i64) f p q := by
  have htype : t.Is (sampleInst op t.kind [sampleOp 1 t, sampleOp 2 t]).type := ⟨0, rfl⟩
  obtain ⟨h0, h1, -⟩ := sample_holds hgrows p q 0 t t t
  apply (emits_emitBinary sampleHost (hexec _ _) h0 h1).mono
  rintro _ c' σ' - ⟨p', q', hp, hq, hslot⟩
  rw [setWidth_eq] at hp hq
  subst hp hq
  rw [is64Type_of_is htype] at hslot
  exact hslot

theorem sample_encodes : (IntInst.binary op t).Encodes (sampleCtx []).mod
    (sampleInst op.opcode t.kind [sampleOp 1 t, sampleOp 2 t]) [sampleOp 1 t, sampleOp 2 t] :=
  ⟨.cons ⟨0, rfl⟩ (.cons ⟨0, rfl⟩ .nil), rfl, ⟨0, rfl⟩, rfl⟩

/-- Two patterns for which an instruction of the machine gives another result. -/
theorem not_insensitive_binary (op : BinOp) (p q r : BitVec 64)
    (hemit : emitInst sampleHost false (sampleInst op.opcode t.kind [sampleOp 1 t, sampleOp 2 t]) =
      some (emitBinary sampleHost (sampleInst op.opcode t.kind [sampleOp 1 t, sampleOp 2 t])
        (sampleOp 1 t) (sampleOp 2 t) insn)) [∀ is64, Plain (insn is64)]
    (hexec : ∀ env is64 σ, exec env (insn is64) σ = σ.setX 9 (atWidth is64 f (σ.x 9) (σ.x 10)))
    (hmeaning : (IntInst.binary op t).meaning [p, q] = some r)
    (hwrong : (atWidth (t == .i64) f p q).setWidth t.bits ≠ r.setWidth t.bits) :
    ¬ Insensitive (.binary op t) := by
  apply not_insensitive p q 0 sample_encodes hemit (appends_emitBinary sampleHost) _ hmeaning
  · intro c' hgrows
    apply (emits_sampleBinary hexec hgrows p q).mono
    intro _ c' σ' _ hslot
    rw [show slotValue c' σ' (sampleInst op.opcode t.kind _).dest = _ from hslot]
    exact hwrong
  · intro c' hgrows
    obtain ⟨h0, h1, -⟩ := sample_holds hgrows p q 0 t t t
    exact ⟨holds_narrow h0 _, holds_narrow h1 _, trivial⟩

theorem not_insensitive_division (isRem : Bool) (p q r : BitVec 64)
    (hemit : emitInst sampleHost false (sampleInst op.opcode t.kind [sampleOp 1 t, sampleOp 2 t]) =
      some (emitDivision sampleHost (sampleInst op.opcode t.kind [sampleOp 1 t, sampleOp 2 t])
        (sampleOp 1 t) (sampleOp 2 t) true isRem))
    (hmeaning : (IntInst.binary op t).meaning [p, q] = some r)
    (hwrong : (divided false (t == .i64) isRem p q).setWidth t.bits ≠ r.setWidth t.bits) :
    ¬ Insensitive (.binary op t) := by
  have htype : t.Is (sampleInst op.opcode t.kind [sampleOp 1 t, sampleOp 2 t]).type := ⟨0, rfl⟩
  apply not_insensitive p q 0 sample_encodes hemit (appends_emitDivision sampleHost true isRem) _ hmeaning
  · intro c' hgrows
    obtain ⟨h0, h1, -⟩ := sample_holds hgrows p q 0 t t t
    apply (emits_emitDivision sampleHost true isRem h0 h1).mono
    rintro _ c' σ' - ⟨p', q', hp, hq, hslot⟩
    rw [setWidth_eq] at hp hq
    subst hp hq
    rw [hslot, is64Type_of_is htype]
    exact hwrong
  · intro c' hgrows
    obtain ⟨h0, h1, -⟩ := sample_holds hgrows p q 0 t t t
    exact ⟨holds_narrow h0 _, holds_narrow h1 _, trivial⟩

/-- The condition is tested with 31 bits above it. -/
theorem not_insensitive_select (t : IntTy) : ¬ Insensitive (.select t) := by
  have hdesc : (IntInst.select t).Encodes (sampleCtx []).mod
      (sampleInst .select t.kind [sampleOp 1 .i1, sampleOp 2 t, sampleOp 3 t])
      [sampleOp 1 .i1, sampleOp 2 t, sampleOp 3 t] :=
    ⟨.cons ⟨0, rfl⟩ (.cons ⟨0, rfl⟩ (.cons ⟨0, rfl⟩ .nil)), rfl, ⟨0, rfl⟩, rfl⟩
  have hmeaning : (IntInst.select t).meaning [2, 1, 0] = some 0 := rfl
  apply not_insensitive 2 1 0 hdesc rfl (appends_emitSelect sampleHost) _ hmeaning
  · intro c' hgrows
    obtain ⟨h0, h1, h2⟩ := sample_holds hgrows 2 1 0 .i1 t t
    apply (emits_emitSelect (n := 0) sampleHost h0 h1 h2).mono
    rintro _ c' σ' - ⟨s, p, q, hs, hp, hq, hslot⟩
    rw [setWidth_eq] at hs hp hq
    subst hs hp hq
    rw [hslot, if_neg (by decide)]
    cases t <;> decide
  · intro c' hgrows
    obtain ⟨h0, h1, h2⟩ := sample_holds hgrows 2 1 0 .i1 t t
    exact ⟨holds_narrow h0 _, holds_narrow h1 _, holds_narrow h2 _, trivial⟩

/-- Signed conversions take 32 bits of a narrower integer. -/
theorem not_insensitive_sitofp (isDouble : Bool) (h : ¬ 32 ≤ t.bits) :
    ¬ Insensitive (.toFp true t isDouble) := by
  have hdesc : (IntInst.toFp true t isDouble).Encodes (sampleCtx []).mod
      (sampleInst .sitofp (floatKind isDouble) [sampleOp 1 t]) [sampleOp 1 t] :=
    ⟨.cons ⟨0, rfl⟩ .nil, rfl, ⟨0, rfl⟩, rfl⟩
  have hmeaning : (IntInst.toFp true t isDouble).meaning [2 ^ t.bits] = some 0 := by
    cases t <;> rfl
  apply not_insensitive (2 ^ t.bits) 0 0 hdesc rfl (appends_emitSitofp sampleHost) _ hmeaning
  · intro c' hgrows
    obtain ⟨h0, -, -⟩ := sample_holds hgrows (2 ^ t.bits) 0 0 t t t
    apply (emits_emitSitofp sampleHost h0).mono
    rintro _ c' σ' - ⟨p, hp, hslot⟩
    rw [setWidth_eq] at hp
    subst hp
    have hfloat := low_float ⟨0, rfl⟩ hslot rfl true t
    rw [hfloat]
    cases t with
    | i32 | i64 => exact absurd (by decide) h
    | i1 | i8 | i16 => cases isDouble <;> decide
  · intro c' hgrows
    obtain ⟨h0, -, -⟩ := sample_holds hgrows (2 ^ t.bits) 0 0 t t t
    exact ⟨holds_narrow h0 _, trivial⟩

variable {callee : LrOperand}

/-- The name of a minimum or maximum of narrow integers is that of a function like any
other. -/
theorem emitCall_narrow (h : ¬ 32 ≤ t.bits) (hcallee : callee.value = .global 0) :
    emitCall sampleHost false desc callee args (sampleCtx (minmaxName kind t)) =
      emitPlainCall sampleHost false desc callee args (sampleCtx (minmaxName kind t)) := by
  rcases callee with ⟨value, type, off⟩
  subst hcallee
  have hname : lrModuleSymbolName (sampleCtx (minmaxName kind t)).mod.symbols 0 =
      some (minmaxName kind t) := rfl
  have hclass := classify_minmaxName kind t
  rw [if_neg h] at hclass
  have hother : llvmObjectsizeBits (minmaxName kind t) = 0 ∧
      isLlvmVaStartName (minmaxName kind t) = false ∧
      isLlvmVaEndName (minmaxName kind t) = false ∧
      isLlvmVaCopyName (minmaxName kind t) = false := by
    cases kind <;> cases t <;> decide +kernel
  rw [emitCall_eq, hname]
  simp only [hclass, hother]
  simp

/-- The code of a call goes through a branch with link. -/
theorem emitPlainCall_code {host : A64Host} {apple : Bool} {c : A64Ctx} {k : Nat} (htype : t.Is desc.type)
    (habi : directCallUsesExternalFpAbi c desc callee = ⟨true, false, k⟩) :
    ∃ pre post, (emitPlainCall host apple desc callee args c).2.code =
        c.code ++ pre ++ .blr a64X16 :: post ∧ (∀ inst ∈ pre, inst.isControl = false) ∧
      Grows true c (emitPlainCall host apple desc callee args c).2 := by
  generalize hbytes : (callStackBytes apple ⟨true, false, k⟩ args).toNat = bytes
  have hpre : Appends (target sampleEnv true) (do
      emitSpAdjust true bytes
      emitArgs host {} args
      emitLoadOperand host callee a64X16) := Appends.bind
  have hpost : Appends (target sampleEnv true) (do
      emitSpAdjust false bytes
      invalidateCachedGprs
      emitStoreSlot desc.dest a64X0) := Appends.bind
  have hresult : emitCallResult desc true = emitStoreSlot desc.dest a64X0 := by
    obtain ⟨addr, haddr⟩ := htype
    unfold emitCallResult
    rw [haddr]
    cases t <;> rfl
  have hwhole : emitPlainCall host apple desc callee args c = (do
      (do
        emitSpAdjust true bytes
        emitArgs host {} args
        emitLoadOperand host callee a64X16)
      emitU32 (.blr a64X16)
      (do
        emitSpAdjust false bytes
        invalidateCachedGprs
        emitStoreSlot desc.dest a64X0) : A64M Unit) c := by
    have hunfold : emitPlainCall host apple desc callee args c = (do
        emitSpAdjust true (callStackBytes apple (directCallUsesExternalFpAbi c desc callee)
          args).toNat
        emitCallArgs host apple (directCallUsesExternalFpAbi c desc callee) args
        emitLoadOperand host callee a64X16
        emitU32 (.blr a64X16)
        emitSpAdjust false (callStackBytes apple (directCallUsesExternalFpAbi c desc callee)
          args).toNat
        invalidateCachedGprs
        emitCallResult desc (directCallUsesExternalFpAbi c desc callee).useFpAbi) c := rfl
    have hfp : emitCallArgs host apple ⟨true, false, k⟩ args = emitArgs host {} args := by
      simp [emitCallArgs]
    rw [hunfold, habi, hbytes, hresult, hfp]
    simp only [bind_assoc]
  rw [hwhole]
  generalize hx : (do
    emitSpAdjust true bytes
    emitArgs host {} args
    emitLoadOperand host callee a64X16 : A64M Unit) = x at hpre ⊢
  generalize hy : (do
    emitSpAdjust false bytes
    invalidateCachedGprs
    emitStoreSlot desc.dest a64X0 : A64M Unit) = y at hpost ⊢
  obtain ⟨hgrows, pre, hcode, hplain⟩ := hpre.step c
  obtain ⟨hgrows', post, hcode', -⟩ := hpost.step (emitU32 (.blr a64X16) (x c).2).2
  refine ⟨pre, post, ?_, ?_, ?_⟩
  · change (y (emitU32 (.blr a64X16) (x c).2).2).2.code = _
    change (y (emitU32 (.blr a64X16) (x c).2).2).2.code = _ at hcode'
    change (x c).2.code = c.code ++ pre at hcode
    have hblr : (emitU32 (.blr a64X16) (x c).2).2.code = (x c).2.code ++ [.blr a64X16] := rfl
    change _ = (emitU32 (.blr a64X16) (x c).2).2.code ++ post at hcode'
    rw [hcode', hblr, hcode, List.append_assoc, List.append_assoc, List.append_assoc]
    rfl
  · intro inst hmem
    simpa [target] using hplain inst hmem
  · have hblr : Grows true (x c).2 (emitU32 (.blr a64X16) (x c).2).2 :=
      ⟨fun _ _ hv => ⟨hv, rfl⟩, rfl, rfl, rfl, rfl⟩
    exact (Grows.trans hgrows hblr).trans hgrows'

/-- A minimum or maximum of narrow integers is a call of a function that is not there. -/
theorem not_insensitive_minmax (h : ¬ 32 ≤ t.bits) :
    ¬ Insensitive (.minmax kind t) := by
  intro hright
  generalize hargs : [sampleOp 1 t, sampleOp 2 t] = args at *
  generalize hcallee : LrOperand.mk (.global 0) none 0 = callee at *
  generalize hdesc : sampleInst .call t.kind (callee :: args) = desc at *
  have hencodes : (IntInst.minmax kind t).Encodes (sampleCtx (minmaxName kind t)).mod desc args := by
    subst hdesc hcallee hargs
    exact ⟨.cons ⟨0, rfl⟩ (.cons ⟨0, rfl⟩ .nil), rfl, ⟨0, rfl⟩, 0, none, 0, rfl, rfl⟩
  obtain ⟨emit, hemit, hlands⟩ := hright sampleHost false sampleEnv (fun _ _ _ => False) _ desc args
    hencodes
  have hcall : emit = emitCall sampleHost false desc callee args := by
    subst hdesc
    exact (Option.some.inj hemit).symm
  have habi : directCallUsesExternalFpAbi (sampleCtx (minmaxName kind t)) desc callee =
      ⟨true, false, 0⟩ := by
    subst hdesc hcallee
    rfl
  have htype : t.Is desc.type := by
    subst hdesc
    exact ⟨0, rfl⟩
  obtain ⟨pre, post, hcode, hplain, hgrows⟩ := emitPlainCall_code htype habi
  rw [← emitCall_narrow h (by rw [← hcallee]), ← hcall] at hcode hgrows
  obtain ⟨h0, h1, -⟩ := sample_holds hgrows 0 0 0 t t t
  have hoperands : Operands (slotOff (emit (sampleCtx (minmaxName kind t))).2)
      (sampleCtx (minmaxName kind t)) (sampleState 0 0 0) (IntInst.minmax kind t).operandTypes args
      [0, 0] := by
    subst hargs
    exact ⟨holds_narrow h0 _, holds_narrow h1 _, trivial⟩
  obtain ⟨⟨σ', hrun⟩, -⟩ := hlands (sampleState 0 0 0) [0, 0] _ hoperands rfl
  generalize hat : (sampleCtx (minmaxName kind t)).code.length = pc at *
  have hcall16 : (emit (sampleCtx (minmaxName kind t))).2.code[pc + pre.length]? =
      some (.blr a64X16) := by
    rw [hcode, List.append_assoc, List.getElem?_append_right (by omega), hat]
    simp
  have hbound := runs_before_call (fun _ _ _ h => h) ?_ hcall16 hrun
  · rw [hcode] at hbound
    simp [hat] at hbound
  · intro i hi
    refine ⟨pre[i], ?_, hplain _ (List.getElem_mem hi)⟩
    rw [hcode, List.append_assoc, List.getElem?_append_right (by omega), hat,
      Nat.add_sub_cancel_left, List.getElem?_append_left hi, List.getElem?_eq_getElem hi]

theorem not_insensitive_of_not_sound (h : inst.sound = false) :
    ¬ Insensitive inst := by
  have hnarrow : ∀ t : IntTy, (t == .i32 || t == .i64) = false → ¬ 32 ≤ t.bits := by
    intro t ht hwide
    cases t <;> first | exact absurd ht (by decide) | exact absurd hwide (by decide)
  cases inst with
  | icmp | zext | sext | trunc => cases h
  | select t => exact not_insensitive_select t
  | toFp signed t isDouble =>
    cases signed with
    | true => exact not_insensitive_sitofp isDouble (hnarrow t h)
    | false => cases h
  | minmax kind t => exact not_insensitive_minmax (hnarrow t h)
  | binary op t =>
    cases op with
    | add | sub | mul | and | or | xor | sdiv | srem => cases h
    | shl =>
      cases t with
      | i8 | i16 | i32 | i64 => cases h
      | i1 =>
        exact not_insensitive_binary _ (f := shift .lsl) 1 2 1 rfl (fun _ _ _ => rfl)
          (by decide) (by decide)
    | lshr =>
      cases t with
      | i32 | i64 => cases h
      | i1 =>
        exact not_insensitive_binary _ (f := shift .lsr) 1 2 1 rfl (fun _ _ _ => rfl)
          (by decide) (by decide)
      | i8 =>
        exact not_insensitive_binary _ (f := shift .lsr) 0x180 1 0x40 rfl
          (fun _ _ _ => rfl) (by decide) (by decide)
      | i16 =>
        exact not_insensitive_binary _ (f := shift .lsr) 0x18000 1 0x4000 rfl
          (fun _ _ _ => rfl) (by decide) (by decide)
    | ashr =>
      cases t with
      | i32 | i64 => cases h
      | i1 =>
        exact not_insensitive_binary _ (f := shift .asr) 1 2 1 rfl (fun _ _ _ => rfl)
          (by decide) (by decide)
      | i8 =>
        exact not_insensitive_binary _ (f := shift .asr) 0x80 1 0xC0 rfl
          (fun _ _ _ => rfl) (by decide) (by decide)
      | i16 =>
        exact not_insensitive_binary _ (f := shift .asr) 0x8000 1 0xC000 rfl
          (fun _ _ _ => rfl) (by decide) (by decide)
    | udiv =>
      cases t with
      | i32 | i64 => cases h
      | i1 => exact not_insensitive_division false 1 3 1 rfl (by decide) (by decide)
      | i8 => exact not_insensitive_division false 1 0x101 1 rfl (by decide) (by decide)
      | i16 => exact not_insensitive_division false 1 0x10001 1 rfl (by decide) (by decide)
    | urem =>
      cases t with
      | i32 | i64 => cases h
      | i1 => exact not_insensitive_division true 1 3 0 rfl (by decide) (by decide)
      | i8 => exact not_insensitive_division true 1 0x101 0 rfl (by decide) (by decide)
      | i16 => exact not_insensitive_division true 1 0x10001 0 rfl (by decide) (by decide)

/-- The code of a conditional branch reaches the branch to the block that LLVM selects,
whatever is above the condition. -/
def BranchInsensitive : Prop :=
  ∀ (host : A64Host) (env : Env) (calls : Calls) (c : A64Ctx) (cond : LrOperand)
    (trueId falseId blockId : Nat),
    c.deferred = some ⟨.condbr, [cond, lrOpBlock trueId, lrOpBlock falseId], blockId⟩ →
    ∀ (σ : State) (a : BitVec 64),
      Holds (slotOff (emitLoadOperand host cond a64X9 c).2) 3 c σ cond (a.setWidth 1) →
      ∃ fixup ∈ (flushDeferredTerminator host c).2.fixups.drop c.fixups.length,
        fixup.target = (if a.setWidth 1 = 1 then trueId else falseId) ∧
          ∃ σ', Runs env calls (flushDeferredTerminator host c).2.code (c.code.length, σ)
            (fixup.insnPos, σ')

/-- A branch on the value in the first slot. -/
def sampleBranch : A64Ctx :=
  { sampleCtx [] with
    deferred := some ⟨.condbr, [sampleOp 1 .i1, lrOpBlock 1, lrOpBlock 2], 0⟩ }

/-- The condition is loaded and its low half is tested. -/
def sampleBranchCode : List Inst :=
  [.ldur 8 9 29 (-8), .andsReg false 9 9, .bcond a64CondNe 2, .b 0, .b 0]

theorem sampleBranch_flush :
    (flushDeferredTerminator sampleHost sampleBranch).2.code = sampleBranchCode ∧
      (flushDeferredTerminator sampleHost sampleBranch).2.fixups =
        [⟨3, none, 2, 0⟩, ⟨4, none, 1, 0⟩] := ⟨by decide, by decide⟩

/-- From a condition whose low bit is clear and whose next bit is set, the code goes to the
branch of the true edge and stays there. -/
theorem sampleBranch_runs {σ : State} (hload : load σ.mem (σ.x 29 + (-8 : BitVec 9).signExtend 64) 8 = 2)
    {next : Nat × State} (h : Runs sampleEnv (fun _ _ _ => False) sampleBranchCode (0, σ) next) :
    next = (0, σ) ∨ (next.1 = 1 ∧ next.2.x 9 = 2) ∨ (next.1 = 2 ∧ next.2.flags.z = false) ∨
      next.1 = 4 := by
  induction h with
  | refl => exact Or.inl rfl
  | @tail mid last _ hstep ih =>
    rcases ih with rfl | ⟨hpc, hx⟩ | ⟨hpc, hz⟩ | hpc
    · rw [step_plain rfl rfl hstep]
      refine Or.inr (Or.inl ⟨rfl, ?_⟩)
      rw [exec, setX_x _ (by decide)]
      exact hload
    · obtain ⟨pc, τ⟩ := mid
      obtain rfl : pc = 1 := hpc
      rw [step_plain rfl rfl hstep]
      refine Or.inr (Or.inr (Or.inl ⟨rfl, ?_⟩))
      simp only at hx
      simp [exec, andFlags, State.getX, hx]
    · obtain ⟨pc, τ⟩ := mid
      obtain rfl : pc = 2 := hpc
      refine Or.inr (Or.inr (Or.inr ?_))
      cases hstep with
      | next hat hnext =>
        cases hat
        cases hnext
      | b hat _ | blr hat _ => cases hat
      | bcond hat htarget =>
        cases hat
        have htaken : condHolds a64CondNe τ.flags = true := by
          change (!τ.flags.z) = true
          rw [show τ.flags.z = false from hz]
          rfl
        have himm : (2 : BitVec 19).toInt = 2 := by decide
        rw [htaken, if_pos rfl, himm] at htarget
        simp only
        omega
    · obtain ⟨pc, τ⟩ := mid
      obtain rfl : pc = 4 := hpc
      refine Or.inr (Or.inr (Or.inr ?_))
      cases hstep with
      | next hat hnext =>
        cases hat
        cases hnext
      | bcond hat _ | blr hat _ => cases hat
      | b hat htarget =>
        cases hat
        have himm : (0 : BitVec 26).toInt = 0 := by decide
        rw [himm] at htarget
        simp only
        omega

theorem not_branchInsensitive : ¬ BranchInsensitive := by
  intro h
  obtain ⟨hcode, hfixups⟩ := sampleBranch_flush
  have happ : Appends (target sampleEnv true) (emitLoadOperand sampleHost (sampleOp 1 .i1) a64X9) :=
    appends_emitLoadOperand ..
  obtain ⟨hload, -, -⟩ := sampleState_load 2 0 0
  have hgrows := (happ.step sampleBranch).1
  have hcond : Holds (slotOff (emitLoadOperand sampleHost (sampleOp 1 .i1) a64X9 sampleBranch).2) 3
      sampleBranch (sampleState 2 0 0) (sampleOp 1 .i1) (2 : BitVec 64) := by
    have hx9 : sampleBranch.x9HoldsVreg ≠ 1 ∧ sampleBranch.x10HoldsVreg ≠ 1 := ⟨by decide, by decide⟩
    exact holds_slot hgrows (by decide) (Or.inr ⟨by decide, by decide⟩) rfl hx9.1 hx9.2 hload
  obtain ⟨fixup, hmem, htarget, σ', hrun⟩ := h sampleHost sampleEnv (fun _ _ _ => False) sampleBranch
    (sampleOp 1 .i1) 1 2 0 rfl (sampleState 2 0 0) 2 (holds_narrow hcond _)
  rw [hfixups] at hmem
  rw [hcode] at hrun
  have hfalse : fixup.target = 2 := htarget
  have hpos : fixup.insnPos = 3 := by
    have hmem' : fixup ∈ [A64Fixup.mk 3 none 2 0, A64Fixup.mk 4 none 1 0] := hmem
    simp only [List.mem_cons, List.not_mem_nil, or_false] at hmem'
    rcases hmem' with rfl | rfl
    · rfl
    · cases hfalse
  have hreach := sampleBranch_runs hload hrun
  rw [hpos] at hreach
  rcases hreach with heq | ⟨heq, -⟩ | ⟨heq, -⟩ | heq <;> cases heq

/-- The instructions on integers: those with a result, and the conditional branch. -/
inductive IntCode where
  | value (inst : IntInst)
  | condbr
  deriving DecidableEq

def IntCode.Insensitive : IntCode → Prop
  | value inst => IntegerWidths.Insensitive inst
  | condbr => BranchInsensitive

def IntCode.sound : IntCode → Bool
  | value inst => inst.sound
  | condbr => false

/-- Exactly the sound instructions compute what LLVM computes, whatever is above their
operands. -/
theorem insensitive_iff_sound (code : IntCode) : code.Insensitive ↔ code.sound = true := by
  cases code with
  | condbr => exact ⟨fun h => absurd h not_branchInsensitive, fun h => nomatch h⟩
  | value inst =>
    constructor
    · intro h
      cases hsound : inst.sound with
      | true => exact hsound
      | false => exact absurd h (not_insensitive_of_not_sound hsound)
    · exact insensitive_of_sound

def sampleShift : LrInst := sampleInst .lshr .i8 [sampleOp 1 .i8, sampleOp 2 .i8]

def sampleShiftCode : A64M Unit :=
  emitBinary sampleHost sampleShift (sampleOp 1 .i8) (sampleOp 2 .i8) fun is64 =>
    encLsrv is64 a64X9 a64X9 a64X10

/-- `lshr i8` of 0x80 by 1, with the bit above the byte set: the bit is shifted in. -/
theorem lshr_shifts_garbage_in :
    let c := sampleCtx []
    let c' := (sampleShiftCode c).2
    (IntInst.binary .lshr .i8).Encodes c.mod sampleShift sampleShift.operands ∧
      emitInst sampleHost false sampleShift = some sampleShiftCode ∧
      Operands (slotOff c') c (sampleState 0x180 1 0) [.i8, .i8] sampleShift.operands [0x180, 1] ∧
      (IntInst.binary .lshr .i8).meaning [0x180, 1] = some 0x40 ∧
      Lands sampleEnv (fun _ _ _ => False) c c' (sampleState 0x180 1 0) (fun σ' =>
        (slotValue c' σ' sampleShift.dest).setWidth 8 = (0xC0 : BitVec 8)) ∧
      ¬ ∀ code : IntCode, code.Insensitive := by
  intro c c'
  have hexec : ∀ env is64 σ, exec env (encLsrv is64 a64X9 a64X9 a64X10) σ =
      σ.setX 9 (atWidth is64 (shift .lsr) (σ.x 9) (σ.x 10)) := fun _ _ _ => rfl
  have happ : Appends (target sampleEnv true) sampleShiftCode := appends_emitBinary sampleHost
  have hext := happ.step c
  refine ⟨⟨.cons ⟨0, rfl⟩ (.cons ⟨0, rfl⟩ .nil), rfl, ⟨0, rfl⟩, rfl⟩, rfl, ?_, by decide, ?_, ?_⟩
  · obtain ⟨h0, h1, -⟩ := sample_holds hext.1 0x180 1 0 .i8 .i8 .i8
    exact ⟨holds_narrow h0 _, holds_narrow h1 _, trivial⟩
  · have hemits : Emits (target sampleEnv true) (Fits (slotOff c')) sampleShiftCode c
        (sampleState 0x180 1 0) fun _ c' σ' =>
          (slotValue c' σ' sampleShift.dest).setWidth 8 = (0xC0 : BitVec 8) := by
      apply (emits_sampleBinary hexec hext.1 0x180 1).mono
      intro _ c' σ' _ hslot
      rw [show slotValue c' σ' sampleShift.dest = _ from hslot]
      decide
    exact lands_of_emits _ hext hemits
  · intro h
    exact not_insensitive_binary .lshr (t := .i8) (f := shift .lsr) 0x180 1 0x40 rfl hexec (by decide) (by decide) (h (.value (.binary .lshr .i8)))

end Liric.Guarantees.IntegerWidths
