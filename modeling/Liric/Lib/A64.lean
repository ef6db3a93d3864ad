import Mathlib.Data.BitVec
import Mathlib.Tactic.IntervalCases

/-!
# A64 code

The instructions of the A64 set that a simple code generator needs, what they do to
the registers, the flags and the memory, and runs of a program. Register 31 is the stack
pointer where an instruction adds an immediate or addresses memory and zero
elsewhere. The arithmetic of floating point numbers and the addresses that a linker
fills in are parameters.
-/
namespace Liric.Lib.A64
open BitVec List

variable {k n pc : Nat} {d : BitVec 32}

abbrev Reg := Fin 32

inductive LogicOp where
  | and | orr | eor
  deriving DecidableEq

inductive ShiftOp where
  | lsl | lsr | asr
  deriving DecidableEq

inductive FpOp where
  | fadd | fsub | fmul | fdiv
  deriving DecidableEq

inductive Inst where
  | addImm (sub is64 : Bool) (rd rn : Reg) (imm12 : BitVec 12)
  | addReg (sub is64 : Bool) (rd rn rm : Reg)
  | logicReg (op : LogicOp) (is64 : Bool) (rd rn rm : Reg)
  | subsReg (is64 : Bool) (rn rm : Reg)
  | andsReg (is64 : Bool) (rn rm : Reg)
  | madd (sub is64 : Bool) (rd rn rm ra : Reg)
  | div (signed is64 : Bool) (rd rn rm : Reg)
  | shiftv (op : ShiftOp) (is64 : Bool) (rd rn rm : Reg)
  | csel (is64 : Bool) (rd rn rm : Reg) (cond : BitVec 4)
  | movz (is64 : Bool) (rd : Reg) (imm16 : BitVec 16) (hw : BitVec 2)
  | movk (is64 : Bool) (rd : Reg) (imm16 : BitVec 16) (hw : BitVec 2)
  | ldur (size : Nat) (rt rn : Reg) (imm9 : BitVec 9)
  | stur (size : Nat) (rt rn : Reg) (imm9 : BitVec 9)
  /-- `SBFM Xd, Xn, #0, #imms`: bit `imms` is copied into all higher ones. -/
  | sbfm (rd rn : Reg) (imms : BitVec 6)
  /-- The page is filled in by relocation. -/
  | adrp (rd : Reg)
  /-- The page offset is filled in by relocation. -/
  | addLo (rd rn : Reg)
  /-- The page offset is filled in by relocation. -/
  | ldrLo (rt rn : Reg)
  | b (imm26 : BitVec 26)
  | bcond (cond : BitVec 4) (imm19 : BitVec 19)
  | blr (rn : Reg)
  | ret
  /-- `STP X29, X30, [SP, #-16]!`. -/
  | stpFrame
  /-- `LDP X29, X30, [SP], #16`. -/
  | ldpFrame
  | fpLdur (size : Nat) (ft rn : Reg) (imm9 : BitVec 9)
  | fpStur (size : Nat) (ft rn : Reg) (imm9 : BitVec 9)
  | fpArith (op : FpOp) (isDouble : Bool) (rd rn rm : Reg)
  | fneg (isDouble : Bool) (rd rn : Reg)
  | fcmp (isDouble : Bool) (rn rm : Reg)
  /-- `SCVTF` and `UCVTF` from a 64-bit register. -/
  | cvtf (signed isDouble : Bool) (fd xn : Reg)
  /-- `FCVTZS` and `FCVTZU` into a 64-bit register. -/
  | fcvtz (signed isDouble : Bool) (xd fn : Reg)
  /-- `FCVT` between the two precisions. -/
  | fcvt (toDouble : Bool) (fd fn : Reg)
  | fmovFromGpr (isDouble : Bool) (fd xn : Reg)
  deriving DecidableEq

/-- Instructions that may be followed by another one than the next. -/
def Inst.isControl : Inst → Bool
  | .b _ | .bcond _ _ | .blr _ | .ret => true
  | _ => false

structure Flags where
  n : Bool
  z : Bool
  c : Bool
  v : Bool
  deriving DecidableEq

abbrev Mem := BitVec 64 → BitVec 8

structure State where
  /-- Number 31 is the stack pointer. -/
  x : Reg → BitVec 64
  d : Reg → BitVec 64
  flags : Flags
  mem : Mem

namespace State

variable (σ : State)

/-- A register where number 31 reads as zero. -/
def getX (r : Reg) : BitVec 64 := if r = 31 then 0 else σ.x r

/-- A register where number 31 is the stack pointer. -/
def getSp (r : Reg) : BitVec 64 := σ.x r

def setX (r : Reg) (v : BitVec 64) : State :=
  if r = 31 then σ else { σ with x := Function.update σ.x r v }

def setSp (r : Reg) (v : BitVec 64) : State :=
  { σ with x := Function.update σ.x r v }

def setD (r : Reg) (v : BitVec 64) : State :=
  { σ with d := Function.update σ.d r v }

@[simp] theorem getX_of_ne {r : Reg} (h : r ≠ 31) : σ.getX r = σ.x r := if_neg h

theorem setX_of_ne {r : Reg} (h : r ≠ 31) (v : BitVec 64) :
    σ.setX r v = { σ with x := Function.update σ.x r v } := if_neg h

end State

/-- The `n` bytes from an address on, the lowest first, with zeros above. -/
def load (mem : Mem) (a : BitVec 64) (n : Nat) : BitVec 64 :=
  (BitVec.ofBoolListLE ((range 64).map fun i =>
    i < 8 * n && (mem (a + BitVec.ofNat 64 (i / 8))).getLsbD (i % 8))).setWidth 64

/-- The `n` low bytes of `v` from an address on. -/
def store (mem : Mem) (a : BitVec 64) (n : Nat) (v : BitVec 64) : Mem := fun b =>
  if (b - a).toNat < n then v.extractLsb' (8 * (b - a).toNat) 8 else mem b

@[simp] theorem getLsbD_load (mem : Mem) (a : BitVec 64) (n i : Nat) :
    (load mem a n).getLsbD i = (decide (i < 64) && (decide (i < 8 * n) &&
      (mem (a + BitVec.ofNat 64 (i / 8))).getLsbD (i % 8))) := by
  rw [load, getLsbD_setWidth, getLsbD_ofBoolListLE]
  by_cases h : i < 64
  · simp [h]
  · simp [h]

theorem sub_add_ofNat (a : BitVec 64) (hk : k < 2 ^ 64) :
    (a + BitVec.ofNat 64 k - a).toNat = k := by
  rw [BitVec.add_comm, add_sub_cancel, toNat_ofNat, Nat.mod_eq_of_lt hk]

/-- What was stored is read back, as far as it was stored. -/
theorem load_store (mem : Mem) (a : BitVec 64) (hn : n ≤ 8) (v : BitVec 64) :
    (load (store mem a n v) a 8).setWidth (8 * n) = v.setWidth (8 * n) := by
  apply eq_of_getLsbD_eq
  intro i hi
  have hbyte : i / 8 < n := by omega
  have hoff : (a + BitVec.ofNat 64 (i / 8) - a).toNat = i / 8 := sub_add_ofNat a (by omega)
  have hindex : 8 * (i / 8) + i % 8 = i := Nat.div_add_mod i 8
  have hbit : i % 8 < 8 := Nat.mod_lt _ (by decide)
  have hwide : i < 64 := by omega
  rw [getLsbD_setWidth, getLsbD_setWidth, getLsbD_load, store, hoff, if_pos hbyte,
    getLsbD_extractLsb', hindex]
  simp [hbit, hwide]

theorem load_store_word (mem : Mem) (a v : BitVec 64) : load (store mem a 8 v) a 8 = v := by
  have h := load_store mem a (n := 8) (by decide) v
  simpa using h

/-- What is stored elsewhere is not read. -/
theorem load_store_of_apart (mem : Mem) {a b : BitVec 64} (v : BitVec 64)
    (h : ∀ i < 8, n ≤ (b + BitVec.ofNat 64 i - a).toNat) :
    load (store mem a n v) b 8 = load mem b 8 := by
  apply eq_of_getLsbD_eq
  intro i hi
  have hfar := h (i / 8) (by omega)
  rw [getLsbD_load, getLsbD_load, store, if_neg (Nat.not_lt.2 hfar)]

/-- The result of an operation at the width of the instruction; a write of 32 bits clears
the upper half. -/
def atWidth (is64 : Bool) (f : ∀ w, BitVec w → BitVec w → BitVec w) (a b : BitVec 64) : BitVec 64 :=
  if is64 then f 64 a b else (f 32 (a.setWidth 32) (b.setWidth 32)).setWidth 64

def addSub (sub : Bool) (w : Nat) (a b : BitVec w) : BitVec w := if sub then a - b else a + b

def logic (op : LogicOp) (w : Nat) (a b : BitVec w) : BitVec w :=
  match op with
  | .and => a &&& b
  | .orr => a ||| b
  | .eor => a ^^^ b

/-- The amount of a shift counts modulo the width. -/
def shift (op : ShiftOp) (w : Nat) (a b : BitVec w) : BitVec w :=
  match op with
  | .lsl => a <<< (b.toNat % w)
  | .lsr => a >>> (b.toNat % w)
  | .asr => a.sshiftRight (b.toNat % w)

/-- A quotient by zero is zero. -/
def quotient (signed : Bool) (w : Nat) (a b : BitVec w) : BitVec w :=
  if signed then a.sdiv b else a / b

def subFlags {w : Nat} (a b : BitVec w) : Flags where
  n := (a - b).msb
  z := a - b = 0
  c := b.toNat ≤ a.toNat
  v := (a - b).toInt ≠ a.toInt - b.toInt

def andFlags {w : Nat} (a b : BitVec w) : Flags := ⟨(a &&& b).msb, a &&& b = 0, false, false⟩

def condHolds (cond : BitVec 4) (f : Flags) : Bool :=
  match cond.toNat with
  | 0 => f.z
  | 1 => !f.z
  | 2 => f.c
  | 3 => !f.c
  | 4 => f.n
  | 5 => !f.n
  | 6 => f.v
  | 7 => !f.v
  | 8 => f.c && !f.z
  | 9 => !f.c || f.z
  | 10 => f.n == f.v
  | 11 => f.n != f.v
  | 12 => !f.z && f.n == f.v
  | 13 => f.z || f.n != f.v
  | _ => true

/-- One halfword of a register replaced. -/
def insertHalf (v : BitVec 64) (imm16 : BitVec 16) (hw : BitVec 2) : BitVec 64 :=
  (v &&& ~~~(0xFFFF#64 <<< (16 * hw.toNat))) ||| (imm16.setWidth 64 <<< (16 * hw.toNat))

/-- The halfword behind the low bits of a number. -/
theorem insertHalf_low (v : BitVec 64) (hk : k < 4) :
    insertHalf ((v.setWidth (16 * k)).setWidth 64) (v.extractLsb' (16 * k) 16) (BitVec.ofNat 2 k) =
      (v.setWidth (16 * (k + 1))).setWidth 64 := by
  apply eq_of_getLsbD_eq
  intro i hi
  have hmod : (BitVec.ofNat 2 k).toNat = k := by
    rw [toNat_ofNat]
    omega
  simp only [insertHalf, hmod, getLsbD_or, getLsbD_and, getLsbD_not,
    getLsbD_shiftLeft, getLsbD_setWidth, getLsbD_extractLsb']
  interval_cases k <;> interval_cases i <;> simp

/-- `n` without its `k` low bits, rounded to the nearest, ties to even. -/
def roundShift (n k : Nat) : Nat :=
  let q := n / 2 ^ k
  if n % 2 ^ k * 2 > 2 ^ k ∨ (n % 2 ^ k * 2 = 2 ^ k ∧ q % 2 = 1) then q + 1 else q

/-- The bits of the floating point number next to a nonzero number: `fraction` bits of
fraction, then the exponent. -/
def floatOfNat (fraction bias n : Nat) : Nat :=
  let e := n.log2
  let significand := if e ≤ fraction then n * 2 ^ (fraction - e) else roundShift n (e - fraction)
  (e + bias) * 2 ^ fraction + (significand - 2 ^ fraction)

/-- The bits of the floating point number next to an integer, in single or double
precision. -/
def floatOfInt (isDouble : Bool) (v : Int) : BitVec 64 :=
  if v = 0 then 0
  else
    let sign := if v < 0 then 1 else 0
    if isDouble then BitVec.ofNat 64 (sign * 2 ^ 63 + floatOfNat 52 1023 v.natAbs)
    else BitVec.ofNat 64 (sign * 2 ^ 31 + floatOfNat 23 127 v.natAbs)

theorem insertHalf_zero (v : BitVec 64) (hk : k < 4) :
    insertHalf ((v.setWidth (16 * k)).setWidth 64) 0 (BitVec.ofNat 2 k) =
      (v.setWidth (16 * k)).setWidth 64 := by
  apply eq_of_getLsbD_eq
  intro i hi
  have hmod : (BitVec.ofNat 2 k).toNat = k := by
    rw [toNat_ofNat]
    omega
  simp only [insertHalf, hmod, getLsbD_or, getLsbD_and, getLsbD_not,
    getLsbD_shiftLeft, getLsbD_setWidth]
  interval_cases k <;> interval_cases i <;> simp

/-- A displacement that fits the field of an access. -/
theorem signExtend_setWidth {w v : Nat} {d : BitVec w} (hn : 0 < n) (hw : n ≤ w) (hv : w ≤ v)
    (hlow : -2 ^ (n - 1) ≤ d.toInt) (hhigh : d.toInt < 2 ^ (n - 1)) :
    (d.setWidth n).signExtend v = d.signExtend v := by
  apply eq_of_toInt_eq
  rw [toInt_signExtend_of_le (by omega), toInt_signExtend_of_le hv]
  have h : d.setWidth n = BitVec.ofInt n d.toInt := by
    apply eq_of_toInt_eq
    rw [toInt_setWidth, toInt_ofInt, toInt_eq_toNat_bmod, Int.bmod_bmod_of_dvd]
    exact_mod_cast pow_dvd_pow 2 hw
  rw [h, toInt_ofInt_eq_self hn hlow hhigh]

/-- A displacement that is added as an immediate. -/
theorem setWidth_of_small (hlow : 0 ≤ d.toInt) (hhigh : d.toInt ≤ 4095) :
    (d.setWidth 12).setWidth 64 = d.signExtend 64 := by
  have h : d.toInt = d.toNat := by
    rw [toInt_eq_toNat_cond] at *
    split at hlow <;> omega
  apply eq_of_toNat_eq
  have hmsb : d.msb = false := by
    rw [msb_eq_toInt]
    simp; omega
  rw [signExtend_eq_setWidth_of_msb_false hmsb]
  simp only [toNat_setWidth]
  omega

/-- A displacement that is subtracted as an immediate. -/
theorem sub_neg_of_small (x : BitVec 64) (hlow : -4095 ≤ d.toInt) (hhigh : d.toInt < 0) :
    x - ((-d).setWidth 12).setWidth 64 = x + d.signExtend 64 := by
  have hneg : (-d).toInt = -d.toInt := by
    rw [toInt_neg]
    rw [Int.bmod_eq_of_le (by simp; omega) (by simp; omega)]
  rw [setWidth_of_small (by omega) (by omega), BitVec.sub_eq_add_neg]
  congr 1
  apply eq_of_toInt_eq
  rw [toInt_neg, toInt_signExtend_of_le (by omega), toInt_signExtend_of_le (by omega), hneg]
  rw [Int.bmod_eq_of_le (by simp; omega) (by simp; omega)]
  omega

/-- The low bits of a number, extended to a register. -/
def extend (signed : Bool) (bits : Nat) (v : BitVec 64) : BitVec 64 :=
  if signed then (v.setWidth bits).signExtend 64 else (v.setWidth bits).setWidth 64

/-- All but the low bits shifted out, and zeros in. -/
theorem shl_ushr (p : BitVec 64) {b : Nat} (hb : 0 < b) (hw : b ≤ 64) :
    (p <<< (64 - b)) >>> (64 - b) = (p.setWidth b).setWidth 64 := by
  apply eq_of_getLsbD_eq
  intro i hi
  simp only [getLsbD_ushiftRight, getLsbD_shiftLeft, getLsbD_setWidth]
  have h : 64 - b + i - (64 - b) = i := by omega
  have h1 : ¬ (64 - b + i < 64 - b) := by omega
  rw [h]
  by_cases hib : i < b
  · have : 64 - b + i < 64 := by omega
    simp [*]
  · have : ¬ 64 - b + i < 64 := by omega
    simp [*]

/-- All but the low bits shifted out, and copies of the highest of them in. -/
theorem shl_sshr (p : BitVec 64) {b : Nat} (hb : 0 < b) (hw : b ≤ 64) :
    (p <<< (64 - b)).sshiftRight (64 - b) = (p.setWidth b).signExtend 64 := by
  apply eq_of_getLsbD_eq
  intro i hi
  simp only [getLsbD_sshiftRight, getLsbD_signExtend, msb_eq_getLsbD_last,
    getLsbD_shiftLeft, getLsbD_setWidth]
  have h : 64 - b + i - (64 - b) = i := by omega
  have h1 : ¬ (64 - b + i < 64 - b) := by omega
  have h2 : 64 - 1 - (64 - b) = b - 1 := by omega
  have h3 : ¬ (64 - 1 < 64 - b) := by omega
  have h4 : b - 1 < b := by omega
  have h5 : ¬ 64 ≤ i := by omega
  rw [h, h2]
  by_cases hib : i < b
  · have : 64 - b + i < 64 := by omega
    simp [*]
  · have : ¬ 64 - b + i < 64 := by omega
    simp [*]

theorem subFlags_z {w : Nat} (a b : BitVec w) : (subFlags a b).z = decide (a = b) := by
  have h : a - b = 0 ↔ a = b := sub_eq_zero
  unfold subFlags
  simp only [h]

/-- After a subtraction the sign is wrong only on overflow. -/
theorem subFlags_lt {w : Nat} (a b : BitVec w) :
    ((subFlags a b).n != (subFlags a b).v) = decide (a.toInt < b.toInt) := by
  have ha := a.two_mul_toInt_lt
  have ha' := a.le_two_mul_toInt
  have hb := b.two_mul_toInt_lt
  have hb' := b.le_two_mul_toInt
  have hn : (subFlags a b).n = decide ((a - b).toInt < 0) := msb_eq_toInt
  have hv : (subFlags a b).v = decide ((a - b).toInt ≠ a.toInt - b.toInt) := rfl
  rw [hn, hv, toInt_sub]
  have hcast : ((2 ^ w : Nat) : Int) = 2 ^ w := by norm_cast
  generalize 2 ^ w = m at *
  by_cases hhigh : (m : Int) ≤ (a.toInt - b.toInt) * 2
  · have hmod : (a.toInt - b.toInt).bmod m = a.toInt - b.toInt - m := by
      rw [← Int.sub_bmod_right]
      exact Int.bmod_eq_of_le_mul_two (by omega) (by omega)
    rw [hmod, Bool.eq_iff_iff]
    simp
    omega
  · by_cases hlow : (a.toInt - b.toInt) * 2 < -m
    · have hmod : (a.toInt - b.toInt).bmod m = a.toInt - b.toInt + m := by
        rw [← Int.add_bmod_right]
        exact Int.bmod_eq_of_le_mul_two (by omega) (by omega)
      rw [hmod, Bool.eq_iff_iff]
      simp
      omega
    · have hmod : (a.toInt - b.toInt).bmod m = a.toInt - b.toInt :=
        Int.bmod_eq_of_le_mul_two (by omega) (by omega)
      rw [hmod, Bool.eq_iff_iff]
      simp
/-- What the instructions compute that are not described here. -/
structure Env where
  /-- The result in a register of floating point arithmetic, and of an address. -/
  result : Inst → State → BitVec 64
  flags : Inst → State → Flags

/-- The effect of an instruction that is followed by the next one. -/
def exec (env : Env) (inst : Inst) (σ : State) : State :=
  match inst with
  | .addImm sub is64 rd rn imm12 =>
    σ.setSp rd (atWidth is64 (addSub sub) (σ.getSp rn) (imm12.setWidth 64))
  | .addReg sub is64 rd rn rm => σ.setX rd (atWidth is64 (addSub sub) (σ.getX rn) (σ.getX rm))
  | .logicReg op is64 rd rn rm => σ.setX rd (atWidth is64 (logic op) (σ.getX rn) (σ.getX rm))
  | .subsReg is64 rn rm =>
    { σ with flags :=
        if is64 then subFlags (σ.getX rn) (σ.getX rm)
        else subFlags ((σ.getX rn).setWidth 32) ((σ.getX rm).setWidth 32) }
  | .andsReg is64 rn rm =>
    { σ with flags :=
        if is64 then andFlags (σ.getX rn) (σ.getX rm)
        else andFlags ((σ.getX rn).setWidth 32) ((σ.getX rm).setWidth 32) }
  | .madd sub is64 rd rn rm ra =>
    σ.setX rd (atWidth is64 (addSub sub) (σ.getX ra)
      (atWidth is64 (fun _ a b => a * b) (σ.getX rn) (σ.getX rm)))
  | .div signed is64 rd rn rm =>
    σ.setX rd (atWidth is64 (quotient signed) (σ.getX rn) (σ.getX rm))
  | .shiftv op is64 rd rn rm => σ.setX rd (atWidth is64 (shift op) (σ.getX rn) (σ.getX rm))
  | .csel is64 rd rn rm cond =>
    σ.setX rd (atWidth is64 (fun _ a b => if condHolds cond σ.flags then a else b)
      (σ.getX rn) (σ.getX rm))
  | .movz _ rd imm16 hw => σ.setX rd (insertHalf 0 imm16 hw)
  | .movk is64 rd imm16 hw =>
    let v := if is64 then σ.getX rd else ((σ.getX rd).setWidth 32).setWidth 64
    σ.setX rd (insertHalf v imm16 hw)
  | .ldur size rt rn imm9 => σ.setX rt (load σ.mem (σ.getSp rn + imm9.signExtend 64) size)
  | .stur size rt rn imm9 =>
    { σ with mem := store σ.mem (σ.getSp rn + imm9.signExtend 64) size (σ.getX rt) }
  | .sbfm rd rn imms => σ.setX rd (((σ.getX rn).setWidth (imms.toNat + 1)).signExtend 64)
  | .adrp rd | .addLo rd _ | .ldrLo rd _ => σ.setX rd (env.result inst σ)
  | .stpFrame =>
    let sp := σ.x 31 - 16
    { σ.setSp 31 sp with mem := store (store σ.mem sp 8 (σ.x 29)) (sp + 8) 8 (σ.x 30) }
  | .ldpFrame =>
    let sp := σ.x 31
    ((σ.setSp 29 (load σ.mem sp 8)).setSp 30 (load σ.mem (sp + 8) 8)).setSp 31 (sp + 16)
  | .fpLdur size ft rn imm9 => σ.setD ft (load σ.mem (σ.getSp rn + imm9.signExtend 64) size)
  | .fpStur size ft rn imm9 =>
    { σ with mem := store σ.mem (σ.getSp rn + imm9.signExtend 64) size (σ.d ft) }
  | .fpArith _ _ rd _ _ | .fneg _ rd _ | .fcvt _ rd _ => σ.setD rd (env.result inst σ)
  | .fcmp .. => { σ with flags := env.flags inst σ }
  | .cvtf signed isDouble fd xn =>
    σ.setD fd (floatOfInt isDouble (if signed then (σ.getX xn).toInt else (σ.getX xn).toNat))
  | .fcvtz _ _ xd _ => σ.setX xd (env.result inst σ)
  | .fmovFromGpr isDouble fd xn =>
    σ.setD fd (if isDouble then σ.getX xn else ((σ.getX xn).setWidth 32).setWidth 64)
  | .b _ | .bcond _ _ | .blr _ | .ret => σ

/-- The effect of instructions in a row. -/
def execAll (env : Env) (insts : List Inst) (σ : State) : State :=
  insts.foldl (fun σ inst => exec env inst σ) σ

/-- What a call may do: the state in which it returns. -/
abbrev Calls := Reg → State → State → Prop

/-- One step of the program, from the place of an instruction to that of the next one. -/
inductive Step (env : Env) (calls : Calls) (code : List Inst) :
    Nat × State → Nat × State → Prop
  | next {pc : Nat} {σ : State} {inst : Inst} (hat : code[pc]? = some inst)
      (hnext : inst.isControl = false) : Step env calls code (pc, σ) (pc + 1, exec env inst σ)
  | b {pc target : Nat} {σ : State} {imm26 : BitVec 26} (hat : code[pc]? = some (.b imm26))
      (htarget : (target : Int) = pc + imm26.toInt) : Step env calls code (pc, σ) (target, σ)
  | bcond {pc target : Nat} {σ : State} {cond : BitVec 4} {imm19 : BitVec 19}
      (hat : code[pc]? = some (.bcond cond imm19))
      (htarget : (target : Int) =
        if condHolds cond σ.flags then pc + imm19.toInt else pc + 1) :
      Step env calls code (pc, σ) (target, σ)
  | blr {pc : Nat} {σ σ' : State} {rn : Reg} (hat : code[pc]? = some (.blr rn))
      (hcall : calls rn σ σ') : Step env calls code (pc, σ) (pc + 1, σ')

/-- Any number of steps. -/
def Runs (env : Env) (calls : Calls) (code : List Inst) : Nat × State → Nat × State → Prop :=
  Relation.ReflTransGen (Step env calls code)

section Plain
variable {env : Env} {calls : Calls} {code : List Inst}

variable {σ : State} {next : Nat × State}

/-- A plain instruction has one successor. -/
theorem step_plain {inst : Inst} (hat : code[pc]? = some inst)
    (hplain : inst.isControl = false) (h : Step env calls code (pc, σ) next) :
    next = (pc + 1, exec env inst σ) := by
  cases h with
  | next hat' _ =>
    rw [hat] at hat'
    cases hat'
    rfl
  | b hat' _ =>
    rw [hat] at hat'
    cases hat'
    cases hplain
  | bcond hat' _ =>
    rw [hat] at hat'
    cases hat'
    cases hplain
  | blr hat' _ =>
    rw [hat] at hat'
    cases hat'
    cases hplain

section
variable {insts : List Inst} (hplain : ∀ inst ∈ insts, inst.isControl = false)
  (hcode : ∀ i (h : i < insts.length), code[pc + i]? = some insts[i])
include hplain hcode

theorem runs_plain (σ : State) :
    Runs env calls code (pc, σ) (pc + insts.length, execAll env insts σ) := by
  induction insts generalizing pc σ with
  | nil => exact Relation.ReflTransGen.refl
  | cons inst rest ih =>
    have hat : code[pc]? = some inst := hcode 0 (by simp)
    have hrest : Runs env calls code (pc + 1, exec env inst σ)
        (pc + 1 + rest.length, execAll env rest (exec env inst σ)) := by
      apply ih (fun i hi => hplain i (mem_cons_of_mem inst hi))
      intro i hi
      have h := hcode (i + 1) (by simpa using hi)
      rw [← Nat.add_assoc, Nat.add_right_comm] at h
      simpa using h
    have hlen : pc + (inst :: rest).length = pc + 1 + rest.length := by
      rw [length_cons]
      omega
    rw [hlen]
    exact Relation.ReflTransGen.head (Step.next hat (hplain inst mem_cons_self)) hrest

/-- A run of plain code to the end of a program goes through it once. -/
theorem runs_plain_unique (hend : code[pc + insts.length]? = none) {σ' : State}
    (h : Runs env calls code (pc, σ) (pc + insts.length, σ')) : σ' = execAll env insts σ := by
  induction insts generalizing pc σ with
  | nil =>
    cases Relation.ReflTransGen.cases_head h with
    | inl heq =>
      cases heq
      rfl
    | inr hstep =>
      obtain ⟨next, hstep, -⟩ := hstep
      have hnone : code[pc]? = none := hend
      cases hstep with
      | next hat _ | b hat _ | bcond hat _ | blr hat _ =>
        rw [hnone] at hat
        cases hat
  | cons inst rest ih =>
    have hat : code[pc]? = some inst := hcode 0 (by simp)
    have hlen : pc + (inst :: rest).length = pc + 1 + rest.length := by
      rw [length_cons]
      omega
    rw [hlen] at h hend
    cases Relation.ReflTransGen.cases_head h with
    | inl heq =>
      have hpc := congrArg Prod.fst heq
      simp only at hpc
      omega
    | inr hstep =>
      obtain ⟨next, hstep, hrest⟩ := hstep
      rw [step_plain hat (hplain inst mem_cons_self) hstep] at hrest
      refine ih (fun i hi => hplain i (mem_cons_of_mem inst hi)) (fun i hi => ?_) hend hrest
      have h := hcode (i + 1) (by simpa using hi)
      rw [← Nat.add_assoc, Nat.add_right_comm] at h
      simpa using h

end

/-- A run stays before a call that does not return. -/
theorem runs_before_call (hcalls : ∀ r σ σ', ¬ calls r σ σ') {rn : Reg}
    (hplain : ∀ i < k, ∃ inst, code[pc + i]? = some inst ∧ inst.isControl = false)
    (hcall : code[pc + k]? = some (.blr rn))
    (h : Runs env calls code (pc, σ) next) : pc ≤ next.1 ∧ next.1 ≤ pc + k := by
  induction h with
  | refl => exact ⟨Nat.le_refl _, Nat.le_add_right ..⟩
  | @tail mid last _ hstep ih =>
    obtain ⟨at_, τ⟩ := mid
    obtain ⟨hlow, hhigh⟩ : pc ≤ at_ ∧ at_ ≤ pc + k := ih
    have hpos : pc + (at_ - pc) = at_ := by omega
    by_cases hbefore : at_ - pc < k
    · obtain ⟨inst, hat, hinst⟩ := hplain _ hbefore
      rw [hpos] at hat
      rw [step_plain hat hinst hstep]
      simp only
      omega
    · have hat : code[at_]? = some (.blr rn) := by
        rw [← hcall]
        congr 1
        omega
      cases hstep with
      | next hat' hnext =>
        rw [hat] at hat'
        cases hat'
        cases hnext
      | b hat' _ | bcond hat' _ =>
        rw [hat] at hat'
        cases hat'
      | blr _ hret => exact absurd hret (hcalls _ _ _)

end Plain
end Liric.Lib.A64
