import Liric.Source.Target.Riscv64

/-!
# Running RISC-V code

The registers of the machine and what the instructions do to them that the target
emits to move values and to load constants; the results of the others are a parameter.
A single precision value is boxed: its register has ones in the upper half. A sequence
that loads a constant does load it, unless the constant is close to the largest 32-bit
integer.
-/
namespace Liric.Guarantees.RiscvMachine
open Source.Riscv64 BitVec Function

/-- An integer or a floating point register. -/
inductive Loc where
  | x (reg : Reg)
  | f (reg : Reg)
  deriving DecidableEq

abbrev RvState := Loc → BitVec 64

/-- A write to register 0 is lost. -/
def setX (σ : RvState) (rd : Reg) (v : BitVec 64) : RvState :=
  if rd = 0 then σ else update σ (.x rd) v

def getX (σ : RvState) (rs : Reg) : BitVec 64 := if rs = 0 then 0 else σ (.x rs)

/-- A register that is no boxed single precision value reads as a quiet NaN. -/
def unboxSingle (v : BitVec 64) : BitVec 32 :=
  if v.extractLsb' 32 32 = 0xFFFFFFFF then v.setWidth 32 else 0x7FC00000

def boxSingle (v : BitVec 32) : BitVec 64 := (0xFFFFFFFF : BitVec 32) ++ v

/-- `fsgnj` of a register with itself. -/
def moveFp (isDouble : Bool) (v : BitVec 64) : BitVec 64 :=
  if isDouble then v else boxSingle (unboxSingle v)

/-- The results of the instructions that are not described here. -/
abbrev RvArith := RvInst → RvState → BitVec 64

/-- Conversions to integers write an integer register. -/
def writesInt (funct7 : BitVec 7) : Bool := funct7 = 0x60 || funct7 = 0x61

def execInst (arith : RvArith) (inst : RvInst) (σ : RvState) : RvState :=
  match inst with
  | .u imm20 rd _ => setX σ rd ((imm20 ++ (0 : BitVec 12)).signExtend 64)
  | .i imm rs1 funct3 rd opcode =>
    if opcode = rvOpcodeOpimm then
      setX σ rd (
        if funct3 = 0 then getX σ rs1 + imm.signExtend 64
        else if funct3 = 1 then getX σ rs1 <<< (imm.setWidth 6).toNat
        else getX σ rs1 >>> (imm.setWidth 6).toNat)
    else σ
  | .r funct7 rs2 rs1 funct3 rd opcode =>
    if opcode = rvOpcodeOp then
      setX σ rd (if funct7 = 0 ∧ funct3 = 0 then getX σ rs1 + getX σ rs2 else arith inst σ)
    else if writesInt funct7 then setX σ rd (arith inst σ)
    else update σ (.f rd) (
      if (funct7 = 0x10 ∨ funct7 = 0x11) ∧ funct3 = 0 ∧ rs1 = rs2 then
        moveFp (funct7 = 0x11) (σ (.f rs1))
      else if funct7 = 0x78 then boxSingle ((getX σ rs1).setWidth 32)
      else if funct7 = 0x79 then getX σ rs1
      else arith inst σ)
  | .j _ _ => σ

/-- s0 to s11, the stack, global and thread pointers, and fs0 to fs11. -/
def calleeSaved : Loc → Bool
  | .x reg => reg.val ∈ [0, 2, 3, 4, 8, 9, 18, 19, 20, 21, 22, 23, 24, 25, 26, 27]
  | .f reg => reg.val ∈ [8, 9, 18, 19, 20, 21, 22, 23, 24, 25, 26, 27]

/-- What a callee that obeys the calling convention may do to the registers. -/
def Conforms (σ σ' : RvState) : Prop := ∀ l, calleeSaved l = true → σ' l = σ l

def RvInst.isCall : RvInst → Bool
  | .j .. => true
  | _ => false

/-- Instructions in a row; a call ends in a state that the convention allows. -/
inductive Exec (arith : RvArith) : List RvInst → RvState → RvState → Prop
  | nil (σ : RvState) : Exec arith [] σ σ
  | inst {inst : RvInst} {rest : List RvInst} {σ σ' : RvState} (h : RvInst.isCall inst = false)
      (hrest : Exec arith rest (execInst arith inst σ) σ') : Exec arith (inst :: rest) σ σ'
  | call {rd : Reg} {opcode : BitVec 7} {rest : List RvInst} {σ σ₁ σ' : RvState}
      (h : Conforms σ σ₁) (hrest : Exec arith rest σ₁ σ') : Exec arith (.j rd opcode :: rest) σ σ'

/-- Instructions without a call. -/
def execAll (arith : RvArith) : List RvInst → RvState → RvState
  | [], σ => σ
  | inst :: rest, σ => execAll arith rest (execInst arith inst σ)

theorem execAll_append (arith : RvArith) (xs ys : List RvInst) (σ : RvState) :
    execAll arith (xs ++ ys) σ = execAll arith ys (execAll arith xs σ) := by
  induction xs generalizing σ with
  | nil => rfl
  | cons inst xs ih => exact ih _

theorem exec_append_iff {arith : RvArith} {xs ys : List RvInst} {σ σ' : RvState} :
    (∀ inst ∈ xs, RvInst.isCall inst = false) →
    (Exec arith (xs ++ ys) σ σ' ↔ Exec arith ys (execAll arith xs σ) σ') := by
  induction xs generalizing σ with
  | nil => exact fun _ => Iff.rfl
  | cons inst xs ih =>
    intro hno
    have hinst := hno inst List.mem_cons_self
    have hrest : ∀ i ∈ xs, RvInst.isCall i = false := fun i hi => hno i (List.mem_cons_of_mem inst hi)
    rw [execAll, ← ih hrest]
    constructor
    · intro h
      cases h with
      | inst _ h => exact h
      | call _ _ => cases hinst
    · exact fun h => .inst hinst h

theorem exec_call_iff {arith : RvArith} {rd : Reg} {opcode : BitVec 7} {σ σ' : RvState} :
    Exec arith [.j rd opcode] σ σ' ↔ Conforms σ σ' := by
  constructor
  · intro h
    cases h with
    | inst h _ => cases h
    | call h hrest =>
      cases hrest
      exact h
  · exact fun h => .call h (.nil σ')

/-- What `rv_emit_li32` loads. -/
def li32Value (imm : BitVec 32) : BitVec 64 :=
  if -2048 ≤ imm.toInt ∧ imm.toInt ≤ 2047 then (imm.setWidth 12).signExtend 64
  else
    let hi20 := (imm + 0x800) &&& ~~~0xFFF
    (hi20.extractLsb' 12 20 ++ (0 : BitVec 12)).signExtend 64 +
      ((imm - hi20).setWidth 12).signExtend 64

/-- The constants that are loaded as they are. -/
def Loadable (imm : BitVec 64) : Prop := ¬ (0x7FFFF800 ≤ imm.toInt ∧ imm.toInt ≤ 0x7FFFFFFF)

instance (imm : BitVec 64) : Decidable (Loadable imm) :=
  inferInstanceAs (Decidable (¬ (0x7FFFF800 ≤ imm.toInt ∧ imm.toInt ≤ 0x7FFFFFFF)))

theorem and_not_low (y : BitVec 32) : y &&& ~~~(0xFFF : BitVec 32) = (y >>> 12) <<< 12 := by
  have hmask : ∀ i : Fin 32, (0xFFF : BitVec 32).getLsbD i = decide (i.val < 12) := by decide
  ext i hi
  have hi' : (0xFFF : BitVec 32)[i] = decide (i < 12) := hmask ⟨i, hi⟩
  rw [getElem_and, getElem_not, hi', getElem_shiftLeft]
  by_cases h : i < 12
  · simp [h]
  · have hadd : 12 + (i - 12) = i := by omega
    simp [h, hadd, getLsbD_eq_getElem hi]

/-- The upper part, which ends in twelve zeros. -/
theorem li32_upper (y : BitVec 32) :
    (((y &&& ~~~(0xFFF : BitVec 32)).extractLsb' 12 20 ++ (0 : BitVec 12)) : BitVec 32) =
      BitVec.ofNat 32 (y.toNat / 4096 * 4096) := by
  have happ : (((y &&& ~~~(0xFFF : BitVec 32)).extractLsb' 12 20 ++ (0 : BitVec 12)) : BitVec 32) =
      (y >>> 12) <<< 12 := by
    rw [and_not_low]
    ext i hi
    rw [getElem_append, getElem_shiftLeft]
    by_cases h : i < 12
    · simp [h]
    · have hadd : 12 + (i - 12) = i := by omega
      simp [h, hadd, show i < 32 from hi]
  rw [happ]
  apply eq_of_toNat_eq
  simp [Nat.shiftRight_eq_div_pow, Nat.shiftLeft_eq]

/-- The lower part, as a signed number. -/
theorem li32_lower (imm : BitVec 32) :
    ((imm - ((imm + 0x800) &&& ~~~0xFFF)).setWidth 12).toInt =
      ((imm + 0x800).toNat % 4096 : Int) - 2048 := by
  generalize hy : imm + 0x800 = y
  have himm : imm = y - 0x800 := by rw [← hy, add_sub_cancel]
  rw [himm, and_not_low]
  have hlit : (0x800 : BitVec 32).toNat = 2048 := rfl
  have hnat : ((y - (0x800 : BitVec 32) - ((y >>> 12) <<< 12 : BitVec 32)).setWidth 12).toNat =
      (y.toNat % 4096 + 2048) % 4096 := by
    simp only [toNat_setWidth, toNat_sub, toNat_shiftLeft,
      toNat_ushiftRight, Nat.shiftRight_eq_div_pow, Nat.shiftLeft_eq, hlit]
    omega
  rw [toInt_eq_toNat_cond, hnat]
  split <;> omega

/-- The sum of the two parts: the constant, but for the sign of the upper one. -/
theorem li32Value_eq (imm : BitVec 32) :
    li32Value imm = BitVec.ofInt 64
      (if 0x7FFFF800 ≤ imm.toInt then imm.toInt - 2 ^ 32 else imm.toInt) := by
  unfold li32Value
  by_cases hsmall : -2048 ≤ imm.toInt ∧ imm.toInt ≤ 2047
  · rw [if_pos hsmall, if_neg (by omega)]
    have himm : (imm.setWidth 12).toInt = imm.toInt := by
      have := imm.isLt
      rw [toInt_eq_toNat_cond] at hsmall ⊢
      rw [toInt_eq_toNat_cond, toNat_setWidth]
      split at hsmall <;> split <;> omega
    rw [← himm]
    rfl
  · rw [if_neg hsmall]
    simp only
    rw [li32_upper, BitVec.signExtend, BitVec.signExtend, li32_lower, ← ofInt_add]
    congr 1
    have himm := imm.isLt
    have hy : (imm + 0x800).toNat = (imm.toNat + 2048) % 2 ^ 32 := rfl
    rw [toInt_eq_toNat_cond, toInt_eq_toNat_cond, toNat_ofNat, hy]
    split <;> split <;> split <;> omega

theorem li32Value_low (imm : BitVec 32) : (li32Value imm).toNat % 2 ^ 32 = imm.toNat := by
  rw [li32Value_eq, toNat_ofInt, toInt_eq_toNat_cond]
  have := imm.isLt
  split <;> split <;> omega

/-- What `rv_emit_li64` loads. -/
def li64Value (imm : BitVec 64) : BitVec 64 :=
  if -2 ^ 31 ≤ imm.toInt ∧ imm.toInt < 2 ^ 31 then li32Value (imm.setWidth 32) else imm

theorem toInt_setWidth_32 {imm : BitVec 64} (h : -2 ^ 31 ≤ imm.toInt ∧ imm.toInt < 2 ^ 31) :
    (imm.setWidth 32).toInt = imm.toInt := by
  have := imm.isLt
  rw [toInt_eq_toNat_cond] at h ⊢
  rw [toInt_eq_toNat_cond, toNat_setWidth]
  split at h <;> split <;> omega

theorem li64Value_eq_iff (imm : BitVec 64) : li64Value imm = imm ↔ Loadable imm := by
  unfold li64Value Loadable
  by_cases h : -2 ^ 31 ≤ imm.toInt ∧ imm.toInt < 2 ^ 31
  · rw [if_pos h, li32Value_eq, toInt_setWidth_32 h]
    by_cases hhigh : 0x7FFFF800 ≤ imm.toInt
    · rw [if_pos hhigh]
      refine iff_of_false (fun heq => ?_) fun hno => hno ⟨hhigh, by omega⟩
      have hint := congrArg BitVec.toInt heq
      rw [toInt_ofInt, Int.bmod_eq_of_le (by omega) (by omega)] at hint
      omega
    · rw [if_neg hhigh]
      refine iff_of_true (ofInt_toInt) fun hyes => hhigh hyes.1
  · rw [if_neg h]
    exact iff_of_true rfl fun hyes => h (by omega)

/-- The register that an instruction writes. -/
def instDest : RvInst → Option Loc
  | .u _ rd _ => some (.x rd)
  | .i _ _ _ rd opcode => if opcode = rvOpcodeOpimm then some (.x rd) else none
  | .r funct7 _ _ _ rd opcode =>
    if opcode = rvOpcodeOp ∨ writesInt funct7 then some (.x rd) else some (.f rd)
  | .j _ _ => none

variable {l : Loc}

theorem setX_of_ne {σ : RvState} {rd : Reg} {v : BitVec 64} (h : l ≠ .x rd) :
    setX σ rd v l = σ l := by
  unfold setX
  split
  · rfl
  · exact update_of_ne h v σ

theorem setX_self {σ : RvState} {rd : Reg} {v : BitVec 64} (h : rd ≠ 0) :
    setX σ rd v (.x rd) = v := by
  rw [setX, if_neg h, update_self]

theorem getX_of_ne {σ : RvState} {rs : Reg} (h : rs ≠ 0) : getX σ rs = σ (.x rs) := if_neg h

theorem execInst_of_ne (arith : RvArith) {inst : RvInst} (σ : RvState)
    (h : instDest inst ≠ some l) : execInst arith inst σ l = σ l := by
  cases inst with
  | u imm20 rd opcode => exact setX_of_ne fun heq => h (by rw [heq]; rfl)
  | i imm rs1 funct3 rd opcode =>
    rw [instDest] at h
    rw [execInst]
    split
    · next hop =>
      rw [if_pos hop] at h
      exact setX_of_ne fun heq => h (by rw [heq])
    · rfl
  | r funct7 rs2 rs1 funct3 rd opcode =>
    rw [instDest] at h
    rw [execInst]
    by_cases hop : opcode = rvOpcodeOp
    · rw [if_pos (.inl hop)] at h
      rw [if_pos hop]
      exact setX_of_ne fun heq => h (by rw [heq])
    · rw [if_neg hop]
      by_cases hint : writesInt funct7 = true
      · rw [if_pos (.inr hint)] at h
        rw [if_pos hint]
        exact setX_of_ne fun heq => h (by rw [heq])
      · rw [if_neg (by simp [hop, hint])] at h
        rw [if_neg hint]
        exact update_of_ne (fun heq => h (by rw [heq])) _ _
  | j rd opcode => rfl

theorem execAll_of_ne (arith : RvArith) {code : List RvInst} (σ : RvState)
    (h : ∀ inst ∈ code, instDest inst ≠ some l) : execAll arith code σ l = σ l := by
  induction code generalizing σ with
  | nil => rfl
  | cons inst code ih =>
    rw [execAll, ih _ fun i hi => h i (List.mem_cons_of_mem inst hi)]
    exact execInst_of_ne arith σ (h inst List.mem_cons_self)

def mvInst (rd rs : Reg) : RvInst := rvEncI 0 rs 0 rd rvOpcodeOpimm

def shiftInst (rd : Reg) (funct3 : BitVec 3) : RvInst :=
  rvEncI 32 rd funct3 rd rvOpcodeOpimm

def li32Code (rd : Reg) (imm : BitVec 32) : List RvInst :=
  if -2048 ≤ imm.toInt ∧ imm.toInt ≤ 2047 then [rvEncI imm rvX0 0 rd rvOpcodeOpimm]
  else
    let hi20 := (imm + 0x800) &&& ~~~0xFFF
    [rvEncU hi20 rd rvOpcodeLui, rvEncI (imm - hi20) rd 0 rd rvOpcodeOpimm]

def li64Code (rd scratch : Reg) (imm : BitVec 64) : List RvInst :=
  if -2 ^ 31 ≤ imm.toInt ∧ imm.toInt < 2 ^ 31 then li32Code rd (imm.setWidth 32)
  else li32Code rd ((imm >>> 32).setWidth 32) ++ [shiftInst rd 1] ++
    li32Code scratch (imm.setWidth 32) ++ [shiftInst scratch 1, shiftInst scratch 5,
      rvEncR 0x00 scratch rd 0 rd rvOpcodeOp]

section Sequences
variable {arith : RvArith} {σ : RvState} {rd scratch : Reg}

theorem execInst_mv (rs : Reg) (hrd : rd ≠ 0) (hrs : rs ≠ 0) :
    execInst arith (mvInst rd rs) σ = update σ (.x rd) (σ (.x rs)) := by
  have hexec : execInst arith (mvInst rd rs) σ = setX σ rd (getX σ rs + 0#64) := rfl
  rw [hexec, setX, if_neg hrd, getX_of_ne hrs, BitVec.add_zero]

theorem execAll_li32 (imm : BitVec 32) (hrd : rd ≠ 0) :
    execAll arith (li32Code rd imm) σ = update σ (.x rd) (li32Value imm) := by
  unfold li32Code li32Value
  split
  · change setX σ rd (getX σ rvX0 + (imm.setWidth 12).signExtend 64) = _
    have hzero : getX σ rvX0 = 0#64 := if_pos rfl
    rw [hzero, BitVec.zero_add, setX, if_neg hrd]
  · change setX (setX σ rd _) rd (getX (setX σ rd _) rd + _) = _
    rw [getX_of_ne hrd, setX_self hrd, setX, setX, if_neg hrd, if_neg hrd, update_idem]

theorem execInst_shl (hrd : rd ≠ 0) :
    execInst arith (shiftInst rd 1) σ = update σ (.x rd) (σ (.x rd) <<< 32) := by
  have hexec : execInst arith (shiftInst rd 1) σ = setX σ rd (getX σ rd <<< 32) := rfl
  rw [hexec, setX, if_neg hrd, getX_of_ne hrd]

theorem execInst_shr (hrd : rd ≠ 0) :
    execInst arith (shiftInst rd 5) σ = update σ (.x rd) (σ (.x rd) >>> 32) := by
  have hexec : execInst arith (shiftInst rd 5) σ = setX σ rd (getX σ rd >>> 32) := rfl
  rw [hexec, setX, if_neg hrd, getX_of_ne hrd]

theorem execInst_add (hrd : rd ≠ 0) (hscratch : scratch ≠ 0) :
    execInst arith (rvEncR 0x00 scratch rd 0 rd rvOpcodeOp) σ =
      update σ (.x rd) (σ (.x rd) + σ (.x scratch)) := by
  have hexec : execInst arith (rvEncR 0x00 scratch rd 0 rd rvOpcodeOp) σ =
      setX σ rd (getX σ rd + getX σ scratch) := rfl
  rw [hexec, setX, if_neg hrd, getX_of_ne hrd, getX_of_ne hscratch]

/-- The two halves of a constant, put together. -/
theorem halves_sum (imm : BitVec 64) :
    li32Value ((imm >>> 32).setWidth 32) <<< 32 +
      (li32Value (imm.setWidth 32) <<< 32) >>> 32 = imm := by
  have hhi := li32Value_low ((imm >>> 32).setWidth 32)
  have hlo := li32Value_low (imm.setWidth 32)
  generalize li32Value ((imm >>> 32).setWidth 32) = a at *
  generalize li32Value (imm.setWidth 32) = b at *
  apply eq_of_toNat_eq
  simp only [toNat_add, toNat_shiftLeft, toNat_ushiftRight,
    toNat_setWidth, Nat.shiftLeft_eq, Nat.shiftRight_eq_div_pow] at *
  omega

variable (arith σ) in
/-- A loaded constant; the scratch register is lost. -/
theorem execAll_li64 (imm : BitVec 64) (hrd : rd ≠ 0) (hscratch : scratch ≠ 0)
    (hne : rd ≠ scratch) :
    execAll arith (li64Code rd scratch imm) σ (.x rd) = li64Value imm ∧
      ∀ l, l ≠ .x rd → l ≠ .x scratch → execAll arith (li64Code rd scratch imm) σ l = σ l := by
  unfold li64Code li64Value
  split
  · rw [execAll_li32 _ hrd]
    exact ⟨update_self _ _ _, fun l hl _ => update_of_ne hl _ _⟩
  · have hx : Loc.x rd ≠ Loc.x scratch := fun heq => hne (Loc.x.inj heq)
    rw [execAll_append, execAll_append, execAll_append, execAll_li32 _ hrd]
    simp only [execAll, execInst_shl hrd, execAll_li32 _ hscratch, execInst_shl hscratch,
      execInst_shr hscratch, execInst_add hrd hscratch]
    constructor
    · simp only [update_self, update_of_ne hx]
      exact halves_sum imm
    · intro l hl hl'
      simp only [update_of_ne hl, update_of_ne hl']

end Sequences

end Liric.Guarantees.RiscvMachine
