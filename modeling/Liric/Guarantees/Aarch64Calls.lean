import Liric.Guarantees.Aarch64Places

/-!
# Calls on aarch64

A call and the function that it calls agree if every argument is put where the prologue
takes it, in the form that the callee assumes, if no argument goes over an earlier one,
and if the result is read from where it is left. The words of the variable arguments have
to start where `va_start` points.
-/
namespace Liric.Guarantees.Aarch64Calls
open Source.Ir Source.Object Source.Aarch64 List Convention
open Lib (Throughout mapFold)
open Lib.A64 (Reg)

variable {fixedArgs i : Nat} {p q : Place} {types : List LrType} {abi : CallAbi}

/-- What is put in the first place is what is taken from the second. The code of a call
reaches 4095 bytes from the stack pointer: a larger offset is added to the zero register,
which has the same number. -/
def Meets : Place → Place → Prop
  | .gpr reg, .gpr reg' => reg = reg'
  | .fp reg size, .fp reg' size' => reg = reg' ∧ size = size'
  | .pair reg lane, .pair reg' lane' => reg = reg' ∧ lane = lane'
  | .word off _, .word off' _ => off = off' ∧ off ≤ 4095
  | .word off size, .fpWord off' size' => off = off' ∧ off ≤ 4095 ∧ size' ≤ size
  | .fpWord off size, .fpWord off' size' => off = off' ∧ off ≤ 4095 ∧ size = size'
  | .fpWord off _, .word off' _ => off = off' ∧ off ≤ 4095
  | .words off count, .word off' _ => off = off' ∧ off ≤ 4095 ∧ count = 1
  | _, _ => False

def isVreg (op : LrOperand) : Bool :=
  match op.value with
  | .vreg _ => true
  | _ => false

/-- The word of the operand is the address of a value of more than eight bytes. -/
def PointsToValue (host : A64Host) (c : A64Ctx) (op : LrOperand) : Prop :=
  match op.value with
  | .vreg vreg =>
    c.usesIndirectAggregateStorage vreg (typeSize op.type) = true ∨
      (c.lookupStaticAllocaOffset vreg ≠ 0 ∧ host.staticAllocaAddr = true)
  | _ => False

/-- A slot of eight bytes holds a value of this size, or points to it. -/
def WordFits (host : A64Host) (c : A64Ctx) (op : LrOperand) : Prop :=
  typeSize op.type ≤ 8 ∨ PointsToValue host c op

/-- The lanes and bytes of a value are read at its address, which only a register has; a
word is the value or points to it. -/
def InForm (host : A64Host) (c : A64Ctx) (op : LrOperand) : Place → Prop
  | .pair .. | .words .. => isVreg op = true
  | .gpr _ | .word .. => WordFits host c op
  | .fp .. | .fpWord .. => True

/-- Registers and bytes of the stack that hold arguments. -/
inductive Loc where
  | x (reg : Reg)
  | d (reg : Reg)
  | byte (off : Nat)

def Place.Covers : Place → Loc → Prop
  | .gpr reg, .x r => r = reg
  | .fp reg _, .d r => r = reg
  | .pair reg _, .d r => r = reg ∨ r = reg + 1
  | .word off size, .byte b => off ≤ b ∧ b < off + accessSize size
  | .fpWord off size, .byte b => off ≤ b ∧ b < off + fpAccessSize size
  | .words off count, .byte b => off ≤ b ∧ b < off + 8 * count
  | _, _ => False

def Place.IsFpWord (place : Place) : Prop := ∃ off size, place = .fpWord off size

/-- `put` loads a floating point number for the stack into D0. -/
def Place.Writes (place : Place) (l : Loc) : Prop :=
  place.Covers l ∨ (place.IsFpWord ∧ l = .d a64D0)

def Overwrites (later earlier : Place) : Prop := ∃ l, later.Writes l ∧ earlier.Covers l

namespace Convention
variable (k : Convention)

/-- The places of all arguments in their order. -/
def givens (args : List LrOperand) : List Place :=
  mapFold k.step (fun s op => k.given s op.type) {} args

/-- The word in which the callee finds a variable argument. -/
def varPlace (i : Nat) : Place := .word ((k.varWords + (i - k.numParams)) * 8) 8

/-- The places of the parameters, and of the variable arguments behind them. -/
def wanted (types : List LrType) (nargs : Nat) : List Place :=
  mapFold k.next k.param {} (types.map some) ++
    (range' k.numParams (nargs - k.numParams)).map k.varPlace

end Convention

/-- How a call and a function deal with the arguments. -/
def convention (apple : Bool) (abi : CallAbi) (func : LrFunc) (nargs : Nat) : Convention where
  mode := callMode apple abi nargs
  calleeFp := func.usesLlvmAbi
  numParams := func.paramTypes.length
  varWords := varargStackWords func.usesLlvmAbi (func.paramTypes.map some)

/-- Each argument of a call is put where the function takes it, in the form in which the
function has it, and is still there at the call. -/
structure ArgsPassed (host : A64Host) (apple : Bool) (c : A64Ctx) (desc : LrInst)
    (callee : LrOperand) (args : List LrOperand) (func : LrFunc) (abi : CallAbi)
    (k : Convention) : Prop where
  call : emitPlainCall host apple desc callee args c =
    ((do
      emitSpAdjust true (callStackBytes apple abi args).toNat
      (k.puts args).forM fun (op, place) => put host op place
      emitLoadOperand host callee a64X16
      emitU32 (.blr a64X16)
      emitSpAdjust false (callStackBytes apple abi args).toNat
      invalidateCachedGprs
      emitCallResult desc abi.useFpAbi : A64M Unit)
    c)
  takes : ∀ nextVreg mod obj symDefined symFuncs,
    aarch64CompileBegin (calleeMeta func nextVreg) mod obj symDefined symFuncs =
      ((do
        let pos ← emitPrologue
        modify fun c => { c with prologuePatchPos := pos }
        (k.takes (params func)).forM fun (vreg, place) => take vreg place : A64M Unit)
      (initialCtx (calleeMeta func nextVreg) mod obj symDefined symFuncs)).2
  varStart : func.vararg = true → ∀ nextVreg mod obj symDefined symFuncs,
    (initialCtx (calleeMeta func nextVreg) mod obj symDefined symFuncs).varargStackStartOff =
      BitVec.ofNat 32 (16 + k.varWords * 8)
  meets : List.Forall₂ Meets (k.givens args) (k.wanted func.paramTypes args.length)
  form : ∀ p ∈ k.puts args, InForm host c p.1 p.2
  kept : (k.puts args).Pairwise fun p q => ¬ Overwrites q.2 p.2

/-- Both lanes of a result are read at its address; a word is the result, or both functions
take it for the address of one. -/
def ResultInForm (c : A64Ctx) (desc : LrInst) (c' : A64Ctx) (op' : LrOperand) : Place → Prop
  | .gpr _ => typeSize desc.type ≤ 8 ∨
      ((∃ v, op'.value = .vreg v ∧
          c'.usesIndirectAggregateStorage v (typeSize desc.type) = true) ∧
        c.usesIndirectAggregateStorage desc.dest (typeSize desc.type) = true)
  | .pair .. => isVreg op' = true
  | _ => True

/-- The result is left where the call reads it, and is whole. -/
structure ResultPassed (host : A64Host) (c : A64Ctx) (desc : LrInst) (abi : CallAbi)
    (func : LrFunc) (c' : A64Ctx) (op' : LrOperand) : Prop where
  leaves : emitRet host op' c' =
    leave host op' (resultPlace func.usesLlvmAbi (some func.retType)) c'
  reads : emitCallResult desc abi.useFpAbi =
    if isVoidType desc.type then pure () else take desc.dest (resultPlace abi.useFpAbi desc.type)
  whole : isVoidType desc.type = true ∨
    (resultPlace func.usesLlvmAbi (some func.retType) = resultPlace abi.useFpAbi desc.type ∧
      ResultInForm c desc c' op' (resultPlace abi.useFpAbi desc.type))

/-- The types that go into floating point registers. -/
def isFloatClass (type : Option LrType) : Bool :=
  a64IsComplex16 type || a64IsComplex8Fp type || isFpAbiType type

/-- A parameter, when both sides use floating point registers: a pair of doubles is not
left without registers, a pair of floats only if the general registers have run out too,
and there are at most 512 words on the stack. -/
def FpFits (host : A64Host) (c : A64Ctx) (n : ArgCount) (op : LrOperand) : Prop :=
  if a64IsComplex16 op.type then isVreg op = true ∧ n.fpUsed + 2 ≤ 8
  else if a64IsComplex8Fp op.type then
    isVreg op = true ∧ (n.fpUsed + 2 ≤ 8 ∨ (8 ≤ n.gpUsed ∧ n.stackArgs < 512))
  else if isFpAbiType op.type then n.fpUsed < 8 ∨ n.stackArgs < 512
  else WordFits host c op ∧ (n.gpUsed < 8 ∨ n.stackArgs < 512)

/-- A parameter, when both sides count eight bytes for each. -/
def PlainFits (host : A64Host) (c : A64Ctx) (i : Nat) (op : LrOperand) : Prop :=
  WordFits host c op ∧ i < 520

/-- The bytes before an argument that Apple's convention puts on the stack. -/
def darwinOff (fixedArgs : Nat) (n : DarwinCount) (i : Nat) (type : Option LrType) : Nat :=
  if i ≥ fixedArgs then n.startVar.varOff.toNat else (n.alignNamed type).namedOff.toNat

/-- The packed words of Apple's convention are the callee's words so far. -/
def DarwinStackFits (fixedArgs words : Nat) (n : DarwinCount) (i : Nat) (type : Option LrType) :
    Prop :=
  darwinOff fixedArgs n i type = words * 8 ∧ words < 512

/-- A parameter, when the call uses Apple's convention and the function floating point
registers. -/
def DarwinFpFits (host : A64Host) (c : A64Ctx) (fixedArgs : Nat) (s : Before) (op : LrOperand) :
    Prop :=
  if isFpAbiType op.type then s.i < fixedArgs ∧ s.callee.fpUsed < 8
  else
    WordFits host c op ∧ ¬ (isFloatClass op.type = true ∧ s.callee.fpUsed + 2 ≤ 8) ∧
      ((s.i < fixedArgs ∧ s.callee.gpUsed < 8) ∨
        (8 ≤ s.callee.gpUsed ∧ DarwinStackFits fixedArgs s.callee.stackArgs s.darwin s.i op.type))

/-- A parameter, when the call uses Apple's convention and the function counts eight bytes
for each. -/
def DarwinPlainFits (host : A64Host) (c : A64Ctx) (fixedArgs : Nat) (s : Before)
    (op : LrOperand) : Prop :=
  WordFits host c op ∧ ¬ (isFpAbiType op.type = true ∧ s.i < fixedArgs) ∧
    ((s.i < fixedArgs ∧ s.i < 8) ∨
      (8 ≤ s.i ∧ DarwinStackFits fixedArgs (s.i - 8) s.darwin s.i op.type))

/-- A parameter. -/
def ParamFits (host : A64Host) (c : A64Ctx) (k : Convention) (s : Before) (op : LrOperand) : Prop :=
  match k.mode, k.calleeFp with
  | .fp, true => FpFits host c s.caller op
  | .fp, false | .plain, true => isFloatClass op.type = false ∧ PlainFits host c s.i op
  | .plain, false => PlainFits host c s.i op
  | .darwin fixedArgs, true => DarwinFpFits host c fixedArgs s op
  | .darwin fixedArgs, false => DarwinPlainFits host c fixedArgs s op

/-- A variable argument is on the stack, and as many words are before it as `va_start`
counts. -/
def VarFits (host : A64Host) (c : A64Ctx) (k : Convention) (s : Before) (op : LrOperand) : Prop :=
  let words := k.varWords + (s.i - k.numParams)
  match k.mode with
  | .plain => WordFits host c op ∧ 8 ≤ s.i ∧ s.i - 8 = words ∧ words < 512
  | .fp =>
    a64IsComplex16 op.type = false ∧ s.caller.stackArgs = words ∧ words < 512 ∧
      (if a64IsComplex8Fp op.type then isVreg op = true ∧ 8 < s.caller.fpUsed + 2
        else if isFpAbiType op.type then 8 ≤ s.caller.fpUsed
        else WordFits host c op ∧ 8 ≤ s.caller.gpUsed)
  | .darwin fixedArgs =>
    DarwinStackFits fixedArgs words s.darwin s.i op.type ∧
      (if isFpAbiType op.type then fixedArgs ≤ s.i ∧ s.darwin.fpr = 0
        else WordFits host c op ∧ (fixedArgs ≤ s.i ∨ 8 ≤ s.darwin.gpr))

/-- The counters before the first variable argument. -/
def varStart (k : Convention) (args : List LrOperand) : Before :=
  (args.take k.numParams).foldl k.step {}

/-- The condition on all arguments of a call. -/
def ArgsFit (host : A64Host) (c : A64Ctx) (k : Convention) (args : List LrOperand) : Prop :=
  Throughout k.step (ParamFits host c k) {} (args.take k.numParams) ∧
    Throughout k.step (VarFits host c k) (varStart k args) (args.drop k.numParams)

section Parameters
variable {host : A64Host} {c : A64Ctx} {op : LrOperand}

theorem words_reach (w : Nat) : w * 8 ≤ 4095 ↔ w < 512 := by omega

attribute [local simp] givenFp takenFp countParam countArg plainPlace Meets InForm FpFits
  PlainFits DarwinPlainFits Place.IsFpWord words_reach

theorem typeSize_of_isFpAbi {type : Option LrType} (h : isFpAbiType type = true) :
    typeSize type ≤ 8 := by
  unfold isFpAbiType at h
  split at h
  · exact (by decide : scalarSize .float ≤ 8)
  · exact (by decide : scalarSize .double ≤ 8)
  · cases h

theorem fpAbiSize_le (type : Option LrType) : fpAbiSize type ≤ 8 := by
  unfold fpAbiSize
  split <;> decide

theorem wordFits_of_isFpAbi (h : isFpAbiType op.type = true) : WordFits host c op :=
  Or.inl (typeSize_of_isFpAbi h)

/-- Both sides use floating point registers and have counted the same. -/
theorem fp_fits_iff (n : ArgCount) :
    (Meets (givenFp n op.type) (takenFp n op.type) ∧ InForm host c op (givenFp n op.type)) ↔
      FpFits host c n op := by
  by_cases h16 : a64IsComplex16 op.type = true
  · obtain ⟨h8, hfp⟩ := isComplex8_of_isComplex16 h16
    by_cases hroom : n.fpUsed + 2 ≤ 8
    · simp [h16, h8, hroom]
    · by_cases hgp : n.gpUsed < 8
      · simp [h16, h8, hfp, hroom, hgp]
      · simp [h16, h8, hfp, hroom, hgp]
  · by_cases h8 : a64IsComplex8Fp op.type = true
    · obtain ⟨-, hfp⟩ := isFpAbi_of_isComplex8 h8
      by_cases hroom : n.fpUsed + 2 ≤ 8
      · simp [h16, h8, hroom]
      · by_cases hgp : n.gpUsed < 8
        · simp [h16, h8, hfp, hroom, hgp]
        · simp [h16, h8, hfp, hroom, hgp, Nat.not_lt.1 hgp, and_comm]
    · by_cases hfp : isFpAbiType op.type = true
      · have hword : WordFits host c op := wordFits_of_isFpAbi hfp
        by_cases hlt : n.fpUsed < 8
        · simp [h16, h8, hfp, hlt]
        · simp [fpAbiSize_le, h16, h8, hfp, hlt, hword]
      · by_cases hgp : n.gpUsed < 8
        · simp [h16, h8, hfp, hgp]
        · simp [h16, h8, hfp, hgp, and_comm]

/-- The counting loop of the call and the one of the prologue. -/
theorem countParam_of_fits {n : ArgCount} (h : FpFits host c n op) :
    countParam n op.type = countArg n op.type := by
  by_cases h16 : a64IsComplex16 op.type = true
  · obtain ⟨h8, -⟩ := isComplex8_of_isComplex16 h16
    have hroom : n.fpUsed + 2 ≤ 8 := by
      simp only [FpFits, h16, if_true] at h
      exact h.2
    simp [h16, hroom]
  · by_cases h8 : a64IsComplex8Fp op.type = true
    · obtain ⟨-, hfp⟩ := isFpAbi_of_isComplex8 h8
      rw [FpFits, if_neg h16, if_pos h8] at h
      by_cases hroom : n.fpUsed + 2 ≤ 8
      · simp [h16, h8, hroom]
      · have hgp : ¬ n.gpUsed < 8 := by omega
        simp [h16, h8, hfp, hroom, hgp]
    · by_cases hfp : isFpAbiType op.type = true
      · simp [h16, h8, hfp]
      · simp [h16, h8, hfp]

/-- The counters before argument `i` when none is in a floating point register. -/
def plainCount (i : Nat) : ArgCount where
  gpUsed := min i 8
  stackArgs := i - 8

attribute [local simp] plainCount

/-- All arguments in general registers and on the stack are in the places of the plain
convention. -/
theorem fp_plain {type : Option LrType} (h : isFloatClass type = false) (i : Nat) :
    (givenFp (plainCount i) type = plainPlace i ∧
      countArg (plainCount i) type = plainCount (i + 1)) ∧
    takenFp (plainCount i) type = plainPlace i ∧
      countParam (plainCount i) type = plainCount (i + 1) := by
  simp only [isFloatClass, Bool.or_eq_false_iff] at h
  obtain ⟨⟨h16, h8⟩, hfp⟩ := h
  by_cases hi : i < 8
  · have hmin : min i 8 = i := by omega
    have hnext : min (i + 1) 8 = i + 1 := by omega
    have hsub : i - 8 = i + 1 - 8 := by omega
    simp [h16, h8, hfp, hi, hmin, hnext, hsub]
  · have hmin : min i 8 = 8 := by omega
    have hnext : min (i + 1) 8 = 8 := by omega
    have hsub : i + 1 - 8 = i - 8 + 1 := by omega
    simp [h16, h8, hfp, hi, hmin, hnext, hsub]

theorem plain_fits_iff (i : Nat) :
    (Meets (plainPlace i) (plainPlace i) ∧ InForm host c op (plainPlace i)) ↔
      PlainFits host c i op := by
  by_cases hi : i < 8
  · have hle : i < 520 := by omega
    simp [hi, hle]
  · have hle : i - 8 < 512 ↔ i < 520 := by omega
    simp [hi, hle, and_comm]

/-- A number that one side has in a floating point register does not meet a place of the
plain convention. -/
theorem not_meets_plain {type : Option LrType} (h : isFloatClass type = true) (i : Nat) :
    ¬ Meets (givenFp (plainCount i) type) (plainPlace i) ∧
      ¬ Meets (plainPlace i) (takenFp (plainCount i) type) := by
  have hplace : (∃ reg lane, givenFp (plainCount i) type = .pair reg lane ∧
      takenFp (plainCount i) type = .pair reg lane) ∨
      ∃ reg size, givenFp (plainCount i) type = .fp reg size ∧
        takenFp (plainCount i) type = .fp reg size := by
    simp only [isFloatClass, Bool.or_eq_true] at h
    by_cases h16 : a64IsComplex16 type = true
    · obtain ⟨h8, -⟩ := isComplex8_of_isComplex16 h16
      simp [h16, h8]
    · by_cases h8 : a64IsComplex8Fp type = true
      · simp [h16, h8]
      · have hfp : isFpAbiType type = true := by simpa [h16, h8] using h
        simp [h16, h8, hfp]
  unfold plainPlace
  rcases hplace with ⟨reg, lane, hgiven, htaken⟩ | ⟨reg, size, hgiven, htaken⟩
  · rw [hgiven, htaken]
    split <;> simp
  · rw [hgiven, htaken]
    split <;> simp

/-- A parameter of a function that has no floating point registers for it. -/
theorem fp_plain_fits_iff (i : Nat) :
    (Meets (givenFp (plainCount i) op.type) (plainPlace i) ∧
        InForm host c op (givenFp (plainCount i) op.type)) ↔
      isFloatClass op.type = false ∧ PlainFits host c i op := by
  cases hclass : isFloatClass op.type with
  | true => simp only [(not_meets_plain hclass i).1, Bool.true_eq_false, false_and]
  | false =>
    rw [(fp_plain hclass i).1.1, plain_fits_iff]
    simp

/-- An argument of a call that has no floating point registers for it. -/
theorem plain_fp_fits_iff (i : Nat) :
    (Meets (plainPlace i) (takenFp (plainCount i) op.type) ∧ InForm host c op (plainPlace i)) ↔
      isFloatClass op.type = false ∧ PlainFits host c i op := by
  cases hclass : isFloatClass op.type with
  | true => simp only [(not_meets_plain hclass i).2, Bool.true_eq_false, false_and]
  | false =>
    rw [(fp_plain hclass i).2.1, plain_fits_iff]
    simp

/-- No number is in D0 when the code of the place goes over it. -/
def Keeps (n : DarwinCount) (place : Place) : Prop :=
  place.IsFpWord → n.fpr = 0

attribute [local simp] Keeps

theorem darwinOff_iff (fixedArgs w : Nat) (n : DarwinCount) (i : Nat) (type : Option LrType) :
    (darwinOff fixedArgs n i type = w * 8 ∧ darwinOff fixedArgs n i type ≤ 4095) ↔
      DarwinStackFits fixedArgs w n i type := by
  unfold DarwinStackFits
  omega

/-- An argument of Apple's convention without a register. -/
theorem givenDarwin_stack {n : DarwinCount} {type : Option LrType}
    (h : i < fixedArgs → if isFpAbiType type then 8 ≤ n.fpr else 8 ≤ n.gpr) :
    ∃ size, givenDarwin fixedArgs n i type =
      givenDarwinStack type (darwinOff fixedArgs n i type) size := by
  by_cases hvar : i ≥ fixedArgs
  · exact ⟨8, by simp [givenDarwin, darwinOff, hvar]⟩
  · have hregs := h (by omega)
    have hfull : ¬ (isFpAbiType type = true ∧ n.fpr < 8) ∧
        ¬ (¬ isFpAbiType type = true ∧ n.gpr < 8) := by
      split at hregs
      · simp_all
      · simp_all
    exact ⟨_, by rw [givenDarwin, if_neg hvar, if_neg hfull.1, if_neg hfull.2, darwinOff,
      if_neg hvar]⟩

/-- A floating point number on the stack. -/
theorem givenDarwin_fpWord {n : DarwinCount} {type : Option LrType} (hfp : isFpAbiType type = true)
    (h : i < fixedArgs → 8 ≤ n.fpr) :
    givenDarwin fixedArgs n i type = .fpWord (darwinOff fixedArgs n i type) (fpAbiSize type) := by
  have hfull : i < fixedArgs → if isFpAbiType type then 8 ≤ n.fpr else 8 ≤ n.gpr := by
    simpa [hfp] using h
  obtain ⟨size, hgiven⟩ := givenDarwin_stack hfull
  rw [hgiven, givenDarwinStack, if_pos hfp]

theorem givenDarwin_word {n : DarwinCount} {type : Option LrType} (hfp : isFpAbiType type = false)
    (h : i < fixedArgs → 8 ≤ n.gpr) :
    ∃ size, givenDarwin fixedArgs n i type = .word (darwinOff fixedArgs n i type) size := by
  have hfull : i < fixedArgs → if isFpAbiType type then 8 ≤ n.fpr else 8 ≤ n.gpr := by
    simpa [hfp] using h
  obtain ⟨size, hgiven⟩ := givenDarwin_stack hfull
  exact ⟨size, by rw [hgiven, givenDarwinStack, if_neg (by simp [hfp])]⟩

theorem givenDarwin_fp {n : DarwinCount} {type : Option LrType} (hfp : isFpAbiType type = true)
    (hi : i < fixedArgs) (hlt : n.fpr < 8) :
    givenDarwin fixedArgs n i type = .fp (Fin.ofNat 32 n.fpr) (fpAbiSize type) := by
  rw [givenDarwin, if_neg (by omega), if_pos ⟨hfp, hlt⟩]

theorem givenDarwin_gpr {n : DarwinCount} {type : Option LrType} (hfp : isFpAbiType type = false)
    (hi : i < fixedArgs) (hlt : n.gpr < 8) :
    givenDarwin fixedArgs n i type = .gpr (Fin.ofNat 32 n.gpr) := by
  rw [givenDarwin, if_neg (by omega), if_neg (by simp [hfp]), if_pos ⟨by simp [hfp], hlt⟩]

/-- A parameter that is not a floating point number, where the registers are counted the
same. -/
theorem takenFp_gp {n : ArgCount} {type : Option LrType} (hfp : isFpAbiType type = false) :
    takenFp n type =
      if isFloatClass type = true ∧ n.fpUsed + 2 ≤ 8 then
        .pair (Fin.ofNat 32 n.fpUsed) (if a64IsComplex8Fp type then 4 else 8)
      else if n.gpUsed < 8 then .gpr (Fin.ofNat 32 n.gpUsed)
      else .word (n.stackArgs * 8) 8 := by
  by_cases hroom : n.fpUsed + 2 ≤ 8
  · by_cases h8 : a64IsComplex8Fp type = true
    · simp [isFloatClass, h8, hroom]
    · by_cases h16 : a64IsComplex16 type = true
      · simp [isFloatClass, h8, h16, hroom]
      · simp [isFloatClass, h8, h16, hfp]
  · simp [hfp, hroom]

theorem isFloatClass_of_isFpAbi {type : Option LrType} (h : isFpAbiType type = true) :
    a64IsComplex8Fp type = false ∧ a64IsComplex16 type = false := by
  constructor
  · by_contra hcomplex
    simp [isFpAbi_of_isComplex8 (eq_true_of_ne_false hcomplex)] at h
  · by_contra hcomplex
    simp [isComplex8_of_isComplex16 (eq_true_of_ne_false hcomplex)] at h

/-- The function has floating point registers, and both sides have filled the same. -/
theorem darwin_fp_fits_iff {s : Before} (hfpr : s.darwin.fpr = s.callee.fpUsed)
    (hgpr : s.darwin.gpr = s.callee.gpUsed) :
    (Meets (givenDarwin fixedArgs s.darwin s.i op.type) (takenFp s.callee op.type) ∧
        InForm host c op (givenDarwin fixedArgs s.darwin s.i op.type) ∧
        Keeps s.darwin (givenDarwin fixedArgs s.darwin s.i op.type)) ↔
      DarwinFpFits host c fixedArgs s op := by
  cases hfp : isFpAbiType op.type with
  | true =>
    obtain ⟨h8, h16⟩ := isFloatClass_of_isFpAbi hfp
    rw [DarwinFpFits, if_pos hfp]
    by_cases hreg : s.i < fixedArgs ∧ s.callee.fpUsed < 8
    · rw [givenDarwin_fp hfp hreg.1 (by omega)]
      simp [h8, h16, hfp, hreg, hfpr]
    · rw [givenDarwin_fpWord hfp (by omega)]
      constructor
      · intro h
        obtain ⟨hmeets, -, hkeeps⟩ := h
        -- With a free register the callee takes it, and without one D0 is in use.
        have hzero : s.callee.fpUsed < 8 := by
          have h0 := hkeeps ⟨_, _, rfl⟩
          omega
        simp [h8, h16, hfp, hzero] at hmeets
      · intro h
        exact absurd h hreg
  | false =>
    rw [DarwinFpFits, if_neg (by simp [hfp]), takenFp_gp hfp]
    by_cases hpair : isFloatClass op.type = true ∧ s.callee.fpUsed + 2 ≤ 8
    · have hnot : ∀ reg lane,
          ¬ Meets (givenDarwin fixedArgs s.darwin s.i op.type) (.pair reg lane) := by
        intro reg lane
        by_cases hgpr' : s.i < fixedArgs ∧ s.darwin.gpr < 8
        · rw [givenDarwin_gpr hfp hgpr'.1 hgpr'.2]
          simp
        · have hfull : s.i < fixedArgs → 8 ≤ s.darwin.gpr := by omega
          obtain ⟨size, hgiven⟩ := givenDarwin_word hfp hfull
          rw [hgiven]
          simp
      simp [hpair, hnot, -Meets]
    · have hfew : isFloatClass op.type = true → 6 < s.callee.fpUsed := by
        intro hclass
        have hroom : ¬ s.callee.fpUsed + 2 ≤ 8 := fun h => hpair ⟨hclass, h⟩
        omega
      by_cases hreg : s.i < fixedArgs ∧ s.callee.gpUsed < 8
      · rw [givenDarwin_gpr hfp hreg.1 (by omega), if_neg hpair, if_pos hreg.2]
        simpa [hreg, hgpr] using fun _ => hfew
      · have hfull : s.i < fixedArgs → 8 ≤ s.darwin.gpr := by omega
        obtain ⟨size, hgiven⟩ := givenDarwin_word hfp hfull
        rw [hgiven, if_neg hpair]
        by_cases hgp : s.callee.gpUsed < 8
        · have hi : ¬ s.i < fixedArgs := by omega
          simp [hgp, hi]
        · have hle : 8 ≤ s.callee.gpUsed := by omega
          have hnone : s.callee.fpUsed ≤ 6 → isFloatClass op.type = false := by
            intro hsix
            by_contra hclass
            have hmore := hfew (eq_true_of_ne_false hclass)
            omega
          simp only [Meets, InForm, Keeps, Place.IsFpWord, darwinOff_iff, hgp, if_false]
          simp [hle, and_comm]
          tauto

theorem darwin_plain_fits_iff {s : Before} (hfpr : s.darwin.fpr = 0)
    (hgpr : s.i < fixedArgs → s.darwin.gpr = min s.i 8) :
    (Meets (givenDarwin fixedArgs s.darwin s.i op.type) (plainPlace s.i) ∧
        InForm host c op (givenDarwin fixedArgs s.darwin s.i op.type) ∧
        Keeps s.darwin (givenDarwin fixedArgs s.darwin s.i op.type)) ↔
      DarwinPlainFits host c fixedArgs s op := by
  cases hfp : isFpAbiType op.type with
  | true =>
    have hword : WordFits host c op := wordFits_of_isFpAbi hfp
    by_cases hi : s.i < fixedArgs
    · rw [givenDarwin_fp hfp hi (by omega)]
      by_cases h8 : s.i < 8
      · simp [hfp, hi, h8]
      · simp [hfp, hi, h8]
    · rw [givenDarwin_fpWord hfp (by omega)]
      by_cases h8 : s.i < 8
      · have hle : ¬ 8 ≤ s.i := by omega
        simp [hi, h8, hle]
      · have hle : 8 ≤ s.i := by omega
        simp [darwinOff_iff, hfpr, hword, hi, h8, hle]
  | false =>
    by_cases hreg : s.i < fixedArgs ∧ s.i < 8
    · have hmin := hgpr hreg.1
      rw [min_eq_left (by omega)] at hmin
      rw [givenDarwin_gpr hfp hreg.1 (by omega)]
      simp [hfp, hreg, hmin]
    · have hfull : s.i < fixedArgs → 8 ≤ s.darwin.gpr := by omega
      obtain ⟨size, hgiven⟩ := givenDarwin_word hfp hfull
      rw [hgiven]
      by_cases h8 : s.i < 8
      · have hle : ¬ 8 ≤ s.i := by omega
        have hi : ¬ s.i < fixedArgs := by omega
        simp [h8, hle, hi]
      · have hle : 8 ≤ s.i := by omega
        simp [darwinOff_iff, hfp, h8, hle, and_comm]

theorem words_eq (v w : Nat) : v * 8 = w * 8 ↔ v = w := by omega

theorem plain_var_fits_iff (i w : Nat) :
    (Meets (plainPlace i) (.word (w * 8) 8) ∧ InForm host c op (plainPlace i)) ↔
      WordFits host c op ∧ 8 ≤ i ∧ i - 8 = w ∧ w < 512 := by
  by_cases hi : i < 8
  · have hle : ¬ 8 ≤ i := by omega
    simp [hi, hle]
  · have hle : 8 ≤ i := by omega
    simp only [plainPlace, Meets, InForm, hi, if_false, words_eq, words_reach]
    constructor
    · intro h
      obtain ⟨⟨heq, hlt⟩, hfits⟩ := h
      exact ⟨hfits, hle, heq, heq ▸ hlt⟩
    · intro h
      obtain ⟨hfits, -, heq, hlt⟩ := h
      exact ⟨⟨heq, heq ▸ hlt⟩, hfits⟩

theorem fp_var_fits_iff (n : ArgCount) (w : Nat) :
    (Meets (givenFp n op.type) (.word (w * 8) 8) ∧ InForm host c op (givenFp n op.type)) ↔
      a64IsComplex16 op.type = false ∧ n.stackArgs = w ∧ w < 512 ∧
        (if a64IsComplex8Fp op.type then isVreg op = true ∧ 8 < n.fpUsed + 2
          else if isFpAbiType op.type then 8 ≤ n.fpUsed
          else WordFits host c op ∧ 8 ≤ n.gpUsed) := by
  have hreach : ∀ v : Nat, (v * 8 = w * 8 ∧ v * 8 ≤ 4095) ↔ (v = w ∧ w < 512) := by omega
  by_cases h16 : a64IsComplex16 op.type = true
  · by_cases hroom : n.fpUsed + 2 ≤ 8
    · simp [h16, hroom]
    · simp [h16, hroom]
  · by_cases h8 : a64IsComplex8Fp op.type = true
    · by_cases hroom : n.fpUsed + 2 ≤ 8
      · have hno : ¬ 8 < n.fpUsed + 2 := by omega
        simp [h16, h8, hroom, hno]
      · have hfew : 8 < n.fpUsed + 2 := by omega
        simp only [givenFp, Meets, InForm, h16, h8, hroom, hfew, and_false, if_false,
          and_true, if_true, Bool.false_eq_true, ← and_assoc, hreach]
        simp
    · by_cases hfp : isFpAbiType op.type = true
      · have hword : WordFits host c op := wordFits_of_isFpAbi hfp
        by_cases hlt : n.fpUsed < 8
        · have hno : ¬ 8 ≤ n.fpUsed := by omega
          simp [h16, h8, hfp, hlt, hno]
        · have hle : 8 ≤ n.fpUsed := by omega
          simp +contextual [h16, h8, hfp, hlt, hle, hword]
      · by_cases hgp : n.gpUsed < 8
        · have hno : ¬ 8 ≤ n.gpUsed := by omega
          simp [h16, h8, hfp, hgp, hno]
        · have hle : 8 ≤ n.gpUsed := by omega
          simp +contextual [h16, h8, hfp, hgp, hle, and_assoc]

theorem darwin_var_fits_iff {n : DarwinCount} (i w : Nat) :
    (Meets (givenDarwin fixedArgs n i op.type) (.word (w * 8) 8) ∧
        InForm host c op (givenDarwin fixedArgs n i op.type) ∧
        Keeps n (givenDarwin fixedArgs n i op.type)) ↔
      DarwinStackFits fixedArgs w n i op.type ∧
        (if isFpAbiType op.type then fixedArgs ≤ i ∧ n.fpr = 0
          else WordFits host c op ∧ (fixedArgs ≤ i ∨ 8 ≤ n.gpr)) := by
  cases hfp : isFpAbiType op.type with
  | true =>
    by_cases hreg : i < fixedArgs ∧ n.fpr < 8
    · have hno : ¬ fixedArgs ≤ i := by omega
      rw [givenDarwin_fp hfp hreg.1 hreg.2]
      simp [hno]
    · rw [givenDarwin_fpWord hfp (by omega)]
      have hkeeps : Keeps n (.fpWord (darwinOff fixedArgs n i op.type) (fpAbiSize op.type)) ↔
          fixedArgs ≤ i ∧ n.fpr = 0 := by
        simp only [Keeps, Place.IsFpWord, Place.fpWord.injEq, exists_and_left, exists_eq',
            and_true, forall_const]
        omega
      simp [darwinOff_iff, hkeeps, -Keeps]
  | false =>
    by_cases hreg : i < fixedArgs ∧ n.gpr < 8
    · have hno : ¬ (fixedArgs ≤ i ∨ 8 ≤ n.gpr) := by omega
      rw [givenDarwin_gpr hfp hreg.1 hreg.2]
      simp [hno]
    · have hfull : i < fixedArgs → 8 ≤ n.gpr := by omega
      have hle : fixedArgs ≤ i ∨ 8 ≤ n.gpr := by omega
      obtain ⟨size, hgiven⟩ := givenDarwin_word hfp hfull
      rw [hgiven]
      simp [darwinOff_iff, hle]

end Parameters
/-- What the two counts of a parameter have in common as long as all have fitted. -/
def CountsAgree (k : Convention) (s : Before) : Prop :=
  match k.mode, k.calleeFp with
  | .fp, true => s.callee = s.caller
  | .fp, false => s.caller = plainCount s.i
  | .plain, true => s.callee = plainCount s.i
  | .plain, false => True
  | .darwin _, true => s.darwin.fpr = s.callee.fpUsed ∧ s.darwin.gpr = s.callee.gpUsed
  | .darwin fixedArgs, false =>
    s.darwin.fpr = 0 ∧ (s.i < fixedArgs → s.darwin.gpr = min s.i 8)

section AllParameters
variable {host : A64Host} {c : A64Ctx} {op : LrOperand} {k : Convention} {s : Before}

theorem countsAgree_start : CountsAgree k {} := by
  unfold CountsAgree
  split <;> simp [plainCount]

/-- Only Apple's convention stores from D0. -/
theorem not_fpWord_given (hmode : ∀ fixedArgs, k.mode ≠ .darwin fixedArgs)
    (type : Option LrType) : ¬ (k.given s type).IsFpWord := by
  unfold given Place.IsFpWord
  split
  · unfold plainPlace
    split <;> simp
  · unfold givenFp
    simp only
    repeat' split
    all_goals simp
  · exact absurd ‹_› (hmode _)

/-- An argument is put in a place, in its form and without going over D0. -/
def Given (host : A64Host) (c : A64Ctx) (k : Convention) (s : Before) (op : LrOperand)
    (place : Place) : Prop :=
  Meets (k.given s op.type) place ∧ InForm host c op (k.given s op.type) ∧
    Keeps s.darwin (k.given s op.type)

theorem given_iff_of_mode (hmode : ∀ fixedArgs, k.mode ≠ .darwin fixedArgs) (place : Place) :
    Given host c k s op place ↔
      (Meets (k.given s op.type) place ∧ InForm host c op (k.given s op.type)) := by
  simp [Given, Keeps, not_fpWord_given hmode]

theorem param_fits_iff (hcounts : CountsAgree k s) :
    Given host c k s op (k.param s op.type) ↔ ParamFits host c k s op := by
  obtain ⟨mode, calleeFp, numParams, varWords⟩ := k
  cases mode with
  | plain =>
    rw [given_iff_of_mode (by simp)]
    cases calleeFp with
    | true =>
      have hcallee : s.callee = plainCount s.i := hcounts
      simpa [given, param, ParamFits, hcallee] using
        @plain_fp_fits_iff host c op s.i
    | false => exact plain_fits_iff s.i
  | fp =>
    rw [given_iff_of_mode (by simp)]
    cases calleeFp with
    | true =>
      have hcallee : s.callee = s.caller := hcounts
      simpa [given, param, ParamFits, hcallee] using
        @fp_fits_iff host c op s.caller
    | false =>
      have hcaller : s.caller = plainCount s.i := hcounts
      simpa [given, param, ParamFits, hcaller] using
        @fp_plain_fits_iff host c op s.i
  | darwin fixedArgs =>
    cases calleeFp with
    | true => exact darwin_fp_fits_iff hcounts.1 hcounts.2
    | false => exact darwin_plain_fits_iff hcounts.1 hcounts.2

theorem var_fits_iff : Given host c k s op (k.varPlace s.i) ↔ VarFits host c k s op := by
  obtain ⟨mode, calleeFp, numParams, varWords⟩ := k
  cases mode with
  | plain =>
    rw [given_iff_of_mode (by simp)]
    exact plain_var_fits_iff s.i _
  | fp =>
    rw [given_iff_of_mode (by simp)]
    exact fp_var_fits_iff s.caller _
  | darwin fixedArgs => exact darwin_var_fits_iff s.i _

theorem startVar_regs (n : DarwinCount) :
    n.startVar.fpr = n.fpr ∧ n.startVar.gpr = n.gpr := by
  unfold DarwinCount.startVar
  split <;> exact ⟨rfl, rfl⟩

/-- The registers that an argument of Apple's convention takes. -/
theorem countDarwinArg_regs (fixedArgs : Nat) (n : DarwinCount) (i : Nat) (type : Option LrType) :
    (countDarwinArg fixedArgs n i type).fpr =
        (if i < fixedArgs ∧ isFpAbiType type = true ∧ n.fpr < 8 then n.fpr + 1 else n.fpr) ∧
      (countDarwinArg fixedArgs n i type).gpr =
        if i < fixedArgs ∧ isFpAbiType type = false ∧ n.gpr < 8 then n.gpr + 1 else n.gpr := by
  by_cases hvar : i ≥ fixedArgs
  · have hno : ¬ i < fixedArgs := by omega
    simp [countDarwinArg, hvar, hno, startVar_regs]
  · have hi : i < fixedArgs := by omega
    cases hfp : isFpAbiType type with
    | true =>
      by_cases hlt : n.fpr < 8
      · simp [countDarwinArg, hvar, hi, hfp, hlt]
      · simp [countDarwinArg, DarwinCount.alignNamed, hvar, hfp, hlt]
    | false =>
      by_cases hlt : n.gpr < 8
      · simp [countDarwinArg, hvar, hi, hfp, hlt]
      · simp [countDarwinArg, DarwinCount.alignNamed, hvar, hfp, hlt]

/-- The registers that a parameter which is not a floating point number takes. -/
theorem countParam_gp {n : ArgCount} {type : Option LrType} (hfp : isFpAbiType type = false)
    (hfull : ¬ (isFloatClass type = true ∧ n.fpUsed + 2 ≤ 8)) :
    countParam n type =
      if n.gpUsed < 8 then { n with gpUsed := n.gpUsed + 1 }
      else { n with stackArgs := n.stackArgs + 1 } := by
  have hpair : ¬ ((a64IsComplex8Fp type = true ∨ a64IsComplex16 type = true) ∧
      n.fpUsed + 2 ≤ 8) := by
    intro h
    apply hfull
    simpa [isFloatClass, hfp, or_comm] using h
  rw [countParam, if_neg hpair, if_neg (by simp [hfp])]
  simp [hfp]

/-- Both sides count on in the same way behind a parameter that fits. -/
theorem countsAgree_next (hcounts : CountsAgree k s) (hfits : ParamFits host c k s op) :
    CountsAgree k (k.step s op) := by
  obtain ⟨mode, calleeFp, numParams, varWords⟩ := k
  cases mode with
  | plain =>
    cases calleeFp with
    | true =>
      have hcallee : s.callee = plainCount s.i := hcounts
      have hnext := (fp_plain hfits.1 s.i).2.2
      rw [← hcallee] at hnext
      exact hnext
    | false => trivial
  | fp =>
    cases calleeFp with
    | true =>
      have hcallee : s.callee = s.caller := hcounts
      have hnext := countParam_of_fits hfits
      rw [← hcallee] at hnext
      simpa [CountsAgree, step, Convention.next, hcallee] using hnext
    | false =>
      have hcaller : s.caller = plainCount s.i := hcounts
      have hnext := (fp_plain hfits.1 s.i).1.2
      rw [← hcaller] at hnext
      exact hnext
  | darwin fixedArgs =>
    obtain ⟨hfprNext, hgprNext⟩ := countDarwinArg_regs fixedArgs s.darwin s.i op.type
    cases calleeFp with
    | true =>
      obtain ⟨hfpr, hgpr⟩ := hcounts
      have hfits : DarwinFpFits host c fixedArgs s op := hfits
      simp only [CountsAgree, step, Convention.next, Mode.fixedArgs, hfprNext, hgprNext]
      cases hfp : isFpAbiType op.type with
      | true =>
        rw [DarwinFpFits, if_pos hfp] at hfits
        obtain ⟨h8, h16⟩ := isFloatClass_of_isFpAbi hfp
        simp [countParam, h8, h16, hfp, hfits, hfpr, hgpr]
      | false =>
        rw [DarwinFpFits, if_neg (by simp [hfp])] at hfits
        obtain ⟨-, hpair, hregs⟩ := hfits
        rw [countParam_gp hfp hpair]
        by_cases hlt : s.callee.gpUsed < 8
        · have hi : s.i < fixedArgs := by omega
          simp [hlt, hi, hfpr, hgpr]
        · simp [hlt, hfpr, hgpr]
    | false =>
      obtain ⟨hfpr, hgpr⟩ := hcounts
      obtain ⟨-, hno, -⟩ : DarwinPlainFits host c fixedArgs s op := hfits
      simp only [CountsAgree, step, Convention.next, Mode.fixedArgs, hfprNext, hgprNext]
      constructor
      · have hreg : ¬ (s.i < fixedArgs ∧ isFpAbiType op.type = true ∧ s.darwin.fpr < 8) :=
          fun h => hno ⟨h.2.1, h.1⟩
        rw [if_neg hreg, hfpr]
      · intro hi
        have hlt : s.i < fixedArgs := by omega
        have hfp : isFpAbiType op.type = false := by simpa [hlt] using hno
        rw [hgpr hlt]
        by_cases h8 : s.i < 8
        · have hmin : min s.i 8 < 8 := by omega
          rw [if_pos ⟨hlt, hfp, hmin⟩]
          omega
        · have hmin : ¬ min s.i 8 < 8 := by omega
          rw [if_neg fun h => hmin h.2.2]
          omega

end AllParameters
/-- What lies before the counters. -/
def Taken (n : ArgCount) : Loc → Prop
  | .x r => r.val < n.gpUsed
  | .d r => r.val < n.fpUsed
  | .byte b => b < n.stackArgs * 8

/-- The registers and whole words of a place. -/
def Place.Spans : Place → Loc → Prop
  | .word off _, .byte b | .fpWord off _, .byte b => off ≤ b ∧ b < off + 8
  | place, l => place.Covers l

/-- A place lies between two counts. -/
def Between (n n' : ArgCount) (place : Place) : Prop :=
  (∀ l, Taken n l → Taken n' l) ∧ ∀ l, place.Spans l → ¬ Taken n l ∧ Taken n' l

def Apart (p q : Place) : Prop := ∀ l, ¬ (p.Covers l ∧ q.Covers l)

section Places
variable {n : ArgCount} {type : Option LrType}

theorem val_ofNat {k : Nat} (h : k < 32) : (Fin.ofNat 32 k : Reg).val = k := Nat.mod_eq_of_lt h

theorem taken_mono {n n' : ArgCount} (hgp : n.gpUsed ≤ n'.gpUsed) (hfp : n.fpUsed ≤ n'.fpUsed)
    (hstack : n.stackArgs ≤ n'.stackArgs) (l : Loc) (h : Taken n l) : Taken n' l := by
  cases l with
  | x r => exact lt_of_lt_of_le h hgp
  | d r => exact lt_of_lt_of_le h hfp
  | byte b => exact lt_of_lt_of_le h (Nat.mul_le_mul_right 8 hstack)

theorem between_gpr (h : n.gpUsed < 8) :
    Between n { n with gpUsed := n.gpUsed + 1 } (.gpr (Fin.ofNat 32 n.gpUsed)) := by
  refine ⟨taken_mono (Nat.le_succ _) (le_rfl) (le_rfl), ?_⟩
  intro l hcovers
  cases l with
  | x r =>
    have hr : r.val = n.gpUsed := by rw [hcovers, val_ofNat (by omega)]
    simp [Taken, hr]
  | d r => exact absurd hcovers id
  | byte b => exact absurd hcovers id

theorem between_fp (h : n.fpUsed < 8) (size : Nat) :
    Between n { n with fpUsed := n.fpUsed + 1 } (.fp (Fin.ofNat 32 n.fpUsed) size) := by
  refine ⟨taken_mono (le_rfl) (Nat.le_succ _) (le_rfl), ?_⟩
  intro l hcovers
  cases l with
  | x r => exact absurd hcovers id
  | d r =>
    have hr : r.val = n.fpUsed := by rw [hcovers, val_ofNat (by omega)]
    simp [Taken, hr]
  | byte b => exact absurd hcovers id

theorem between_pair (h : n.fpUsed + 2 ≤ 8) (lane : Nat) :
    Between n { n with fpUsed := n.fpUsed + 2 } (.pair (Fin.ofNat 32 n.fpUsed) lane) := by
  refine ⟨taken_mono (le_rfl) (Nat.le_add_right _ _) (le_rfl), ?_⟩
  intro l hcovers
  cases l with
  | x r => exact absurd hcovers id
  | d r =>
    have hr : r.val = n.fpUsed ∨ r.val = n.fpUsed + 1 := by
      rcases hcovers with hfirst | hsecond
      · left
        rw [hfirst, val_ofNat (by omega)]
      · right
        rw [hsecond, ← ofNat_succ_reg, val_ofNat (by omega)]
    simp only [Taken]
    omega
  | byte b => exact absurd hcovers id

theorem between_stack {place : Place} {count : Nat} (hx : ∀ r, ¬ place.Spans (.x r))
    (hd : ∀ r, ¬ place.Spans (.d r))
    (hbyte : ∀ b, place.Spans (.byte b) → n.stackArgs * 8 ≤ b ∧ b < n.stackArgs * 8 + 8 * count) :
    Between n { n with stackArgs := n.stackArgs + count } place := by
  refine ⟨taken_mono (le_rfl) (le_rfl) (Nat.le_add_right _ _), ?_⟩
  intro l hcovers
  cases l with
  | x r => exact absurd hcovers (hx r)
  | d r => exact absurd hcovers (hd r)
  | byte b =>
    have hb := hbyte b hcovers
    simp only [Taken]
    omega

theorem between_word :
    Between n { n with stackArgs := n.stackArgs + 1 } (.word (n.stackArgs * 8) 8) :=
  between_stack (fun _ => id) (fun _ => id) (fun _ => id)

theorem between_fpWord (size : Nat) :
    Between n { n with stackArgs := n.stackArgs + 1 } (.fpWord (n.stackArgs * 8) size) :=
  between_stack (fun _ => id) (fun _ => id) (fun _ => id)

theorem between_words (count : Nat) :
    Between n { n with stackArgs := n.stackArgs + count } (.words (n.stackArgs * 8) count) :=
  between_stack (fun _ => id) (fun _ => id) (fun _ => id)

theorem between_givenFp (n : ArgCount) (type : Option LrType) :
    Between n (countArg n type) (givenFp n type) := by
  by_cases h16 : a64IsComplex16 type = true
  · by_cases hroom : n.fpUsed + 2 ≤ 8
    · simpa [countArg, givenFp, h16, hroom, -Fin.ofNat_eq_cast] using between_pair hroom 8
    · simpa [countArg, givenFp, h16, hroom] using between_words (n := n) 2
  · by_cases h8 : a64IsComplex8Fp type = true
    · by_cases hroom : n.fpUsed + 2 ≤ 8
      · simpa [countArg, givenFp, h16, h8, hroom, -Fin.ofNat_eq_cast] using between_pair hroom 4
      · simpa [countArg, givenFp, h16, h8, hroom] using between_words (n := n) 1
    · by_cases hfp : isFpAbiType type = true
      · by_cases hlt : n.fpUsed < 8
        · simpa [countArg, givenFp, h16, h8, hfp, hlt, -Fin.ofNat_eq_cast] using
            between_fp hlt (fpAbiSize type)
        · simpa [countArg, givenFp, h16, h8, hfp, hlt] using between_word (n := n)
      · by_cases hgp : n.gpUsed < 8
        · simpa [countArg, givenFp, h16, h8, hfp, hgp, -Fin.ofNat_eq_cast] using between_gpr hgp
        · simpa [countArg, givenFp, h16, h8, hfp, hgp] using between_word (n := n)

theorem between_takenFp (n : ArgCount) (type : Option LrType) :
    Between n (countParam n type) (takenFp n type) := by
  cases hfp : isFpAbiType type with
  | true =>
    obtain ⟨h8, h16⟩ := isFloatClass_of_isFpAbi hfp
    by_cases hlt : n.fpUsed < 8
    · simpa [countParam, takenFp, h16, h8, hfp, hlt, -Fin.ofNat_eq_cast] using
        between_fp hlt (fpAbiSize type)
    · simpa [countParam, takenFp, h16, h8, hfp, hlt] using
        between_fpWord (n := n) (fpAbiSize type)
  | false =>
    rw [takenFp_gp hfp]
    by_cases hpair : isFloatClass type = true ∧ n.fpUsed + 2 ≤ 8
    · have hclass : a64IsComplex8Fp type = true ∨ a64IsComplex16 type = true := by
        simpa [isFloatClass, hfp, or_comm] using hpair.1
      rw [if_pos hpair, countParam, if_pos ⟨hclass, hpair.2⟩]
      exact between_pair hpair.2 _
    · rw [if_neg hpair, countParam_gp hfp hpair]
      by_cases hgp : n.gpUsed < 8
      · rw [if_pos hgp, if_pos hgp]
        exact between_gpr hgp
      · rw [if_neg hgp, if_neg hgp]
        exact between_word

theorem between_plain (i : Nat) : Between (plainCount i) (plainCount (i + 1)) (plainPlace i) := by
  by_cases hi : i < 8
  · have hgp : (plainCount i).gpUsed = i := min_eq_left (by omega)
    have hnext : plainCount (i + 1) =
        { plainCount i with gpUsed := (plainCount i).gpUsed + 1 } := by
      simp only [plainCount, ArgCount.mk.injEq, true_and]
      omega
    have hgpr := between_gpr (n := plainCount i) (by omega)
    rw [← hnext, hgp] at hgpr
    rw [plainPlace, if_pos hi]
    exact hgpr
  · have hnext : plainCount (i + 1) =
        { plainCount i with stackArgs := (plainCount i).stackArgs + 1 } := by
      simp only [plainCount, ArgCount.mk.injEq, true_and]
      omega
    rw [plainPlace, if_neg hi, hnext]
    exact between_word

theorem accessSize_le (size : Nat) : accessSize size ≤ 8 := by
  unfold accessSize
  split <;> omega

theorem fpAccessSize_le (size : Nat) : fpAccessSize size ≤ 8 := by
  unfold fpAccessSize
  split <;> decide

theorem Place.Covers.spans {place : Place} {l : Loc} (h : place.Covers l) : place.Spans l := by
  cases place with
  | word off size =>
    cases l with
    | byte b =>
      have hsize := accessSize_le size
      exact ⟨h.1, by have hb := h.2; omega⟩
    | x r => exact h
    | d r => exact h
  | fpWord off size =>
    cases l with
    | byte b =>
      have hsize := fpAccessSize_le size
      exact ⟨h.1, by have hb := h.2; omega⟩
    | x r => exact h
    | d r => exact h
  | gpr reg => exact h
  | fp reg size => exact h
  | pair reg lane => exact h
  | words off count => exact h

theorem Meets.spans (h : Meets p q) {l : Loc} (hl : p.Spans l) : q.Spans l := by
  unfold Meets at h
  split at h
  · exact h ▸ hl
  · exact h.1 ▸ h.2 ▸ hl
  · exact h.1 ▸ h.2 ▸ hl
  · cases l with
    | byte b => exact h.1 ▸ hl
    | x r => exact hl
    | d r => exact hl
  · cases l with
    | byte b => exact h.1 ▸ hl
    | x r => exact hl
    | d r => exact hl
  · cases l with
    | byte b => exact h.1 ▸ hl
    | x r => exact hl
    | d r => exact hl
  · cases l with
    | byte b => exact h.1 ▸ hl
    | x r => exact hl
    | d r => exact hl
  · rename_i off count off' _
    obtain ⟨hoff, -, hcount⟩ := h
    cases l with
    | byte b =>
      have hb : off ≤ b ∧ b < off + 8 * count := hl
      have hb' : off' ≤ b ∧ b < off' + 8 := by omega
      exact hb'
    | x r => exact hl
    | d r => exact hl
  · exact absurd h id

end Places

section Kept
variable {k : Convention}

/-- Places between two counts each are apart. -/
theorem apart_of_between (count : Before → ArgCount) {s : Before} {args : List LrOperand}
    (h : Throughout k.step
      (fun s op => Between (count s) (count (k.step s op)) (k.given s op.type)) s args) :
    (mapFold k.step (fun s op => k.given s op.type) s args).Pairwise Apart ∧
      (∀ l, Taken (count s) l → Taken (count (args.foldl k.step s)) l) ∧
      ∀ p ∈ mapFold k.step (fun s op => k.given s op.type) s args, ∀ l,
        p.Covers l → ¬ Taken (count s) l ∧ Taken (count (args.foldl k.step s)) l := by
  induction args generalizing s with
  | nil => simp [mapFold]
  | cons op rest ih =>
    obtain ⟨⟨hmono, hhead⟩, htail⟩ := h
    obtain ⟨hapart, hgrow, hrest⟩ := ih htail
    rw [mapFold, foldl_cons, pairwise_cons]
    refine ⟨⟨?_, hapart⟩, fun l hl => hgrow l (hmono l hl), ?_⟩
    · intro q hq l h
      obtain ⟨hp, hq'⟩ := h
      exact (hrest q hq l hq').1 (hhead l hp.spans).2
    · intro p hp l hl
      rcases mem_cons.1 hp with rfl | hp
      · obtain ⟨hnot, htaken⟩ := hhead l hl.spans
        exact ⟨hnot, hgrow l htaken⟩
      · obtain ⟨hnot, htaken⟩ := hrest p hp l hl
        exact ⟨fun h => hnot (hmono l h), htaken⟩

theorem overwrites_iff (p q : Place) :
    ¬ Overwrites q p ↔ Apart p q ∧ ¬ (q.IsFpWord ∧ p.Covers (.d a64D0)) := by
  constructor
  · intro h
    constructor
    · intro l hboth
      exact h ⟨l, Or.inl hboth.2, hboth.1⟩
    · intro hboth
      exact h ⟨_, Or.inr ⟨hboth.1, rfl⟩, hboth.2⟩
  · intro hapart hoverwrites
    obtain ⟨hapart, hd0⟩ := hapart
    obtain ⟨l, hwrites, hp⟩ := hoverwrites
    rcases hwrites with hq | ⟨hq, rfl⟩
    · exact hapart l ⟨hp, hq⟩
    · exact hd0 ⟨hq, hp⟩

/-- An argument of Apple's convention is in D0 or an earlier one is. -/
theorem darwin_d0_iff {n : DarwinCount} {type : Option LrType} :
    0 < (countDarwinArg fixedArgs n i type).fpr ↔
      0 < n.fpr ∨ (givenDarwin fixedArgs n i type).Covers (.d a64D0) := by
  rw [(countDarwinArg_regs fixedArgs n i type).1]
  by_cases hreg : i < fixedArgs ∧ isFpAbiType type = true ∧ n.fpr < 8
  · obtain ⟨hi, hfp, hlt⟩ := hreg
    rw [givenDarwin_fp hfp hi hlt, if_pos ⟨hi, hfp, hlt⟩]
    by_cases hzero : n.fpr = 0
    · simp [Place.Covers, hzero, a64D0]
    · omega
  · rw [if_neg hreg]
    cases hfp : isFpAbiType type with
    | true =>
      rw [givenDarwin_fpWord hfp fun hi => Nat.not_lt.1 fun hlt => hreg ⟨hi, hfp, hlt⟩]
      simp [Place.Covers]
    | false =>
      by_cases hgp : i < fixedArgs ∧ n.gpr < 8
      · rw [givenDarwin_gpr hfp hgp.1 hgp.2]
        simp [Place.Covers]
      · have hfull : i < fixedArgs → 8 ≤ n.gpr := by omega
        obtain ⟨size, hgiven⟩ := givenDarwin_word hfp hfull
        rw [hgiven]
        simp [Place.Covers]

/-- No number is stored from D0 while D0 holds an argument. -/
theorem d0_kept_iff (hmode : k.mode = .darwin fixedArgs) (s : Before) (args : List LrOperand) :
    ((mapFold k.step (fun s op => k.given s op.type) s args).Pairwise
        (fun p q => ¬ (q.IsFpWord ∧ p.Covers (.d a64D0))) ∧
      (0 < s.darwin.fpr →
        ∀ q ∈ mapFold k.step (fun s op => k.given s op.type) s args, ¬ q.IsFpWord)) ↔
      Throughout k.step (fun s op => Keeps s.darwin (k.given s op.type)) s args := by
  induction args generalizing s with
  | nil => simp [mapFold, Throughout]
  | cons op rest ih =>
    have hgiven : k.given s op.type = givenDarwin fixedArgs s.darwin s.i op.type := by
      rw [given, hmode]
    have hnext : (k.step s op).darwin = countDarwinArg fixedArgs s.darwin s.i op.type := by
      simp [step, Convention.next, hmode, Mode.fixedArgs]
    have hd0 : 0 < (k.step s op).darwin.fpr ↔
        0 < s.darwin.fpr ∨ (k.given s op.type).Covers (.d a64D0) := by
      rw [hnext, hgiven]
      exact darwin_d0_iff
    have hkeeps : Keeps s.darwin (k.given s op.type) ↔
        (0 < s.darwin.fpr → ¬ (k.given s op.type).IsFpWord) := by
      unfold Keeps Place.IsFpWord
      constructor
      · intro h hpos hword
        have hzero := h hword
        omega
      · intro h hword
        by_contra hpos
        exact h (by omega) hword
    rw [mapFold, Throughout, ← ih, pairwise_cons, hkeeps, hd0]
    constructor
    · intro h
      obtain ⟨⟨hhead, hrest⟩, hword⟩ := h
      refine ⟨fun hpos => hword hpos _ mem_cons_self, hrest, ?_⟩
      intro hpos q hq hfp
      rcases hpos with hpos | hcovers
      · exact hword hpos q (mem_cons_of_mem _ hq) hfp
      · exact hhead q hq ⟨hfp, hcovers⟩
    · intro h
      obtain ⟨hhead, hrest, hword⟩ := h
      refine ⟨⟨fun q hq hboth => hword (Or.inr hboth.2) q hq hboth.1, hrest⟩, ?_⟩
      intro hpos q hq
      rcases mem_cons.1 hq with rfl | hq
      · exact hhead hpos
      · exact hword (Or.inl hpos) q hq

end Kept
section WholeCalls
variable {host : A64Host} {c : A64Ctx} {k : Convention} {args : List LrOperand}

/-- The arguments and their places in the order of the arguments. -/
def placed (k : Convention) (args : List LrOperand) : List (LrOperand × Place) :=
  mapFold k.step (fun s op => (op, k.given s op.type)) {} args

theorem puts_perm (k : Convention) (args : List LrOperand) :
    (k.puts args).Perm (placed k args) := by
  unfold puts
  split
  · rw [placed]
    have hsplit := take_append_drop 8
      (mapFold k.step (fun s op => (op, k.given s op.type)) {} args)
    exact perm_append_comm.trans (by rw [hsplit])
  · exact List.Perm.refl _

theorem placed_snd (k : Convention) (args : List LrOperand) :
    (placed k args).map Prod.snd = k.givens args := Lib.map_mapFold _ _ _ _

theorem inForm_iff :
    (∀ p ∈ k.puts args, InForm host c p.1 p.2) ↔
      Throughout k.step (fun s op => InForm host c op (k.given s op.type)) {} args := by
  rw [← Throughout.forall_mem_iff (f := fun s op => (op, k.given s op.type))
    (R := fun p => InForm host c p.1 p.2)]
  constructor
  · intro h p hp
    exact h p ((puts_perm k args).mem_iff.2 hp)
  · intro h p hp
    exact h p ((puts_perm k args).mem_iff.1 hp)

theorem apart_symm (h : Apart p q) : Apart q p :=
  fun l hboth => h l ⟨hboth.2, hboth.1⟩

theorem givens_apart (hmode : ∀ fixedArgs, k.mode ≠ .darwin fixedArgs) :
    (k.givens args).Pairwise Apart := by
  cases hm : k.mode with
  | plain =>
    refine (apart_of_between (fun s => plainCount s.i) (Throughout.of_forall ?_)).1
    intro s op
    rw [given, hm]
    exact between_plain s.i
  | fp =>
    refine (apart_of_between Before.caller (Throughout.of_forall ?_)).1
    intro s op
    rw [given, hm]
    exact between_givenFp s.caller op.type
  | darwin fixedArgs => exact absurd hm (hmode fixedArgs)

/-- Without Apple's convention no argument goes over another. -/
theorem kept_of_mode (hmode : ∀ fixedArgs, k.mode ≠ .darwin fixedArgs) :
    (k.puts args).Pairwise fun p q => ¬ Overwrites q.2 p.2 := by
  have hapart : (placed k args).Pairwise fun p q => Apart p.2 q.2 := by
    have hgivens : (k.givens args).Pairwise Apart := givens_apart hmode
    rwa [← placed_snd, pairwise_map] at hgivens
  have hword : ∀ p ∈ placed k args, ¬ p.2.IsFpWord := by
    refine Throughout.forall_mem_iff.2 (Throughout.of_forall ?_)
    intro s op
    exact not_fpWord_given hmode op.type
  rw [← (puts_perm k args).pairwise_iff fun h => apart_symm h] at hapart
  apply hapart.imp_of_mem
  intro p q _ hq h
  rw [overwrites_iff]
  exact ⟨h, fun hd0 => hword q ((puts_perm k args).mem_iff.1 hq) hd0.1⟩

/-- With Apple's convention the arguments are put in their order. -/
theorem kept_iff_of_darwin (hmode : k.mode = .darwin fixedArgs) :
    (k.puts args).Pairwise (fun p q => ¬ Overwrites q.2 p.2) ↔
      (k.givens args).Pairwise Apart ∧
        Throughout k.step (fun s op => Keeps s.darwin (k.given s op.type)) {} args := by
  have hputs : k.puts args = placed k args := by
    rw [puts, if_neg (by simp [hmode])]
    rfl
  have hgivens : (k.givens args).Pairwise (fun p q => ¬ Overwrites q p) ↔
      (placed k args).Pairwise (fun p q => ¬ Overwrites q.2 p.2) := by
    rw [← placed_snd, pairwise_map]
  rw [hputs, ← hgivens, ← d0_kept_iff hmode]
  simp only [overwrites_iff, pairwise_and_iff]
  simp [givens]

/-- The counters of the prologue before a parameter. -/
def paramCount (k : Convention) (s : Before) : ArgCount :=
  if k.calleeFp then s.callee else plainCount s.i

theorem between_param (s : Before) (op : LrOperand) :
    Between (paramCount k s) (paramCount k (k.step s op)) (k.param s op.type) := by
  unfold paramCount param
  split
  · exact between_takenFp s.callee op.type
  · exact between_plain s.i

/-- All registers, and the words before a variable argument. -/
def varCount (k : Convention) (s : Before) : ArgCount where
  gpUsed := 32
  fpUsed := 32
  stackArgs := k.varWords + (s.i - k.numParams)

theorem between_var {s : Before} (hi : k.numParams ≤ s.i) (op : LrOperand) :
    Between (varCount k s) (varCount k (k.step s op)) (k.varPlace s.i) := by
  have hnext : varCount k (k.step s op) =
      { varCount k s with stackArgs := (varCount k s).stackArgs + 1 } := by
    simp only [varCount, step, Convention.next, ArgCount.mk.injEq, true_and]
    omega
  rw [hnext]
  exact between_word

theorem Between.of_meets {n n' : ArgCount} (h : Between n n' q) (hmeets : Meets p q) :
    Between n n' p := ⟨h.1, fun l hl => h.2 l (hmeets.spans hl)⟩

/-- The two counts of the prologue of a function with floating point registers. -/
theorem vararg_count (hmode : k.mode = .darwin fixedArgs) (hfp : k.calleeFp = true) (s : Before)
    (h : Throughout k.step (ParamFits host c k) s args) :
    (args.foldl k.step s).callee = (args.map (·.type)).foldl countVarargParam s.callee := by
  induction args generalizing s with
  | nil => rfl
  | cons op rest ih =>
    obtain ⟨hhead, htail⟩ := h
    have hfits : DarwinFpFits host c fixedArgs s op := by
      simpa [ParamFits, hmode, hfp] using hhead
    have hcount : countParam s.callee op.type = countVarargParam s.callee op.type := by
      cases htype : isFpAbiType op.type with
      | true =>
        rw [DarwinFpFits, if_pos htype] at hfits
        obtain ⟨h8, h16⟩ := isFloatClass_of_isFpAbi htype
        simp [countParam, countVarargParam, h8, h16, htype, hfits]
      | false =>
        rw [DarwinFpFits, if_neg (by simp [htype])] at hfits
        rw [countParam_gp htype hfits.2.1]
        simp [countVarargParam, htype]
    have hstep : (k.step s op).callee = countVarargParam s.callee op.type := hcount
    rw [foldl_cons, ih _ htail, hstep]
    rfl

theorem foldl_step_i (k : Convention) (args : List LrOperand) (s : Before) :
    (args.foldl k.step s).i = s.i + args.length := by
  induction args generalizing s with
  | nil => rfl
  | cons op rest ih =>
    rw [foldl_cons, ih]
    simp only [step, Convention.next, length_cons]
    omega

/-- The arguments of a function with these parameters. -/
structure Matches (k : Convention) (types : List LrType) (args : List LrOperand) : Prop where
  numParams : k.numParams = types.length
  varWords : k.varWords = varargStackWords k.calleeFp (types.map some)
  types : (args.take k.numParams).map (·.type) = types.map some

theorem Matches.take_length (h : Matches k types args) :
    (args.take k.numParams).length = k.numParams := by
  have hlen := congrArg List.length h.types
  simpa [← h.numParams] using hlen

theorem Matches.i_eq (h : Matches k types args) : (varStart k args).i = k.numParams := by
  rw [varStart, foldl_step_i, h.take_length, Nat.zero_add]

theorem params_fit_iff :
    Throughout k.step (fun s op => Given host c k s op (k.param s op.type)) {} args ↔
      Throughout k.step (ParamFits host c k) {} args :=
  Throughout.congr (fun _ _ hcounts => param_fits_iff hcounts)
    (fun _ _ hcounts hfits => countsAgree_next hcounts hfits) countsAgree_start

theorem vars_fit_iff {s : Before} :
    Throughout k.step (fun s op => Given host c k s op (k.varPlace s.i)) s args ↔
      Throughout k.step (VarFits host c k) s args :=
  Throughout.congr (I := fun _ => True) (fun _ _ _ => var_fits_iff) (fun _ _ _ _ => trivial)
    trivial

/-- `va_start` counts the words of the stack that the parameters take. -/
theorem paramCount_varStart (h : Matches k types args) (hmode : k.mode = .darwin fixedArgs)
    (hfits : Throughout k.step (ParamFits host c k) {} (args.take k.numParams)) :
    (paramCount k (varStart k args)).stackArgs = k.varWords := by
  unfold paramCount
  cases hfp : k.calleeFp with
  | true =>
    have hcount := vararg_count hmode hfp {} hfits
    rw [if_pos rfl, varStart, hcount, h.types, h.varWords, hfp]
    rfl
  | false =>
    rw [if_neg (by decide), h.i_eq, h.varWords, hfp, h.numParams]
    simp [plainCount, varargStackWords]

theorem givens_split (k : Convention) (args : List LrOperand) :
    k.givens args = mapFold k.step (fun s op => k.given s op.type) {} (args.take k.numParams) ++
      mapFold k.step (fun s op => k.given s op.type) (varStart k args) (args.drop k.numParams) := by
  rw [varStart, ← Lib.mapFold_append, take_append_drop]
  rfl

theorem throughout_split {P : Before → LrOperand → Prop} :
    Throughout k.step P {} args ↔ Throughout k.step P {} (args.take k.numParams) ∧
      Throughout k.step P (varStart k args) (args.drop k.numParams) := by
  rw [varStart, ← Throughout.append, take_append_drop]

/-- With Apple's convention arguments that meet the callee's places are apart. -/
theorem givens_apart_of_darwin (h : Matches k types args) (hmode : k.mode = .darwin fixedArgs)
    (hfits : ArgsFit host c k args) :
    (k.givens args).Pairwise Apart := by
  obtain ⟨hparams, hvars⟩ := hfits
  have hfirst := apart_of_between (paramCount k) ((params_fit_iff.2 hparams).mono_of_inv
    (I := fun _ => True) (fun s op _ hgiven => (between_param s op).of_meets hgiven.1)
    (fun _ _ _ => trivial) trivial)
  have hsecond := apart_of_between (varCount k) ((vars_fit_iff.2 hvars).mono_of_inv
    (I := fun s => k.numParams ≤ s.i)
    (fun s op hi hgiven => (between_var hi op).of_meets hgiven.1)
    (fun s op hi => Nat.le_succ_of_le hi) (le_of_eq h.i_eq.symm))
  have htaken : ∀ l, Taken (paramCount k (varStart k args)) l →
      Taken (varCount k (varStart k args)) l := by
    intro l hl
    cases l with
    | x r => exact r.isLt
    | d r => exact r.isLt
    | byte b =>
      have hwords := paramCount_varStart h hmode hparams
      have hb : b < (paramCount k (varStart k args)).stackArgs * 8 := hl
      simp only [Taken, varCount]
      omega
  rw [givens_split, pairwise_append]
  refine ⟨hfirst.1, hsecond.1, ?_⟩
  intro p hp q hq l h
  obtain ⟨hpl, hql⟩ := h
  exact (hsecond.2.2 q hq l hql).1 (htaken l (hfirst.2.2 p hp l hpl).2)

/-- The places in which the callee looks for variable arguments. -/
theorem map_varPlace (s : Before) (args : List LrOperand) :
    (range' s.i args.length).map k.varPlace =
      mapFold k.step (fun s _ => k.varPlace s.i) s args := by
  induction args generalizing s with
  | nil => rfl
  | cons op rest ih =>
    have hrest := ih (k.step s op)
    rw [show (k.step s op).i = s.i + 1 from rfl] at hrest
    simp [mapFold, range'_succ, hrest]

/-- The places of the callee, in the two parts of the arguments. -/
theorem meets_iff (h : Matches k types args) :
    List.Forall₂ Meets (k.givens args) (k.wanted types args.length) ↔
      Throughout k.step (fun s op => Meets (k.given s op.type) (k.param s op.type)) {}
          (args.take k.numParams) ∧
        Throughout k.step (fun s op => Meets (k.given s op.type) (k.varPlace s.i)) (varStart k args)
          (args.drop k.numParams) := by
  have hparams : mapFold k.next k.param {} (types.map some) =
      mapFold k.step (fun s op => k.param s op.type) {} (args.take k.numParams) := by
    rw [← h.types, Lib.mapFold_map]
    rfl
  have hvars : (range' k.numParams (args.length - k.numParams)).map k.varPlace =
      mapFold k.step (fun s _ => k.varPlace s.i) (varStart k args) (args.drop k.numParams) := by
    rw [← map_varPlace, h.i_eq, length_drop]
  rw [wanted, hparams, hvars, givens_split, Lib.forall₂_append_iff (by simp)]
  rw [Throughout.forall₂_iff, Throughout.forall₂_iff]

/-- What each argument needs is what the call needs. -/
theorem passed_iff_fits (h : Matches k types args) :
    (List.Forall₂ Meets (k.givens args) (k.wanted types args.length) ∧
        (∀ p ∈ k.puts args, InForm host c p.1 p.2) ∧
        (k.puts args).Pairwise fun p q => ¬ Overwrites q.2 p.2) ↔
      ArgsFit host c k args := by
  have hall : (List.Forall₂ Meets (k.givens args) (k.wanted types args.length) ∧
      Throughout k.step (fun s op => InForm host c op (k.given s op.type)) {} args ∧
      Throughout k.step (fun s op => Keeps s.darwin (k.given s op.type)) {} args) ↔
      ArgsFit host c k args := by
    rw [ArgsFit, ← params_fit_iff, ← vars_fit_iff, meets_iff h]
    rw [throughout_split (P := fun s op => InForm host c op (k.given s op.type)),
      throughout_split (P := fun s op => Keeps s.darwin (k.given s op.type))]
    simp only [Given, Throughout.and]
    tauto
  rw [inForm_iff]
  cases hmode : k.mode with
  | darwin fixedArgs =>
    constructor
    · intro h
      obtain ⟨hmeets, hform, hkept⟩ := h
      exact hall.1 ⟨hmeets, hform, ((kept_iff_of_darwin hmode).1 hkept).2⟩
    · intro hfits
      obtain ⟨hmeets, hform, hkeeps⟩ := hall.2 hfits
      exact ⟨hmeets, hform,
        (kept_iff_of_darwin hmode).2 ⟨givens_apart_of_darwin h hmode hfits, hkeeps⟩⟩
  | plain =>
    have hno : ∀ fixedArgs, k.mode ≠ .darwin fixedArgs := by simp [hmode]
    rw [← hall]
    simp [kept_of_mode hno, Keeps, not_fpWord_given hno, Throughout.of_forall]
  | fp =>
    have hno : ∀ fixedArgs, k.mode ≠ .darwin fixedArgs := by simp [hmode]
    rw [← hall]
    simp [kept_of_mode hno, Keeps, not_fpWord_given hno, Throughout.of_forall]

end WholeCalls

/-- A result: a pair is in a register of the callee, a floating point number is left and
read by the same convention, and a value of more than eight bytes is a pointer in both
functions. -/
def WholeResultFits (c : A64Ctx) (desc : LrInst) (abi : CallAbi) (func : LrFunc) (c' : A64Ctx)
    (op' : LrOperand) : Prop :=
  if a64IsComplex16 desc.type || a64IsComplex8Fp desc.type then isVreg op' = true
  else if isFpAbiType desc.type then abi.useFpAbi = func.usesLlvmAbi
  else typeSize desc.type ≤ 8 ∨
    ((∃ v, op'.value = .vreg v ∧
        c'.usesIndirectAggregateStorage v (typeSize desc.type) = true) ∧
      c.usesIndirectAggregateStorage desc.dest (typeSize desc.type) = true)

/-- The condition on the result of a call. -/
def ResultFits (c : A64Ctx) (desc : LrInst) (abi : CallAbi) (func : LrFunc) (c' : A64Ctx)
    (op' : LrOperand) : Prop :=
  isVoidType desc.type = true ∨ WholeResultFits c desc abi func c' op'

section Calls
variable {host : A64Host} {apple : Bool} {c : A64Ctx} {desc : LrInst} {callee : LrOperand}
  {args : List LrOperand} {func : LrFunc} {c' : A64Ctx} {op' : LrOperand}

theorem whole_iff :
    (resultPlace func.usesLlvmAbi desc.type = resultPlace abi.useFpAbi desc.type ∧
      ResultInForm c desc c' op' (resultPlace abi.useFpAbi desc.type)) ↔
      WholeResultFits c desc abi func c' op' := by
  by_cases h16 : a64IsComplex16 desc.type = true
  · simp [WholeResultFits, resultPlace, ResultInForm, h16]
  · by_cases h8 : a64IsComplex8Fp desc.type = true
    · simp [WholeResultFits, resultPlace, ResultInForm, h16, h8]
    · cases hfp : isFpAbiType desc.type with
      | false => simp [WholeResultFits, resultPlace, ResultInForm, h16, h8, hfp]
      | true =>
        have hword : ResultInForm c desc c' op' (.gpr a64X0) := Or.inl (typeSize_of_isFpAbi hfp)
        have hnumber : ResultInForm c desc c' op' (.fp a64D0 (fpAbiSize desc.type)) := trivial
        cases habi : abi.useFpAbi with
        | false =>
          cases hfunc : func.usesLlvmAbi with
          | false => simp [WholeResultFits, resultPlace, hword, h16, h8, hfp, habi, hfunc]
          | true => simp [WholeResultFits, resultPlace, h16, h8, hfp, habi, hfunc]
        | true =>
          cases hfunc : func.usesLlvmAbi with
          | false => simp [WholeResultFits, resultPlace, h16, h8, hfp, habi, hfunc]
          | true => simp [WholeResultFits, resultPlace, hnumber, h16, h8, hfp, habi, hfunc]

theorem resultPassed_iff (htype : desc.type = some func.retType) (hret : c'.retType = func.retType)
    (hfp : c'.funcUsesFpAbi = func.usesLlvmAbi) :
    ResultPassed host c desc abi func c' op' ↔ ResultFits c desc abi func c' op' := by
  have hleaves : emitRet host op' c' =
      leave host op' (resultPlace func.usesLlvmAbi (some func.retType)) c' := by
    rw [emitRet_eq, hret, hfp]
  constructor
  · intro h
    have hwhole := h.whole
    rw [← htype, whole_iff] at hwhole
    exact hwhole
  · intro h
    refine ⟨hleaves, emitCallResult_eq desc _, ?_⟩
    rw [← htype, whole_iff]
    exact h

theorem retType_of_signature (hsig : callSignatureMatchesFunc desc func = true) :
    desc.type = some func.retType := by
  simp only [callSignatureMatchesFunc, Bool.and_eq_true, beq_iff_eq] at hsig
  exact hsig.1.1.symm

/-- A call with the types of the function. -/
theorem matches_convention (hops : desc.operands = callee :: args)
    (hsig : callSignatureMatchesFunc desc func = true) :
    Matches (convention apple abi func args.length) func.paramTypes args := by
  simp only [callSignatureMatchesFunc, hops, drop_succ_cons, drop_zero, Bool.and_eq_true] at hsig
  obtain ⟨⟨-, hcount⟩, htypes⟩ := hsig
  have hlen : func.paramTypes.length ≤ args.length := by
    split at hcount
    · exact of_decide_eq_true hcount
    · exact le_of_eq (by simpa using hcount)
  refine ⟨rfl, rfl, ?_⟩
  apply ext_getElem
  · simp [convention, hlen]
  · intro i hi hi'
    rw [length_map] at hi'
    have hmem : (func.paramTypes[i], args[i]) ∈ func.paramTypes.zip args := by
      rw [mem_iff_getElem]
      exact ⟨i, by rw [length_zip]; omega, getElem_zip⟩
    have htype := all_eq_true.1 htypes _ hmem
    simpa using htype

/-- `va_start` of a function with variable arguments. -/
theorem varargStart_eq (hvararg : func.vararg = true) (nextVreg : Nat) (mod : LrModule)
    (obj : Option ObjfileCtx) (symDefined : List Bool) (symFuncs : List (Option LrFunc)) :
    (initialCtx (calleeMeta func nextVreg) mod obj symDefined symFuncs).varargStackStartOff =
      BitVec.ofNat 32
        (16 + varargStackWords func.usesLlvmAbi (func.paramTypes.map some) * 8) := by
  have htypes : (range func.paramTypes.length).map (calleeMeta func nextVreg).paramType =
      func.paramTypes.map some := by
    apply ext_getElem
    · simp
    · intro i hi _
      rw [length_map, length_range] at hi
      simp [CompileFuncMeta.paramType, calleeMeta, hi]
  have hmeta : (calleeMeta func nextVreg).vararg = true := hvararg
  rw [← htypes]
  exact if_pos hmeta

/-- A call and its callee agree exactly if the arguments and the result fit. -/
theorem calls_agree_iff (hops : desc.operands = callee :: args)
    (hsig : callSignatureMatchesFunc desc func = true)
    (hret : c'.retType = func.retType) (hfp : c'.funcUsesFpAbi = func.usesLlvmAbi) :
    let abi := directCallUsesExternalFpAbi c desc callee
    let k := convention apple abi func args.length
    (ArgsPassed host apple c desc callee args func abi k ∧
        ResultPassed host c desc abi func c' op') ↔
      (ArgsFit host c k args ∧ ResultFits c desc abi func c' op') := by
  intro abi k
  have hmatches : Matches k func.paramTypes args := matches_convention hops hsig
  have hfits : _ ↔ ArgsFit host c k args := passed_iff_fits hmatches
  rw [resultPassed_iff (retType_of_signature hsig) hret hfp, ← hfits]
  apply and_congr_left
  intro _
  constructor
  · intro h
    exact ⟨h.meets, h.form, h.kept⟩
  · intro h
    obtain ⟨hmeets, hform, hkept⟩ := h
    refine ⟨?_, ?_, ?_, hmeets, hform, hkept⟩
    · rw [← emitCallArgs_eq host k rfl]
      rfl
    · intro nextVreg mod obj symDefined symFuncs
      exact aarch64CompileBegin_eq k rfl nextVreg mod obj symDefined symFuncs
    · intro hvararg nextVreg mod obj symDefined symFuncs
      exact varargStart_eq hvararg nextVreg mod obj symDefined symFuncs

end Calls
def sampleHost : A64Host where
  fmod := 0
  fmodf := 0

/-- A complex number of 16 bytes. -/
def twoDoubles : LrType := .struct 9 [.scalar 2 .double, .scalar 2 .double] false none

variable (count : Nat)

/-- A function whose parameters are `count` complex numbers. -/
def pairsFunc : LrFunc where
  name := cstr "f"
  symbolId := 0
  type := .scalar 1 .void
  retType := .scalar 0 .void
  paramTypes := replicate count twoDoubles
  vararg := false
  usesLlvmAbi := true

def pairsCtx : A64Ctx where
  mod := {
    funcs := [pairsFunc count]
    symbols := ⟨[cstr "f"], [symbolHash (cstr "f")], 64, []⟩
    builtin := lrModuleCreateTypes 0
    nextAddr := 11 }
  symDefined := [true]
  symFuncs := [some (pairsFunc count)]
  retType := .scalar 0 .void

def pairsCallee : LrOperand := ⟨.global 0, some (.ptr 8 none), 0⟩

def pairsArgs : List LrOperand :=
  (range count).map fun i => ⟨.vreg (i + 1), some twoDoubles, 0⟩

def pairsCall : LrInst where
  op := .call
  type := some (.scalar 0 .void)
  dest := 0
  operands := pairsCallee :: pairsArgs count

/-- The context of the return. -/
def pairsRet : A64Ctx := { pairsCtx count with funcUsesFpAbi := true }

def PairsAgree : Prop :=
  let abi := directCallUsesExternalFpAbi (pairsCtx count) (pairsCall count) pairsCallee
  let k := convention false abi (pairsFunc count) (pairsArgs count).length
  ArgsPassed sampleHost false (pairsCtx count) (pairsCall count) pairsCallee (pairsArgs count)
      (pairsFunc count) abi k ∧
    ResultPassed sampleHost (pairsCtx count) (pairsCall count) abi (pairsFunc count)
      (pairsRet count) ⟨.undef, some (.scalar 0 .void), 0⟩

theorem pairs_convention (h : count ≤ 5) :
    convention false (directCallUsesExternalFpAbi (pairsCtx count) (pairsCall count) pairsCallee)
        (pairsFunc count) (pairsArgs count).length = ⟨.fp, true, count, 0⟩ := by
  interval_cases count <;> decide

theorem calls_agree_iff_four_pairs : PairsAgree 4 := by
  refine (calls_agree_iff rfl (by decide) rfl rfl).2 ⟨?_, Or.inl rfl⟩
  rw [pairs_convention 4 (by decide)]
  exact ⟨⟨⟨rfl, by decide⟩, ⟨rfl, by decide⟩, ⟨rfl, by decide⟩, ⟨rfl, by decide⟩, trivial⟩, trivial⟩

/-- The fifth pair is put in two words of the stack and taken from X0. -/
theorem fifth_pair_not_taken : ¬ PairsAgree 5 := by
  intro h
  obtain ⟨hargs, -⟩ := h
  have hmeets := hargs.meets
  rw [pairs_convention 5 (by decide)] at hmeets
  have hgivens : givens ⟨.fp, true, 5, 0⟩ (pairsArgs 5) =
      [.pair 0 8, .pair 2 8, .pair 4 8, .pair 6 8, .words 0 2] := by decide
  have hwanted : wanted ⟨.fp, true, 5, 0⟩ (pairsFunc 5).paramTypes
      (pairsArgs 5).length = [.pair 0 8, .pair 2 8, .pair 4 8, .pair 6 8, .gpr 0] := by decide
  rw [hgivens, hwanted] at hmeets
  simp [Meets] at hmeets

end Liric.Guarantees.Aarch64Calls
