import Liric.Guarantees.Aarch64Code
import Liric.Lib.Folds

/-!
# Places of arguments on aarch64

The code of a call puts every argument in one place, and the prologue of a function takes
every parameter from one place. The places are written once here, for each of the
three ways to make a call and of the two ways to compile a function, and the code
is `put` and `take` at these places.
-/
namespace Liric.Guarantees.Aarch64Calls
open Source.Ir Source.Object Source.Aarch64 List
open Lib (Throughout mapFold)
open Lib.A64 (Reg Env State exec execAll atWidth addSub)

/-- Where an argument is when the callee starts. Offsets are in bytes from the stack
pointer of the call. -/
inductive Place where
  | gpr (reg : Reg)
  | fp (reg : Reg) (size : Nat)
  /-- Two lanes in two registers. -/
  | pair (reg : Reg) (lane : Nat)
  | word (off size : Nat)
  /-- A floating point number that is stored from, or loaded into, a register. -/
  | fpWord (off size : Nat)
  /-- The bytes of a value. -/
  | words (off count : Nat)
  deriving DecidableEq

/-- The code that puts an argument in a place. -/
def put (host : A64Host) (op : LrOperand) : Place → A64M Unit
  | .gpr reg => emitLoadOperand host op reg
  | .fp reg size => emitLoadFpOperand host op reg size
  | .pair reg lane => do
    emitVregDataAddr host op a64X9
    emitFpLoad reg a64X9 0 lane
    emitFpLoad (reg + 1) a64X9 (BitVec.ofNat 32 lane) lane
  | .word off size => do
    emitLoadOperand host op a64X9
    emitStore a64X9 a64Sp (BitVec.ofNat 32 off) size
  | .fpWord off size => do
    emitLoadFpOperand host op a64D0 size
    emitFpStore a64D0 a64Sp (BitVec.ofNat 32 off) size
  | .words off count => do
    emitVregDataAddr host op a64X9
    (range count).forM fun k => do
      emitLoad a64X10 a64X9 (BitVec.ofNat 32 (8 * k)) 8
      emitStore a64X10 a64Sp (BitVec.ofNat 32 (off + 8 * k)) 8

/-- The code that takes a parameter from a place; the caller's stack pointer is 16 bytes
above the frame pointer. -/
def take (vreg : Nat) : Place → A64M Unit
  | .gpr reg => emitStoreSlot vreg reg
  | .fp reg size => emitStoreFpSlot vreg reg size
  | .pair reg lane => do
    let off ← allocSlot vreg (BitVec.ofNat 64 (2 * lane))
    emitFpStore reg a64Fp off lane
    emitFpStore (reg + 1) a64Fp (off + BitVec.ofNat 32 lane) lane
  | .word off _ => do
    emitLoad a64X9 a64Fp (BitVec.ofNat 32 (16 + off)) 8
    emitStoreSlot vreg a64X9
  | .fpWord off size => do
    emitFpLoad fpScratch0 a64Fp (BitVec.ofNat 32 (16 + off)) size
    emitStoreFpSlot vreg fpScratch0 size
  | .words .. => pure ()

variable (n : ArgCount)

/-- An argument of a call with floating point registers. -/
def givenFp (type : Option LrType) : Place :=
  let fpReg : Reg := Fin.ofNat 32 n.fpUsed
  let off := n.stackArgs * 8
  if a64IsComplex16 type ∧ n.fpUsed + 2 ≤ 8 then .pair fpReg 8
  else if a64IsComplex16 type then .words off 2
  else if a64IsComplex8Fp type ∧ n.fpUsed + 2 ≤ 8 then .pair fpReg 4
  else if a64IsComplex8Fp type then .words off 1
  else if isFpAbiType type ∧ n.fpUsed < 8 then .fp fpReg (fpAbiSize type)
  else if ¬ isFpAbiType type ∧ n.gpUsed < 8 then .gpr (Fin.ofNat 32 n.gpUsed)
  else .word off 8

/-- An argument on the stack of a call with Apple's variable arguments. -/
def givenDarwinStack (type : Option LrType) (off size : Nat) : Place :=
  if isFpAbiType type then .fpWord off (fpAbiSize type) else .word off size

/-- An argument of a call with Apple's variable arguments. -/
def givenDarwin (fixedArgs : Nat) (n : DarwinCount) (i : Nat) (type : Option LrType) : Place :=
  if i ≥ fixedArgs then givenDarwinStack type n.startVar.varOff.toNat 8
  else if isFpAbiType type ∧ n.fpr < 8 then .fp (Fin.ofNat 32 n.fpr) (fpAbiSize type)
  else if ¬ isFpAbiType type ∧ n.gpr < 8 then .gpr (Fin.ofNat 32 n.gpr)
  else
    let sz := darwinNamedSize type
    givenDarwinStack type (n.alignNamed type).namedOff.toNat (if sz > 8 then 8 else sz.toNat)

/-- The arguments and parameters that are all eight bytes. -/
def plainPlace (i : Nat) : Place :=
  if i < 8 then .gpr (Fin.ofNat 32 i) else .word ((i - 8) * 8) 8

/-- A parameter of a function with floating point registers. -/
def takenFp (type : Option LrType) : Place :=
  let fpReg : Reg := Fin.ofNat 32 n.fpUsed
  let off := n.stackArgs * 8
  if a64IsComplex8Fp type ∧ n.fpUsed + 2 ≤ 8 then .pair fpReg 4
  else if a64IsComplex16 type ∧ n.fpUsed + 2 ≤ 8 then .pair fpReg 8
  else if isFpAbiType type ∧ n.fpUsed < 8 then .fp fpReg (fpAbiSize type)
  else if ¬ isFpAbiType type ∧ n.gpUsed < 8 then .gpr (Fin.ofNat 32 n.gpUsed)
  else if isFpAbiType type then .fpWord off (fpAbiSize type)
  else .word off 8

/-- The counters of the prologue behind a parameter. -/
def countParam (type : Option LrType) : ArgCount :=
  if (a64IsComplex8Fp type ∨ a64IsComplex16 type) ∧ n.fpUsed + 2 ≤ 8 then
    { n with fpUsed := n.fpUsed + 2 }
  else if isFpAbiType type ∧ n.fpUsed < 8 then { n with fpUsed := n.fpUsed + 1 }
  else if ¬ isFpAbiType type ∧ n.gpUsed < 8 then { n with gpUsed := n.gpUsed + 1 }
  else { n with stackArgs := n.stackArgs + 1 }

section Code
variable (host : A64Host)

theorem ofNat_succ_reg (k : Nat) : (Fin.ofNat 32 (k + 1) : Reg) = Fin.ofNat 32 k + 1 := by
  apply Fin.ext
  simp [Fin.val_add, Fin.ofNat]

variable {type : Option LrType}

theorem isComplex8_of_isComplex16 (h : a64IsComplex16 type = true) :
    a64IsComplex8Fp type = false ∧ isFpAbiType type = false := by
  unfold a64IsComplex16 isPairOf at h
  unfold a64IsComplex8Fp isPairOf isFpAbiType
  split at h
  · simp_all
  · simp_all
  · cases h

theorem isFpAbi_of_isComplex8 (h : a64IsComplex8Fp type = true) :
    a64IsComplex16 type = false ∧ isFpAbiType type = false := by
  unfold a64IsComplex8Fp isPairOf at h
  unfold a64IsComplex16 isPairOf isFpAbiType
  split at h
  · simp_all
  · simp_all
  · cases h

theorem emitArg_eq (op : LrOperand) :
    emitArg host n op = (do
      put host op (givenFp n op.type)
      pure (countArg n op.type)) := by
  by_cases hroom : n.fpUsed + 2 ≤ 8
  · by_cases h16 : a64IsComplex16 op.type = true
    · simp [emitArg, givenFp, countArg, put, hroom, h16, ofNat_succ_reg, -Fin.ofNat_eq_cast]
    · by_cases h8 : a64IsComplex8Fp op.type = true
      · simp [emitArg, givenFp, countArg, put, hroom, h16, h8, ofNat_succ_reg, -Fin.ofNat_eq_cast]
      · by_cases hfp : isFpAbiType op.type = true
        · have hlt : n.fpUsed < 8 := by omega
          simp [emitArg, givenFp, countArg, put, h16, h8, hfp, hlt]
        · by_cases hgp : n.gpUsed < 8
          · simp [emitArg, givenFp, countArg, put, h16, h8, hfp, hgp]
          · simp [emitArg, givenFp, countArg, put, h16, h8, hfp, hgp]
  · by_cases h16 : a64IsComplex16 op.type = true
    · simp [emitArg, givenFp, countArg, put, hroom, h16, range_succ]
    · by_cases h8 : a64IsComplex8Fp op.type = true
      · simp [emitArg, givenFp, countArg, put, hroom, h16, h8]
      · by_cases hfp : isFpAbiType op.type = true
        · by_cases hlt : n.fpUsed < 8
          · simp [emitArg, givenFp, countArg, put, h16, h8, hfp, hlt]
          · simp [emitArg, givenFp, countArg, put, h16, h8, hfp, hlt]
        · by_cases hgp : n.gpUsed < 8
          · simp [emitArg, givenFp, countArg, put, h16, h8, hfp, hgp]
          · simp [emitArg, givenFp, countArg, put, h16, h8, hfp, hgp]

theorem emitDarwinStackArg_eq (op : LrOperand) (off : BitVec 32) (size : Nat) :
    emitDarwinStackArg host op off size =
      put host op (givenDarwinStack op.type off.toNat size) := by
  by_cases hfp : isFpAbiType op.type = true
  · simp [emitDarwinStackArg, givenDarwinStack, put, hfp]
  · simp [emitDarwinStackArg, givenDarwinStack, put, hfp]

theorem emitDarwinArg_eq (fixedArgs : Nat) (n : DarwinCount) (i : Nat) (op : LrOperand) :
    emitDarwinArg host fixedArgs n i op = (do
      put host op (givenDarwin fixedArgs n i op.type)
      pure (countDarwinArg fixedArgs n i op.type)) := by
  by_cases hvar : i ≥ fixedArgs
  · simp [emitDarwinArg, givenDarwin, countDarwinArg, hvar, emitDarwinStackArg_eq]
  · by_cases hfp : isFpAbiType op.type = true
    · by_cases hlt : n.fpr < 8
      · simp [emitDarwinArg, givenDarwin, countDarwinArg, put, hvar, hfp, hlt]
      · simp [emitDarwinArg, givenDarwin, countDarwinArg, hvar, hfp, hlt, emitDarwinStackArg_eq]
    · by_cases hgp : n.gpr < 8
      · simp [emitDarwinArg, givenDarwin, countDarwinArg, put, hvar, hfp, hgp]
      · simp [emitDarwinArg, givenDarwin, countDarwinArg, hvar, hfp, hgp, emitDarwinStackArg_eq]

theorem emitParam_eq (vreg : Nat) (type : Option LrType) :
    emitParam n vreg type = (do
      take vreg (takenFp n type)
      pure (countParam n type)) := by
  by_cases hroom : n.fpUsed + 2 ≤ 8
  · by_cases h8 : a64IsComplex8Fp type = true
    · simp [emitParam, takenFp, countParam, take, hroom, h8, ofNat_succ_reg, -Fin.ofNat_eq_cast]
    · by_cases h16 : a64IsComplex16 type = true
      · simp [emitParam, takenFp, countParam, take, hroom, h8, h16, ofNat_succ_reg,
          -Fin.ofNat_eq_cast]
      · by_cases hfp : isFpAbiType type = true
        · have hlt : n.fpUsed < 8 := by omega
          simp [emitParam, takenFp, countParam, take, h8, h16, hfp, hlt]
        · by_cases hgp : n.gpUsed < 8
          · simp [emitParam, takenFp, countParam, take, h8, h16, hfp, hgp]
          · simp [emitParam, takenFp, countParam, take, h8, h16, hfp, hgp]
  · by_cases hfp : isFpAbiType type = true
    · by_cases hlt : n.fpUsed < 8
      · simp [emitParam, takenFp, countParam, take, hroom, hfp, hlt]
      · simp [emitParam, takenFp, countParam, take, hroom, hfp, hlt]
    · by_cases hgp : n.gpUsed < 8
      · simp [emitParam, takenFp, countParam, take, hroom, hfp, hgp]
      · simp [emitParam, takenFp, countParam, take, hroom, hfp, hgp]

theorem emitPlainParam_eq (vreg i : Nat) : emitPlainParam vreg i = take vreg (plainPlace i) := by
  by_cases hi : i < 8
  · simp [emitPlainParam, plainPlace, take, hi]
  · simp [emitPlainParam, plainPlace, take, hi]

/-- The three ways to put the arguments of a call. -/
inductive Mode where
  | plain
  | fp
  | darwin (fixedArgs : Nat)
  deriving DecidableEq

def Mode.fixedArgs : Mode → Nat
  | .darwin fixedArgs => fixedArgs
  | _ => 0

/-- What a call and its callee make of the arguments. The words of the stack before the
variable arguments are `varWords`. -/
structure Convention where
  mode : Mode
  calleeFp : Bool
  numParams : Nat
  varWords : Nat
  deriving DecidableEq

/-- The number of an argument, and the counters of the caller and of the callee before
it. -/
structure Before where
  i : Nat := 0
  caller : ArgCount := {}
  darwin : DarwinCount := {}
  callee : ArgCount := {}
  deriving DecidableEq

namespace Convention
variable (k : Convention)

def next (s : Before) (type : Option LrType) : Before where
  i := s.i + 1
  caller := countArg s.caller type
  darwin := countDarwinArg k.mode.fixedArgs s.darwin s.i type
  callee := countParam s.callee type

/-- The counters behind an argument. -/
def step (s : Before) (op : LrOperand) : Before := k.next s op.type

def given (s : Before) (type : Option LrType) : Place :=
  match k.mode with
  | .plain => plainPlace s.i
  | .fp => givenFp s.caller type
  | .darwin fixedArgs => givenDarwin fixedArgs s.darwin s.i type

def param (s : Before) (type : Option LrType) : Place :=
  if k.calleeFp then takenFp s.callee type else plainPlace s.i

/-- The arguments and their places in the order in which the code puts them. -/
def puts (args : List LrOperand) : List (LrOperand × Place) :=
  let placed := mapFold k.step (fun s op => (op, k.given s op.type)) {} args
  if k.mode = .plain then placed.drop 8 ++ placed.take 8 else placed

/-- The parameters and their places. -/
def takes (params : List (Nat × Option LrType)) : List (Nat × Place) :=
  mapFold (fun s p => k.next s p.2) (fun s p => (p.1, k.param s p.2)) {} params

end Convention

section Code
variable (k : Convention)

theorem emitArgs_eq (hmode : k.mode = .fp) (s : Before) (args : List LrOperand) :
    emitArgs host s.caller args =
      (mapFold k.step (fun s op => (op, k.given s op.type)) s args).forM
        fun (op, place) => put host op place := by
  induction args generalizing s with
  | nil => rfl
  | cons op rest ih =>
    have hrest := ih (k.step s op)
    have hnext : (k.step s op).caller = countArg s.caller op.type := rfl
    rw [hnext] at hrest
    simp only [emitArgs, emitArg_eq, bind_assoc, pure_bind, hrest]
    simp [mapFold, Convention.given, hmode]

theorem emitDarwinArgs_eq {fixedArgs : Nat} (hmode : k.mode = .darwin fixedArgs) (s : Before)
    (args : List LrOperand) :
    emitDarwinArgs host fixedArgs s.darwin s.i args =
      (mapFold k.step (fun s op => (op, k.given s op.type)) s args).forM
        fun (op, place) => put host op place := by
  induction args generalizing s with
  | nil => rfl
  | cons op rest ih =>
    have hrest := ih (k.step s op)
    have hnext : (k.step s op).darwin = countDarwinArg fixedArgs s.darwin s.i op.type := by
      simp [Convention.step, Convention.next, hmode, Mode.fixedArgs]
    rw [hnext, show (k.step s op).i = s.i + 1 from rfl] at hrest
    simp only [emitDarwinArgs, emitDarwinArg_eq, bind_assoc, pure_bind, hrest]
    simp [mapFold, Convention.given, hmode]

theorem placed_plain (hmode : k.mode = .plain) (s : Before) (args : List LrOperand) :
    mapFold k.step (fun s op => (op, k.given s op.type)) s args =
      (args.zipIdx s.i).map fun p => (p.1, plainPlace p.2) := by
  induction args generalizing s with
  | nil => rfl
  | cons op rest ih =>
    rw [mapFold, ih, zipIdx_cons, map_cons]
    simp [Convention.given, hmode, Convention.step, Convention.next]

theorem drop_placed (args : List LrOperand) :
    (args.zipIdx.map fun p => (p.1, plainPlace p.2)).drop 8 =
      (args.drop 8).zipIdx.map fun p => (p.1, .word (p.2 * 8) 8) := by
  apply ext_getElem?
  intro i
  simp only [getElem?_drop, getElem?_map, getElem?_zipIdx, Option.map_map]
  apply congrFun
  apply congrArg
  funext op
  have hi : ¬ 0 + (8 + i) < 8 := by omega
  have hsub : 0 + (8 + i) - 8 = 0 + i := by omega
  simp only [Function.comp_apply, plainPlace, if_neg hi, hsub]

theorem take_placed (args : List LrOperand) :
    (args.zipIdx.map fun p => (p.1, plainPlace p.2)).take 8 =
      (args.take 8).zipIdx.map fun p => (p.1, .gpr (Fin.ofNat 32 p.2)) := by
  apply ext_getElem?
  intro i
  by_cases hi : i < 8
  · simp only [getElem?_take, if_pos hi, getElem?_map, getElem?_zipIdx,
      Option.map_map]
    apply congrFun
    apply congrArg
    funext op
    simp [plainPlace, hi]
  · simp [hi]

theorem emitPlainArgs_eq (hmode : k.mode = .plain) (args : List LrOperand) :
    emitPlainArgs host args = (k.puts args).forM fun (op, place) => put host op place := by
  rw [Convention.puts, placed_plain k hmode]
  simp [emitPlainArgs, hmode, drop_placed, take_placed, put]

/-- The way in which a call puts its arguments. -/
def callMode (apple : Bool) (abi : CallAbi) (nargs : Nat) : Mode :=
  if abi.useFpAbi && abi.callVararg && apple then .darwin (min abi.callFixedArgs nargs)
  else if abi.useFpAbi then .fp
  else .plain

/-- The code of the arguments of a call puts each in its place. -/
theorem emitCallArgs_eq {apple : Bool} {abi : CallAbi} {args : List LrOperand}
    (hmode : k.mode = callMode apple abi args.length) :
    emitCallArgs host apple abi args = (k.puts args).forM fun (op, place) => put host op place := by
  unfold callMode at hmode
  unfold emitCallArgs
  by_cases hdarwin : (abi.useFpAbi && abi.callVararg && apple) = true
  · rw [if_pos hdarwin] at hmode ⊢
    rw [Convention.puts, if_neg (by simp [hmode])]
    exact emitDarwinArgs_eq host k hmode {} args
  · rw [if_neg hdarwin] at hmode ⊢
    by_cases hfp : abi.useFpAbi = true
    · rw [if_pos hfp] at hmode ⊢
      rw [Convention.puts, if_neg (by simp [hmode])]
      exact emitArgs_eq host k hmode {} args
    · rw [if_neg hfp] at hmode ⊢
      exact emitPlainArgs_eq host k hmode args

theorem emitParams_eq (hfp : k.calleeFp = true) (s : Before) (params : List (Nat × Option LrType)) :
    emitParams s.callee params =
      (mapFold (fun s p => k.next s p.2) (fun s p => (p.1, k.param s p.2)) s params).forM
        fun (vreg, place) => take vreg place := by
  induction params generalizing s with
  | nil => rfl
  | cons p rest ih =>
    have hrest := ih (k.next s p.2)
    simp only [Convention.next] at hrest
    simp [emitParams, emitParam_eq, mapFold, Convention.param, hfp, Convention.next, hrest]

theorem takes_plain (hfp : k.calleeFp = false) (s : Before) (params : List (Nat × Option LrType)) :
    mapFold (fun s p => k.next s p.2) (fun s p => (p.1, k.param s p.2)) s params =
      ((params.map Prod.fst).zipIdx s.i).map fun p => (p.1, plainPlace p.2) := by
  induction params generalizing s with
  | nil => rfl
  | cons p rest ih =>
    rw [mapFold, ih, map_cons, zipIdx_cons, map_cons]
    simp [Convention.param, hfp, Convention.next]

/-- `session.c` compiles a function with these data. -/
def calleeMeta (func : LrFunc) (nextVreg : Nat) : CompileFuncMeta where
  func := some func
  retType := some func.retType
  paramTypes := some func.paramTypes
  numParams := func.paramTypes.length
  vararg := func.vararg
  nextVreg := nextVreg

/-- The registers of the parameters and their types. -/
def params (func : LrFunc) : List (Nat × Option LrType) :=
  (calleeMeta func 0).paramVregs.zip (func.paramTypes.map some)

theorem length_paramVregs (func : LrFunc) (nextVreg : Nat) :
    (calleeMeta func nextVreg).paramVregs.length ≤ func.paramTypes.length := by
  unfold CompileFuncMeta.paramVregs
  split
  · exact length_take_le _ _
  · simp [calleeMeta]

theorem params_eq (func : LrFunc) (nextVreg : Nat) :
    ((calleeMeta func nextVreg).paramVregs.zipIdx.map fun p =>
      (p.1, (calleeMeta func nextVreg).paramType p.2)) = params func := by
  have hlen := length_paramVregs func 0
  apply ext_getElem
  · rw [length_map, length_zipIdx, params, length_zip, length_map, Nat.min_eq_left hlen]
    rfl
  · intro i hi _
    rw [length_map, length_zipIdx] at hi
    have htype : i < func.paramTypes.length := Nat.lt_of_lt_of_le hi hlen
    simp only [params, getElem_map, getElem_zipIdx, getElem_zip]
    simp [CompileFuncMeta.paramType, calleeMeta, CompileFuncMeta.paramVregs, htype]

/-- The prologue takes each parameter from its place. -/
theorem aarch64CompileBegin_eq {func : LrFunc} (hfp : k.calleeFp = func.usesLlvmAbi)
    (nextVreg : Nat) (mod : LrModule) (obj : Option ObjfileCtx) (symDefined : List Bool)
    (symFuncs : List (Option LrFunc)) :
    aarch64CompileBegin (calleeMeta func nextVreg) mod obj symDefined symFuncs =
      ((do
        let pos ← emitPrologue
        modify fun c => { c with prologuePatchPos := pos }
        (k.takes (params func)).forM fun (vreg, place) => take vreg place : A64M Unit)
      (initialCtx (calleeMeta func nextVreg) mod obj symDefined symFuncs)).2 := by
  have hcode : (if func.usesLlvmAbi then
      emitParams {} ((calleeMeta func nextVreg).paramVregs.zipIdx.map fun p =>
        (p.1, (calleeMeta func nextVreg).paramType p.2))
      else (calleeMeta func nextVreg).paramVregs.zipIdx.forM fun p => emitPlainParam p.1 p.2) =
      (k.takes (params func)).forM fun (vreg, place) => take vreg place := by
    by_cases hllvm : func.usesLlvmAbi = true
    · rw [if_pos hllvm, params_eq]
      exact emitParams_eq k (hfp.trans hllvm) {} _
    · have hno : k.calleeFp = false := by
        rw [hfp]
        simpa using hllvm
      rw [if_neg hllvm, Convention.takes, takes_plain k hno, params, map_fst_zip]
      · simp [emitPlainParam_eq]
        rfl
      · simpa using length_paramVregs func 0
  rw [← hcode]
  rfl

/-- Where a result is when the callee has returned. -/
def resultPlace (fpAbi : Bool) (type : Option LrType) : Place :=
  if a64IsComplex16 type then .pair 0 8
  else if a64IsComplex8Fp type then .pair 0 4
  else if fpAbi ∧ isFpAbiType type then .fp a64D0 (fpAbiSize type)
  else .gpr a64X0

/-- The code that leaves a result in a place. -/
def leave (op : LrOperand) : Place → A64M Unit
  | .gpr reg => do
    emitLoadOperand host op a64X9
    emitMovReg reg a64X9 true
  | place => put host op place

theorem get_bind_apply {α : Type} (f : A64Ctx → A64M α) (c : A64Ctx) :
    (get >>= f : A64M α) c = f c c := rfl

theorem emitRet_eq (op : LrOperand) (c : A64Ctx) :
    emitRet host op c = leave host op (resultPlace c.funcUsesFpAbi (some c.retType)) c := by
  by_cases h16 : a64IsComplex16 (some c.retType) = true
  · simp [emitRet, get_bind_apply, leave, resultPlace, put, h16]
  · by_cases h8 : a64IsComplex8Fp (some c.retType) = true
    · simp [emitRet, get_bind_apply, leave, resultPlace, put, h16, h8]
    · by_cases hfp : c.funcUsesFpAbi = true ∧ isFpAbiType (some c.retType) = true
      · simp [emitRet, get_bind_apply, leave, resultPlace, put, h16, h8, hfp]
      · simp [emitRet, get_bind_apply, leave, resultPlace, h16, h8, hfp]

theorem emitCallResult_eq (desc : LrInst) (fpAbi : Bool) :
    emitCallResult desc fpAbi =
      if isVoidType desc.type then pure () else take desc.dest (resultPlace fpAbi desc.type) := by
  by_cases hvoid : isVoidType desc.type = true
  · simp [emitCallResult, hvoid]
  · by_cases h16 : a64IsComplex16 desc.type = true
    · simp [emitCallResult, resultPlace, take, hvoid, h16]
    · by_cases h8 : a64IsComplex8Fp desc.type = true
      · simp [emitCallResult, resultPlace, take, hvoid, h16, h8]
      · by_cases hfp : fpAbi = true ∧ isFpAbiType desc.type = true
        · simp [emitCallResult, resultPlace, take, hvoid, h16, h8, hfp]
        · simp [emitCallResult, resultPlace, take, hvoid, h16, h8, hfp]

end Code
end Code
end Liric.Guarantees.Aarch64Calls
