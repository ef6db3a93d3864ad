import Liric.Source.Ir.Module
import Liric.Source.Ll.Parser
import Liric.Source.Object.Context

/-!
# The RISC-V target

Source: src/target_riscv64.h:6-78 (register numbers), src/target_riscv64.c:15-180 (encoders and
short sequences), 182-260 (operands), 323-823 (`rv_direct_ensure_vmap` to `rv_feat_im`).

An instruction is kept as the fields that `rv_enc_r`, `rv_enc_i`, `rv_enc_u` and
`rv_enc_j` pack into a word. `none` is a negative return value; a call with more than
fifteen arguments reads behind the array of operands and has no result either. The
map of registers is a list, the last entry for a register first, so there is no array
to grow. `remap` is `remap_intrinsic`. `int32_t` is 32 bits and wraps.
-/
namespace Liric.Source.Riscv64
open Ir
open Object (ObjfileCtx lrObjEnsureSymbol lrObjAddReloc lrRelocRiscv64Jal)

abbrev Reg := Fin 32

instance regs_neZero : NeZero 32 := ⟨by decide⟩

def rvX0 : Reg := 0
def rvRa : Reg := 1
def rvT0 : Reg := 5
def rvT1 : Reg := 6
def rvT2 : Reg := 7
def rvS1 : Reg := 9
def rvA0 : Reg := 10
def rvA7 : Reg := 17
def rvFt0 : Reg := 0
def rvFt1 : Reg := 1
def rvFa0 : Reg := 10
def rvFa7 : Reg := 17

def rvOpcodeOp : BitVec 7 := 0x33
def rvOpcodeOpimm : BitVec 7 := 0x13
def rvOpcodeLui : BitVec 7 := 0x37
def rvOpcodeJal : BitVec 7 := 0x6F
def rvOpcodeJalr : BitVec 7 := 0x67
def rvOpcodeOpfp : BitVec 7 := 0x53

inductive RvInst where
  | r (funct7 : BitVec 7) (rs2 rs1 : Reg) (funct3 : BitVec 3) (rd : Reg) (opcode : BitVec 7)
  | i (imm : BitVec 12) (rs1 : Reg) (funct3 : BitVec 3) (rd : Reg) (opcode : BitVec 7)
  | u (imm20 : BitVec 20) (rd : Reg) (opcode : BitVec 7)
  /-- The offset is filled in by relocation. -/
  | j (rd : Reg) (opcode : BitVec 7)
  deriving DecidableEq

def rvEncR := RvInst.r

def rvEncI (imm : BitVec 32) : Reg → BitVec 3 → Reg → BitVec 7 → RvInst :=
  RvInst.i (imm.setWidth 12)

def rvEncU (imm20 : BitVec 32) : Reg → BitVec 7 → RvInst := RvInst.u (imm20.extractLsb' 12 20)

def rvEncJ := RvInst.j

inductive RegClass where
  | gpr | fpr
  deriving DecidableEq

structure RvVregMap where
  cls : RegClass
  reg : Reg
  deriving DecidableEq

structure RvFeatures where
  extM : Bool
  extF : Bool
  extD : Bool
  deriving DecidableEq

def rvFeatGc : RvFeatures := ⟨true, true, true⟩
def rvFeatIm : RvFeatures := ⟨true, false, false⟩

/-- `rv_direct_ctx_t` and the fields of the module that it uses. -/
structure RvDirectCtx where
  code : List RvInst := []
  buflen : Nat
  vmap : List (Nat × RvVregMap) := []
  gprNext : Nat := 0
  fprNext : Nat := 0
  symbols : SymbolTable
  obj : Option ObjfileCtx
  feat : RvFeatures
  hasCurrentBlock : Bool := false
  raSaved : Bool := false
  deriving DecidableEq

abbrev RvM := StateT RvDirectCtx Option

def refuse {α : Type} : RvM α := fun _ => none

def require (p : Prop) [Decidable p] : RvM Unit := if p then pure () else refuse

def rvEmit32 (insn : RvInst) : RvM Unit := fun c =>
  if 4 * c.code.length + 4 > c.buflen then none
  else some ((), { c with code := c.code ++ [insn] })

def rvTypeIsFp : Option LrType → Bool
  | some (.scalar _ .float) | some (.scalar _ .double) => true
  | _ => false

def isFloat : Option LrType → Bool
  | some (.scalar _ .float) => true
  | _ => false

def isDouble : Option LrType → Bool
  | some (.scalar _ .double) => true
  | _ => false

def rvTypeIsIntlike : Option LrType → Bool
  | some (.scalar _ .i1) | some (.scalar _ .i8) | some (.scalar _ .i16) | some (.scalar _ .i32)
  | some (.scalar _ .i64) | some (.ptr ..) => true
  | _ => false

def rvEmitShiftImm (rd rs : Reg) (funct3 : BitVec 3) (shamt : BitVec 8) : RvM Unit :=
  rvEmit32 (rvEncI ((shamt &&& 0x3F).setWidth 32) rs funct3 rd rvOpcodeOpimm)

def rvEmitMv (rd rs : Reg) : RvM Unit := rvEmit32 (rvEncI 0 rs 0 rd rvOpcodeOpimm)

def rvEmitLi32 (rd : Reg) (imm : BitVec 32) : RvM Unit :=
  if -2048 ≤ imm.toInt ∧ imm.toInt ≤ 2047 then
    rvEmit32 (rvEncI imm rvX0 0 rd rvOpcodeOpimm)
  else do
    let hi20 := (imm + 0x800) &&& ~~~0xFFF
    let lo12 := imm - hi20
    rvEmit32 (rvEncU hi20 rd rvOpcodeLui)
    rvEmit32 (rvEncI lo12 rd 0 rd rvOpcodeOpimm)

def rvEmitLi64 (rd scratch : Reg) (imm : BitVec 64) : RvM Unit :=
  if -2 ^ 31 ≤ imm.toInt ∧ imm.toInt < 2 ^ 31 then rvEmitLi32 rd (imm.setWidth 32)
  else do
    require (rd ≠ scratch)
    rvEmitLi32 rd ((imm >>> 32).setWidth 32)
    rvEmitShiftImm rd rd 1 32
    rvEmitLi32 scratch (imm.setWidth 32)
    rvEmitShiftImm scratch scratch 1 32
    rvEmitShiftImm scratch scratch 5 32
    rvEmit32 (rvEncR 0x00 scratch rd 0 rd rvOpcodeOp)

def rvEmitFpMove (rd rs : Reg) (isDouble : Bool) : RvM Unit :=
  rvEmit32 (rvEncR (if isDouble then 0x11 else 0x10) rs rs 0 rd rvOpcodeOpfp)

def rvEmitFmvWX (fd rs : Reg) : RvM Unit := rvEmit32 (rvEncR 0x78 0 rs 0 fd rvOpcodeOpfp)
def rvEmitFmvDX (fd rs : Reg) : RvM Unit := rvEmit32 (rvEncR 0x79 0 rs 0 fd rvOpcodeOpfp)

/-- A move into another register. -/
def moveGpr (rd rs : Reg) : RvM Unit := if rs ≠ rd then rvEmitMv rd rs else pure ()

def moveFpr (rd rs : Reg) (isDouble : Bool) : RvM Unit :=
  if rs ≠ rd then rvEmitFpMove rd rs isDouble else pure ()

/-- The register of an operand that has one of this class. -/
def mappedReg (cls : RegClass) (vreg : Nat) : RvM Reg := fun c =>
  match c.vmap.lookup vreg with
  | some m => if m.cls = cls then some (m.reg, c) else none
  | none => none

def rvOperandGpr (op : LrOperand) (scratch1 scratch2 : Reg) : RvM Reg :=
  match op.value with
  | .vreg vreg => mappedReg .gpr vreg
  | .immI64 imm => do
    rvEmitLi64 scratch1 scratch2 imm
    pure scratch1
  | _ => refuse

def rvOperandFpr (op : LrOperand) (gprS1 gprS2 fprS : Reg) : RvM Reg := do
  require ((← get).feat.extF = true)
  match op.value with
  | .vreg vreg => mappedReg .fpr vreg
  | .immF64 bits =>
    if isFloat op.type then
      rvEmitLi64 gprS1 gprS2 ((Ll.floatOfDouble bits).signExtend 64)
      rvEmitFmvWX fprS gprS1
      pure fprS
    else if isDouble op.type then
      require ((← get).feat.extD = true)
      rvEmitLi64 gprS1 gprS2 bits
      rvEmitFmvDX fprS gprS1
      pure fprS
    else refuse
  | _ => refuse

/-- t3 to t6, then s2 to s11. -/
def rvGprTmpPool : List Reg := [28, 29, 30, 31, 18, 19, 20, 21, 22, 23, 24, 25, 26, 27]

/-- ft0 to ft11, then fs2 to fs5. -/
def rvFprTmpPool : List Reg := [0, 1, 2, 3, 4, 5, 6, 7, 28, 29, 30, 31, 18, 19, 20, 21]

/-- `rv_gpr_tmp_pool[ctx->gpr_next++]`. -/
def nextGpr : RvM Reg := fun c =>
  (rvGprTmpPool[c.gprNext]?).map fun rd => (rd, { c with gprNext := c.gprNext + 1 })

def nextFpr : RvM Reg := fun c =>
  (rvFprTmpPool[c.fprNext]?).map fun rd => (rd, { c with fprNext := c.fprNext + 1 })

def mapVreg (vreg : Nat) (cls : RegClass) (reg : Reg) : RvM Unit := fun c =>
  some ((), { c with vmap := (vreg, ⟨cls, reg⟩) :: c.vmap })

/-- The arguments of a call, moved one after the other; the places of `next_iarg` and
`next_farg`, and of the argument. -/
def callArgs : Reg → Reg → Nat → List LrOperand → RvM Unit
  | _, _, _, [] => pure ()
  | iarg, farg, i, op :: rest =>
    if i + 1 ≥ 16 then refuse
    else if rvTypeIsFp op.type then do
      require (farg ≤ rvFa7)
      let src ← rvOperandFpr op rvT1 rvT2 rvFt0
      moveFpr farg src (isDouble op.type)
      callArgs iarg (farg + 1) (i + 1) rest
    else do
      require (iarg ≤ rvA7)
      let src ← rvOperandGpr op rvT1 rvT0
      moveGpr iarg src
      callArgs (iarg + 1) farg (i + 1) rest

/-- ra goes to s1 before the first call. -/
def saveRa : RvM Unit := do
  if (← get).raSaved then pure ()
  else
    rvEmitMv rvS1 rvRa
    modify fun c => { c with raSaved := true }

/-- `JAL ra, 0` and its relocation. -/
def emitJal (remap : CStr → CStr) (name : CStr) : RvM Unit := fun c =>
  c.obj.bind fun oc =>
    let (oc, symIdx) := lrObjEnsureSymbol remap oc name false 0 0
    let jalOff := 4 * c.code.length
    (rvEmit32 (rvEncJ rvRa rvOpcodeJal) { c with obj := some oc }).map fun r =>
      ((), { r.2 with
        obj := some (lrObjAddReloc oc (BitVec.ofNat 32 jalOff) symIdx lrRelocRiscv64Jal) })

/-- A result is in a0 or fa0. -/
def mapResult (desc : LrInst) : RvM Unit :=
  match desc.type with
  | none | some (.scalar _ .void) => pure ()
  | type =>
    if rvTypeIsFp type then mapVreg desc.dest .fpr rvFa0 else mapVreg desc.dest .gpr rvA0

def emitCall (remap : CStr → CStr) (desc : LrInst) : RvM Unit :=
  match desc.operands with
  | ⟨.global id, _, _⟩ :: args => do
    let c ← get
    match lrModuleSymbolName c.symbols id with
    | none => refuse
    | some name =>
      require (c.obj.isSome = true)
      saveRa
      callArgs rvA0 rvFa0 0 args
      emitJal remap name
      mapResult desc
  | _ => refuse

def needsM : Opcode → Bool
  | .mul | .sdiv | .srem | .udiv | .urem => true
  | _ => false

/-- `funct7` and `funct3` of an integer instruction. -/
def intFunct : Opcode → Option (BitVec 7 × BitVec 3)
  | .add => some (0x00, 0)
  | .sub => some (0x20, 0)
  | .mul => some (0x01, 0)
  | .sdiv => some (0x01, 4)
  | .srem => some (0x01, 6)
  | .udiv => some (0x01, 5)
  | .urem => some (0x01, 7)
  | .and => some (0x00, 7)
  | .or => some (0x00, 6)
  | .xor => some (0x00, 4)
  | .shl => some (0x00, 1)
  | .lshr => some (0x00, 5)
  | .ashr => some (0x20, 5)
  | _ => none

def emitIntBinop (desc : LrInst) (funct : BitVec 7 × BitVec 3) : RvM Unit :=
  match desc.operands with
  | [a, b] => do
    require (rvTypeIsIntlike desc.type = true)
    require (needsM desc.op = true → (← get).feat.extM = true)
    let rd ← nextGpr
    let rs1 ← rvOperandGpr a rvT1 rvT0
    let rs2 ← rvOperandGpr b rvT2 rvT0
    rvEmit32 (rvEncR funct.1 rs2 rs1 funct.2 rd rvOpcodeOp)
    mapVreg desc.dest .gpr rd
  | _ => refuse

/-- A floating point type that the features have. -/
def fpSupported (feat : RvFeatures) (type : Option LrType) : Bool :=
  (isFloat type && feat.extF) || (isDouble type && feat.extD)

def requireFp (type : Option LrType) : RvM Unit := do
  require (fpSupported (← get).feat type = true)

def fpFunct7Base : Opcode → BitVec 7
  | .fsub => 0x04
  | .fmul => 0x08
  | .fdiv => 0x0C
  | _ => 0x00

def emitFneg (desc : LrInst) : RvM Unit := do
  requireFp desc.type
  let rd ← nextFpr
  match desc.operands with
  | [a] =>
    let rs1 ← rvOperandFpr a rvT1 rvT2 rvFt0
    rvEmit32 (rvEncR (if isDouble desc.type then 0x11 else 0x10) rs1 rs1 1 rd rvOpcodeOpfp)
    mapVreg desc.dest .fpr rd
  | _ => refuse

def emitFpBinop (desc : LrInst) : RvM Unit := do
  requireFp desc.type
  let rd ← nextFpr
  match desc.operands with
  | [a, b] =>
    let rs1 ← rvOperandFpr a rvT1 rvT2 rvFt0
    let rs2 ← rvOperandFpr b rvT1 rvT2 rvFt1
    let funct7 := fpFunct7Base desc.op + (if isDouble desc.type then 1 else 0)
    rvEmit32 (rvEncR funct7 rs2 rs1 0 rd rvOpcodeOpfp)
    mapVreg desc.dest .fpr rd
  | _ => refuse

def emitSitofp (desc : LrInst) : RvM Unit :=
  match desc.operands with
  | [a] => do
    requireFp desc.type
    require ((← get).fprNext < rvFprTmpPool.length)
    let rs1 ← rvOperandGpr a rvT1 rvT2
    let rd ← nextFpr
    rvEmit32 (rvEncR (if isDouble desc.type then 0x69 else 0x68) 2 rs1 0 rd rvOpcodeOpfp)
    mapVreg desc.dest .fpr rd
  | _ => refuse

def emitFptosi (desc : LrInst) : RvM Unit :=
  match desc.operands with
  | [a] => do
    require (rvTypeIsIntlike desc.type = true ∧ (← get).gprNext < rvGprTmpPool.length)
    requireFp a.type
    let frs ← rvOperandFpr a rvT1 rvT2 rvFt0
    let rd ← nextGpr
    rvEmit32 (rvEncR (if isDouble a.type then 0x61 else 0x60) 2 frs 1 rd rvOpcodeOpfp)
    mapVreg desc.dest .gpr rd
  | _ => refuse

def emitFpConvert (desc : LrInst) (toDouble : Bool) : RvM Unit :=
  match desc.operands with
  | [a] => do
    let c ← get
    require (c.fprNext < rvFprTmpPool.length ∧ c.feat.extD = true)
    require (if toDouble then isFloat a.type ∧ isDouble desc.type
      else isDouble a.type ∧ isFloat desc.type)
    let frs ← rvOperandFpr a rvT1 rvT2 rvFt0
    let rd ← nextFpr
    let funct7 : BitVec 7 := if toDouble then 0x21 else 0x20
    rvEmit32 (rvEncR funct7 (if toDouble then 0 else 1) frs 0 rd rvOpcodeOpfp)
    mapVreg desc.dest .fpr rd
  | _ => refuse

/-- All conversions between integers are moves. -/
def emitIntCast (desc : LrInst) : RvM Unit :=
  match desc.operands with
  | [a] => do
    require (rvTypeIsIntlike desc.type = true ∧ rvTypeIsIntlike a.type = true)
    let rs ← rvOperandGpr a rvT1 rvT2
    let rd ← nextGpr
    rvEmitMv rd rs
    mapVreg desc.dest .gpr rd
  | _ => refuse

def restoreRa : RvM Unit := do
  if (← get).raSaved then rvEmitMv rvRa rvS1 else pure ()

def emitReturn : RvM Unit := do
  restoreRa
  rvEmit32 (rvEncI 0 rvRa 0 rvX0 rvOpcodeJalr)

def retValue (a : LrOperand) : RvM Unit :=
  if rvTypeIsFp a.type then do
    let src ← rvOperandFpr a rvT1 rvT2 rvFt0
    moveFpr rvFa0 src (isDouble a.type)
  else do
    let src ← rvOperandGpr a rvT1 rvT2
    moveGpr rvA0 src

def emitRet (desc : LrInst) : RvM Unit :=
  match desc.operands with
  | [a] => do
    retValue a
    emitReturn
  | _ => refuse

def rvCompileEmit (remap : CStr → CStr) (desc : LrInst) : RvM Unit := do
  require ((← get).hasCurrentBlock = true)
  match desc.op with
  | .call => emitCall remap desc
  | .add | .sub | .mul | .sdiv | .srem | .udiv | .urem | .and | .or | .xor | .shl | .lshr
  | .ashr =>
    match intFunct desc.op with
    | some funct => emitIntBinop desc funct
    | none => refuse
  | .fadd | .fsub | .fmul | .fdiv => emitFpBinop desc
  | .fneg => emitFneg desc
  | .sitofp => emitSitofp desc
  | .fptosi => emitFptosi desc
  | .fpext => emitFpConvert desc true
  | .fptrunc => emitFpConvert desc false
  | .trunc | .zext | .sext | .bitcast => emitIntCast desc
  | .ret => emitRet desc
  | .retVoid => emitReturn
  | .phi => pure ()
  | .alloca | .br | .condbr | .extractvalue | .fcmp | .fptoui | .frem | .gep | .icmp
  | .insertvalue | .inttoptr | .load | .ptrtoint | .select | .store | .uitofp
  | .unreachable => refuse

/-- The registers of the parameters, in the order of their types. -/
def beginParams : Reg → Reg → List (Nat × LrType) → RvM Unit
  | _, _, [] => pure ()
  | iarg, farg, (v, pt) :: rest => do
    let feat := (← get).feat
    if rvTypeIsFp (some pt) then
      require ((isDouble (some pt) = true → feat.extD = true) ∧
        (isFloat (some pt) = true → feat.extF = true) ∧ farg ≤ rvFa7)
      mapVreg v .fpr farg
      beginParams iarg (farg + 1) rest
    else
      require (rvTypeIsIntlike (some pt) = true ∧ iarg ≤ rvA7)
      mapVreg v .gpr iarg
      beginParams (iarg + 1) farg rest

/-- Without an array of registers parameter `i` is register `i + 1`. -/
def paramVregs (func : LrFunc) : List Nat :=
  func.paramVregs.getD ((List.range func.paramTypes.length).map fun i => i + 1)

/-- `rv_compile_begin_common` and `rv_compile_set_block` of the only block. -/
def rvCompileBegin (feat : RvFeatures) (func : LrFunc) (symbols : SymbolTable)
    (obj : Option ObjfileCtx) (buflen : Nat) : Option RvDirectCtx :=
  (beginParams rvA0 rvFa0 ((paramVregs func).zip func.paramTypes)
    { buflen := buflen, symbols := symbols, obj := obj, feat := feat,
      hasCurrentBlock := true }).map Prod.snd

end Liric.Source.Riscv64
