import Liric.Source.Target.Aarch64

/-!
# The aarch64 target: instructions, calls and functions

Source: src/target_aarch64.c:523-666 (the signature of a callee and the convention of a call),
668-750 (names of intrinsics), 908-945 (complex numbers), 1322-1580 (copies of edges and deferred
terminators), 1580-2945 (`aarch64_compile_begin`, the `switch` of `aarch64_compile_emit`).

`none` is a negative return value. An instruction has no result either if the source
reads operands behind the last one.
-/
namespace Liric.Source.Aarch64
open Ir Object
open Lib.A64 (Reg Inst LogicOp ShiftOp FpOp)

def cstr (s : String) : CStr := s.toList.map fun c => UInt8.ofNat c.toNat

def callSignatureMatchesFunc (desc : LrInst) (func : LrFunc) : Bool :=
  let args := desc.operands.drop 1
  some func.retType == desc.type &&
    (if func.vararg then func.paramTypes.length ≤ args.length
      else func.paramTypes.length == args.length) &&
    (func.paramTypes.zip args).all fun (type, arg) => arg.type == some type

def calleeScore (f : LrFunc) : Nat :=
  (if f.blocks.isEmpty then 0 else 4) + (if f.usesLlvmAbi then 2 else 0) +
    (if f.isDecl then 0 else 1)

/-- The first function of the best score. -/
def findModuleFunctionForCall (c : A64Ctx) (desc : LrInst) (name : CStr) : Option LrFunc :=
  c.mod.funcs.foldl (fun best f =>
    if f.name == name && callSignatureMatchesFunc desc f then
      match best with
      | none => some f
      | some b => if calleeScore f > calleeScore b then some f else some b
    else best) none

/-- The convention of a call: floating point registers, variable arguments, and how
many arguments come before them. -/
structure CallAbi where
  useFpAbi : Bool
  callVararg : Bool
  callFixedArgs : Nat
  deriving DecidableEq

/-- The convention of a call to a function of the module. -/
def calleeAbi (desc : LrInst) (callee : LrFunc) (symDefined : Bool) : CallAbi :=
  let vararg := callee.vararg || desc.callVararg
  { callVararg := vararg
    callFixedArgs := if desc.callFixedArgs = 0 then callee.paramTypes.length else desc.callFixedArgs
    useFpAbi :=
      if vararg then true
      else if callee.usesLlvmAbi then true
      else if !callee.blocks.isEmpty then false
      else !symDefined }

/-- `sym_funcs` or the function of this name, if one of them has the signature. -/
def resolveCallee (c : A64Ctx) (desc : LrInst) (id : Nat) : Option LrFunc :=
  let calleeFunc := ((c.symFuncs[id]?).getD none).filter (callSignatureMatchesFunc desc)
  match lrModuleSymbolName c.mod.symbols id with
  | none => calleeFunc
  | some symName =>
    match findModuleFunctionForCall c desc symName, calleeFunc with
    | some named, some callee =>
      if (named.usesLlvmAbi && !callee.usesLlvmAbi) ||
          (!named.blocks.isEmpty && callee.blocks.isEmpty) then some named
      else some callee
    | some named, none => some named
    | none, calleeFunc => calleeFunc

def directCallUsesExternalFpAbi (c : A64Ctx) (desc : LrInst) (callee : LrOperand) : CallAbi :=
  let own (useFpAbi : Bool) : CallAbi := ⟨useFpAbi, desc.callVararg, desc.callFixedArgs⟩
  match callee.value with
  | .global id =>
    let symName := lrModuleSymbolName c.mod.symbols id
    match resolveCallee c desc id with
    | some func => calleeAbi desc func ((c.symDefined[id]?).getD false)
    | none =>
      match symName with
      | some name => own (!isSymbolDefinedInModule c.mod name)
      | none =>
        if id < c.symDefined.length then own (!(c.symDefined[id]?).getD false)
        else own desc.callExternalAbi
  | _ => own desc.callExternalAbi

def normalizeLlvmSymbolName (name : CStr) : CStr := name.dropWhile fun b => b == 1 || b == 95

def isLlvmVaStartName (name : CStr) : Bool :=
  (cstr "llvm.va_start").isPrefixOf (normalizeLlvmSymbolName name)

def isLlvmVaEndName (name : CStr) : Bool :=
  (cstr "llvm.va_end").isPrefixOf (normalizeLlvmSymbolName name)

def isLlvmVaCopyName (name : CStr) : Bool :=
  (cstr "llvm.va_copy").isPrefixOf (normalizeLlvmSymbolName name)

def llvmObjectsizeBits (name : CStr) : Nat :=
  let name := normalizeLlvmSymbolName name
  let isFor (exact dotted : String) := name = cstr exact ∨ (cstr dotted).isPrefixOf name
  if isFor "llvm.objectsize.i64" "llvm.objectsize.i64." then 64
  else if isFor "llvm.objectsize.i32" "llvm.objectsize.i32." then 32
  else 0

/-- `a64_int_cmp_intrinsic_kind_t` without the kind for no intrinsic. -/
inductive IntCmpIntrinsic where
  | umax | umin | smax | smin
  deriving DecidableEq

/-- The intrinsic and whether it compares 64 bits. -/
def classifyLlvmIntCmpIntrinsic (name : CStr) : Option (IntCmpIntrinsic × Bool) :=
  [(cstr "llvm.umax.i64", (.umax, true)), (cstr "llvm.umin.i64", (.umin, true)),
    (cstr "llvm.smax.i64", (.smax, true)), (cstr "llvm.smin.i64", (.smin, true)),
    (cstr "llvm.umax.i32", (.umax, false)), (cstr "llvm.umin.i32", (.umin, false)),
    (cstr "llvm.smax.i32", (.smax, false)), (cstr "llvm.smin.i32", (.smin, false))].lookup
    (normalizeLlvmSymbolName name)

def intCmpCond : IntCmpIntrinsic → BitVec 4
  | .umax => 2
  | .umin => 9
  | .smax => 10
  | .smin => 13

def isPairOf (kind : ScalarKind) : Option LrType → Bool
  | some (.vector _ (.scalar _ k) count) => count == 2 && k == kind
  | some (.struct _ [.scalar _ k, .scalar _ l] _ _) => k == kind && l == kind
  | _ => false

def a64IsComplex16 : Option LrType → Bool := isPairOf .double
def a64IsComplex8Fp : Option LrType → Bool := isPairOf .float

def isVoidType : Option LrType → Bool
  | none | some (.scalar _ .void) => true
  | _ => false

section Host
variable (host : A64Host)

def A64Ctx.edgeCopies (c : A64Ctx) (pred succ : Nat) : List StreamPhiCopy :=
  c.phiCopies.filter fun p => p.predBlockId == pred && p.succBlockId == succ

/-- The value of a copy goes into a temporary. -/
def stagePhiCopy (tmpVreg : Nat) (copy : StreamPhiCopy) : A64M Unit := do
  let c ← get
  let dstSz := c.vregSlotSize copy.destVreg
  let dstSz := if dstSz < 8 then 8 else dstSz
  modify fun c => { c with nextVreg := tmpVreg + 1 }
  let tmpOff ← allocSlot tmpVreg dstSz
  if dstSz ≤ 8 then
    emitLoadOperand host copy.srcOp a64X9
    emitStoreSlot tmpVreg a64X9
  else emitAggregateValue host copy.srcOp tmpOff dstSz

/-- `src_op` becomes the temporary, with the type of the operand. -/
def applyPhiCopy (tmpVreg : Nat) (copy : StreamPhiCopy) : A64M Unit :=
  emitPhiCopyValue host copy.destVreg ⟨.vreg tmpVreg, copy.srcOp.type, 0⟩

def emitPhiCopiesForEdge (pred succ : Nat) : A64M Unit := do
  let c ← get
  let stageBase := c.nextVreg
  let copies := c.edgeCopies pred succ
  copies.zipIdx.forM fun (copy, staged) => stagePhiCopy host (stageBase + staged) copy
  copies.zipIdx.forM fun (copy, staged) => applyPhiCopy host (stageBase + staged) copy
  modify fun c => { c with
    phiCopies := c.phiCopies.map fun p =>
      if p.predBlockId == pred && p.succBlockId == succ then { p with emitted := true } else p }

/-- The copies of an edge and its branch. -/
def emitEdge (pred succ : Nat) : A64M Unit := do
  emitPhiCopiesForEdge host pred succ
  emitJmp succ pred

def emitRet (op : LrOperand) : A64M Unit := do
  let c ← get
  if a64IsComplex16 (some c.retType) then
    emitVregDataAddr host op a64X9
    emitFpLoad 0 a64X9 0 8
    emitFpLoad 1 a64X9 8 8
  else if a64IsComplex8Fp (some c.retType) then
    emitVregDataAddr host op a64X9
    emitFpLoad 0 a64X9 0 4
    emitFpLoad 1 a64X9 4 4
  else if c.funcUsesFpAbi ∧ isFpAbiType (some c.retType) then
    emitLoadFpOperand host op a64D0 (fpAbiSize (some c.retType))
  else
    emitLoadOperand host op a64X9
    emitMovReg a64X0 a64X9 true

/-- `op.block_id` of an operand of any kind. -/
def operandBlockId (op : LrOperand) : Nat :=
  match op.value with
  | .block id => id
  | v => v.low32.toNat

/-- The false edge comes first; the branch over it is patched. -/
def emitCondbr (blockId : Nat) (cond : LrOperand) (trueId falseId : Nat) : A64M Unit := do
  emitLoadOperand host cond a64X9
  emitU32 (encAndsReg false a64X9 a64X9)
  let c ← get
  let jccInsnPos := c.code.length
  emitU32 (.bcond a64CondNe 0)
  emitEdge host blockId falseId
  let c ← get
  let truePathPos := c.code.length
  patchU32 jccInsnPos (.bcond a64CondNe (BitVec.ofInt 19 (truePathPos - jccInsnPos)))
  invalidateCachedGprs
  emitEdge host blockId trueId

def emitTerminator (dt : DeferredTerm) : A64M Unit :=
  match dt.op, dt.ops with
  | .ret, op :: _ => do
    emitRet host op
    emitEpilogue
  | .retVoid, _ => emitEpilogue
  | .unreachable, _ => emitEpilogue
  | .br, target :: _ => emitEdge host dt.blockId (operandBlockId target)
  | .condbr, cond :: trueOp :: falseOp :: _ =>
    emitCondbr host dt.blockId cond (operandBlockId trueOp) (operandBlockId falseOp)
  | _, _ => pure ()

def flushDeferredTerminator : A64M Unit := do
  let c ← get
  match c.deferred with
  | none => pure ()
  | some dt =>
    modify fun c => { c with deferred := none }
    emitTerminator host dt

def defer (op : Opcode) (ops : List LrOperand) : A64M Unit := modify fun c =>
  { c with deferred := some { op := op, ops := ops, blockId := c.currentBlockId } }

/-- Both operands, an instruction, and its result. -/
def emitBinary (desc : LrInst) (op0 op1 : LrOperand) (insn : Bool → Inst) : A64M Unit := do
  emitLoadOperand host op0 a64X9
  emitLoadOperand host op1 a64X10
  emitU32 (insn (is64Type desc.type))
  emitStoreSlot desc.dest a64X9

/-- A shift up and down again by all but `bits` bits. -/
def emitExtendShift (down : Bool → Reg → Reg → Reg → Inst) (reg amount : Reg) (bits : Nat) :
    A64M Unit := do
  emitMoveImmCtx amount (BitVec.ofNat 64 (64 - bits)) true
  emitU32 (encLslv true reg reg amount)
  emitU32 (down true reg reg amount)

/-- A signed operand narrower than the division is extended. -/
def emitSignExtendNarrow (is64 : Bool) (type : Option LrType) (reg : Reg) : A64M Unit :=
  let w := intTypeWidthBits type
  emitIf (0 < w ∧ w < (if is64 then 64 else 32)) (emitExtendShift encAsrv reg a64X12 w)

def emitDivision (desc : LrInst) (op0 op1 : LrOperand) (isUnsigned isRem : Bool) : A64M Unit := do
  emitLoadOperand host op0 a64X9
  emitLoadOperand host op1 a64X10
  let is64 := is64Type desc.type
  emitIf (isUnsigned = false) do
    emitSignExtendNarrow is64 op0.type a64X9
    emitSignExtendNarrow is64 op1.type a64X10
  emitMovReg a64X11 a64X9 is64
  emitU32 (if isUnsigned then encUdiv is64 a64X9 a64X9 a64X10
    else encSdiv is64 a64X9 a64X9 a64X10)
  emitU32 (encMsub is64 a64X11 a64X9 a64X10 a64X11)
  invalidateCachedReg a64X9
  emitStoreSlot desc.dest (if isRem then a64X11 else a64X9)

/-- Both operands shifted up and down again. -/
def emitExtendBoth (down : Bool → Reg → Reg → Reg → Inst) (bits : Nat) : A64M Unit := do
  emitMoveImmCtx a64X11 (BitVec.ofNat 64 (64 - bits)) true
  emitU32 (encLslv true a64X9 a64X9 a64X11)
  emitU32 (down true a64X9 a64X9 a64X11)
  emitU32 (encLslv true a64X10 a64X10 a64X11)
  emitU32 (down true a64X10 a64X10 a64X11)

def emitIcmp (desc : LrInst) (pred : IcmpPred) (op0 op1 : LrOperand) : A64M Unit := do
  emitLoadOperand host op0 a64X9
  emitLoadOperand host op1 a64X10
  let ibits := intTypeWidthBits op0.type
  emitIf (0 < ibits ∧ ibits < 32)
    (emitExtendBoth (if icmpPredIsSigned pred then encAsrv else encLsrv) ibits)
  emitU32 (encSubsReg (is64Type op0.type) a64X9 a64X10)
  emitSetccIcmp pred a64X9
  emitStoreSlot desc.dest a64X9

def emitSelect (desc : LrInst) (op0 op1 op2 : LrOperand) : A64M Unit := do
  emitLoadOperand host op0 a64X9
  emitU32 (encAndsReg false a64X9 a64X9)
  emitLoadOperand host op2 a64X9
  emitLoadOperand host op1 a64X10
  emitU32 (encCsel true a64X9 a64X10 a64X9 a64CondNe)
  emitStoreSlot desc.dest a64X9

/-- A conversion of `bits` bits by shifts. -/
def emitIntCast (desc : LrInst) (op0 : LrOperand) (bits : Nat)
    (down : Bool → Reg → Reg → Reg → Inst) : A64M Unit := do
  emitLoadOperand host op0 a64X9
  emitIf (0 < bits ∧ bits < 64) (emitExtendShift down a64X9 a64X10 bits)
  emitStoreSlot desc.dest a64X9

/-- A move of all bits. -/
def emitBitcast (desc : LrInst) (op0 : LrOperand) : A64M Unit := do
  emitLoadOperand host op0 a64X9
  emitStoreSlot desc.dest a64X9

def emitFpBinary (desc : LrInst) (op0 op1 : LrOperand) (op : FpOp) : A64M Unit := do
  let fsize := fpAbiSize desc.type
  emitLoadFpOperand host op0 fpScratch0 fsize
  emitLoadFpOperand host op1 fpScratch1 fsize
  emitU32 (encFpArith op fsize fpScratch0 fpScratch0 fpScratch1)
  emitStoreFpSlot desc.dest fpScratch0 fsize

/-- A call of the host's `fmod` or `fmodf`. -/
def emitFrem (desc : LrInst) (op0 op1 : LrOperand) : A64M Unit := do
  let fsize := fpAbiSize desc.type
  emitLoadFpOperand host op0 a64D0 fsize
  emitLoadFpOperand host op1 a64D1 fsize
  emitMoveImmCtx a64X16 (if fsize = 4 then host.fmodf else host.fmod) true
  emitU32 (.blr a64X16)
  invalidateCachedGprs
  emitStoreFpSlot desc.dest a64D0 fsize

def emitFneg (desc : LrInst) (op0 : LrOperand) : A64M Unit := do
  let fsize := fpAbiSize desc.type
  emitLoadFpOperand host op0 fpScratch0 fsize
  emitU32 (encFneg fsize fpScratch0 fpScratch0)
  emitStoreFpSlot desc.dest fpScratch0 fsize

def emitFcmp (desc : LrInst) (pred : FcmpPred) (op0 op1 : LrOperand) : A64M Unit := do
  let fsize := fpAbiSize op0.type
  emitLoadFpOperand host op0 fpScratch0 fsize
  emitLoadFpOperand host op1 fpScratch1 fsize
  emitU32 (encFcmp fsize fpScratch0 fpScratch1)
  emitSetccFcmp pred a64X9
  emitStoreSlot desc.dest a64X9

def emitSitofp (desc : LrInst) (op0 : LrOperand) : A64M Unit := do
  let fsize := fpAbiSize desc.type
  emitLoadOperand host op0 a64X9
  emitIf (typeSize op0.type ≤ 4) (emitU32 (.sbfm a64X9 a64X9 31))
  emitU32 (encScvtf fsize fpScratch0 a64X9)
  emitStoreFpSlot desc.dest fpScratch0 fsize

def emitUitofp (desc : LrInst) (op0 : LrOperand) : A64M Unit := do
  let fsize := fpAbiSize desc.type
  emitLoadOperand host op0 a64X9
  let srcBits := intTypeWidthBits op0.type
  emitIf (0 < srcBits ∧ srcBits < 64) (emitExtendShift encLsrv a64X9 a64X10 srcBits)
  emitU32 (encUcvtf fsize fpScratch0 a64X9)
  emitStoreFpSlot desc.dest fpScratch0 fsize

def emitFpToInt (desc : LrInst) (op0 : LrOperand) (enc : Nat → Reg → Reg → Inst) :
    A64M Unit := do
  let fsize := fpAbiSize op0.type
  emitLoadFpOperand host op0 fpScratch0 fsize
  emitU32 (enc fsize a64X9 fpScratch0)
  emitStoreSlot desc.dest a64X9

def emitFpConvert (desc : LrInst) (op0 : LrOperand) (toDouble : Bool) : A64M Unit := do
  emitLoadFpOperand host op0 fpScratch0 (if toDouble then 4 else 8)
  emitU32 ((if toDouble then encFcvtF32ToF64 else encFcvtF64ToF32) fpScratch0 fpScratch0)
  emitStoreFpSlot desc.dest fpScratch0 (if toDouble then 8 else 4)

/-- The offset of storage in the frame, which is given once. -/
def allocStatic (dest : Nat) (elemAlign totalSz : SizeT) : A64M (BitVec 32) := fun c =>
  if c.lookupStaticAllocaOffset dest ≠ 0 then (c.lookupStaticAllocaOffset dest, c)
  else
    let stackSize := (alignUpSize (c.stackSize.setWidth 64) elemAlign).setWidth 32 +
      totalSz.setWidth 32
    (-stackSize, { c with
      stackSize := stackSize
      staticAllocaOffsets := (dest, -stackSize) :: c.staticAllocaOffsets })

/-- A count of elements that is a constant makes the storage part of the frame. -/
def emitStaticAlloca (desc : LrInst) (elemSz elemAlign : SizeT) (count : BitVec 64) :
    A64M Unit := do
  let count := if count.toInt < 1 then 1 else count
  let off ← allocStatic desc.dest elemAlign (elemSz * count)
  emitAddr a64X9 a64Fp off
  emitStoreSlot desc.dest a64X9

def emitDynamicAlloca (desc : LrInst) (op0 : LrOperand) (elemSz elemAlign : SizeT) : A64M Unit := do
  emitLoadOperand host op0 a64X9
  emitIf (elemSz ≠ 1) do
    emitMoveImmCtx a64X10 elemSz true
    emitU32 (encMul true a64X9 a64X9 a64X10)
  let elemAlign := if elemAlign < 16 then 16 else elemAlign
  emitMoveImmCtx a64X10 (elemAlign - 1) true
  emitU32 (encAddReg true a64X9 a64X9 a64X10)
  emitMoveImmCtx a64X10 (-elemAlign) true
  emitU32 (encLogicReg .and true a64X9 a64X9 a64X10)
  emitU32 (encAddImm true a64X14 a64Sp 0)
  emitU32 (encSubReg true a64X14 a64X14 a64X9)
  emitU32 (encAddImm true a64Sp a64X14 0)
  emitU32 (encAddImm true a64X9 a64Sp 0)
  emitStoreSlot desc.dest a64X9

def emitAlloca (desc : LrInst) : A64M Unit :=
  let elemSz := if typeSize desc.type < 1 then 1 else typeSize desc.type
  let elemAlign := if desc.align ≠ 0 then BitVec.ofNat 64 desc.align
    else desc.type.elim 1 lrTypeAlign
  let elemAlign := if elemAlign < 8 then 8 else elemAlign
  match desc.operands with
  | [] => emitStaticAlloca desc elemSz elemAlign 1
  | op0 :: _ =>
    match op0.value with
    | .immI64 count => emitStaticAlloca desc elemSz elemAlign count
    | _ => emitDynamicAlloca host desc op0 elemSz elemAlign

def emitLoadInst (desc : LrInst) (op0 : LrOperand) : A64M Unit := do
  emitLoadOperand host op0 a64X9
  let loadSz := if typeSize desc.type = 0 then 8 else typeSize desc.type
  if loadSz > 8 then
    let dstOff ← allocSlot desc.dest loadSz
    emitMemCopyBaseToBase a64Fp dstOff a64X9 0 loadSz
  else
    emitLoad a64X9 a64X9 0 loadSz.toNat
    emitStoreSlot desc.dest a64X9

def emitStoreInst (op0 op1 : LrOperand) : A64M Unit := do
  emitLoadOperand host op1 a64X10
  let storeSz := if typeSize op0.type = 0 then 8 else typeSize op0.type
  if storeSz > 8 then
    match op0.value with
    | .vreg vreg => emitCopyVregValueBytesToBase vreg storeSz a64X10 0
    | _ => emitMemZeroBase a64X10 0 storeSz
  else
    emitLoadOperand host op0 a64X9
    emitStore a64X9 a64X10 0 storeSz.toNat

/-- A constant step of an address. -/
def emitGepConst (offset : BitVec 64) : A64M Unit :=
  emitIf (offset ≠ 0) do
    emitMoveImmCtx a64X10 offset true
    emitU32 (encAddReg true a64X9 a64X9 a64X10)

/-- An index that is computed at run time, scaled by the size of an element. -/
def emitGepIndex (idxOp : LrOperand) (elemSize : SizeT) (signextBytes : Nat) : A64M Unit := do
  emitLoadOperand host idxOp a64X10
  emitSignextIndexReg a64X10 signextBytes
  emitIf (elemSize ≠ 1) do
    emitMoveImmCtx a64X11 elemSize true
    emitU32 (encMul true a64X10 a64X10 a64X11)
  emitU32 (encAddReg true a64X9 a64X9 a64X10)

def emitGepStep (idxOp : LrOperand) (step : GepStep) : A64M Unit :=
  if step.isConst then emitGepConst step.constByteOffset
  else emitGepIndex host idxOp step.runtimeElemSize step.runtimeSignextBytes

/-- The indices of an address, the first of them or a later one. -/
def emitGepIndices : Option LrType → Bool → List LrOperand → A64M Unit
  | _, _, [] => pure ()
  | curTy, firstIndex, idxOp :: rest =>
    match curTy.bind fun type => lrGepAnalyzeStep type firstIndex idxOp with
    | none => emitGepIndices curTy false rest
    | some step => do
      emitGepStep host idxOp step
      emitGepIndices (some step.nextType) false rest

def emitGep (desc : LrInst) (op0 : LrOperand) (indices : List LrOperand) : A64M Unit := do
  emitLoadOperand host op0 a64X9
  emitGepIndices host desc.type true indices
  emitStoreSlot desc.dest a64X9

def instIndices (desc : LrInst) : List (BitVec 32) :=
  match desc.payload with
  | .indices indices => indices
  | _ => []

/-- A field of more than eight bytes. -/
def emitExtractLarge (dest vreg : Nat) (srcIndirect : Bool) (fieldOff fieldSz : SizeT) :
    A64M Unit := do
  let dstOff ← allocSlot dest fieldSz
  let srcOff ← allocSlot vreg 8
  if srcIndirect then
    emitLoad a64X10 a64Fp srcOff 8
    emitMemCopyBaseToBase a64Fp dstOff a64X10 (fieldOff.setWidth 32) fieldSz
  else emitMemCopyBaseToBase a64Fp dstOff a64Fp (srcOff + fieldOff.setWidth 32) fieldSz

/-- A field of at most eight bytes goes to X9. -/
def emitExtractSmall (vreg : Nat) (srcIndirect : Bool) (fieldOff fieldSz : SizeT) :
    A64M Unit := do
  let srcOff ← allocSlot vreg 8
  if srcIndirect then
    emitLoad a64X10 a64Fp srcOff 8
    emitLoad a64X9 a64X10 (fieldOff.setWidth 32) fieldSz.toNat
  else emitLoad a64X9 a64Fp (srcOff + fieldOff.setWidth 32) fieldSz.toNat

/-- A field of an aggregate in a slot, or behind the pointer in the slot. -/
def emitExtractField (desc : LrInst) (vreg : Nat) (aggSz fieldOff fieldSz : SizeT) : A64M Unit := do
  let c ← get
  let srcIndirect := c.usesIndirectAggregateStorage vreg aggSz
  if fieldSz > 8 then emitExtractLarge desc.dest vreg srcIndirect fieldOff fieldSz
  else
    emitExtractSmall vreg srcIndirect fieldOff fieldSz
    emitStoreSlot desc.dest a64X9

def emitExtractvalue (desc : LrInst) (op0 : LrOperand) : A64M Unit :=
  let path := op0.type.bind fun type => lrAggregateIndexPath type (instIndices desc)
  let fieldSz := path.elim 8 fun p => if lrTypeSize p.2 = 0 then 8 else lrTypeSize p.2
  match op0.value, path with
  | .vreg vreg, some (fieldOff, _) =>
    emitExtractField desc vreg (typeSize op0.type) fieldOff fieldSz
  | .undef, _ | .null, _ =>
    if fieldSz > 8 then do
      let dstOff ← allocSlot desc.dest fieldSz
      emitMemZeroBase a64Fp dstOff fieldSz
    else do
      emitMoveImmCtx a64X9 0 true
      emitStoreSlot desc.dest a64X9
  | _, _ => emitBitcast host desc op0

/-- The aggregate that a field is put into. -/
def emitInsertBase (op0 : LrOperand) (dstOff : BitVec 32) (aggSz : SizeT) : A64M Unit :=
  match op0.value with
  | .vreg vreg => emitCopyVregValueBytesToBase vreg aggSz a64Fp dstOff
  | .undef | .null => emitMemZeroBase a64Fp dstOff aggSz
  | _ =>
    if aggSz ≤ 8 then do
      emitLoadOperand host op0 a64X9
      emitStore a64X9 a64Fp dstOff aggSz.toNat
    else emitMemZeroBase a64Fp dstOff aggSz

def emitInsertField (op1 : LrOperand) (off : BitVec 32) (fieldSz : SizeT) : A64M Unit :=
  if fieldSz = 0 then pure ()
  else if fieldSz > 8 then
    match op1.value with
    | .vreg vreg => emitCopyVregValueBytesToBase vreg fieldSz a64Fp off
    | _ => emitMemZeroBase a64Fp off fieldSz
  else do
    -- a null or undefined field is a zero in X9, which is also how such an operand is loaded
    emitLoadOperand host op1 a64X9
    emitStore a64X9 a64Fp off fieldSz.toNat

/-- The field of an `insertvalue`, if there is one. -/
def emitInsertOperand (desc : LrInst) (rest : List LrOperand) (dstOff : BitVec 32) : A64M Unit :=
  match rest, desc.type.bind fun type => lrAggregateIndexPath type (instIndices desc) with
  | op1 :: _, some (fieldOff, fieldTy) =>
    emitInsertField host op1 (dstOff + fieldOff.setWidth 32) (lrTypeSize fieldTy)
  | _, _ => pure ()

def emitInsertvalue (desc : LrInst) : A64M Unit := do
  let aggSz := if desc.type.isSome then typeSize desc.type else 8
  let aggSz := if aggSz < 8 then 8 else aggSz
  let dstOff ← allocSlot desc.dest aggSz
  match desc.operands with
  | [] => pure ()
  | op0 :: rest =>
    emitInsertBase host op0 dstOff aggSz
    emitInsertOperand host desc rest dstOff

/-- The counters of registers and stack words that the arguments before this one take. -/
structure ArgCount where
  gpUsed : Nat := 0
  fpUsed : Nat := 0
  stackArgs : Nat := 0
  deriving DecidableEq

/-- The counting loop of a call with floating point registers. -/
def countArg (n : ArgCount) (type : Option LrType) : ArgCount :=
  if a64IsComplex16 type then
    if n.fpUsed + 2 ≤ 8 then { n with fpUsed := n.fpUsed + 2 }
    else { n with stackArgs := n.stackArgs + 2 }
  else if a64IsComplex8Fp type then
    if n.fpUsed + 2 ≤ 8 then { n with fpUsed := n.fpUsed + 2 }
    else { n with stackArgs := n.stackArgs + 1 }
  else if isFpAbiType type then
    if n.fpUsed < 8 then { n with fpUsed := n.fpUsed + 1 }
    else { n with stackArgs := n.stackArgs + 1 }
  else if n.gpUsed < 8 then { n with gpUsed := n.gpUsed + 1 }
  else { n with stackArgs := n.stackArgs + 1 }

/-- The emitting loop of a call with floating point registers, one argument. -/
def emitArg (n : ArgCount) (op : LrOperand) : A64M ArgCount := do
  let spOff (k : Nat) : BitVec 32 := BitVec.ofNat 32 (n.stackArgs * 8 + k)
  let fpReg (k : Nat) : Reg := Fin.ofNat 32 (n.fpUsed + k)
  if a64IsComplex16 op.type ∧ n.fpUsed + 2 ≤ 8 then
    emitVregDataAddr host op a64X9
    emitFpLoad (fpReg 0) a64X9 0 8
    emitFpLoad (fpReg 1) a64X9 8 8
    pure { n with fpUsed := n.fpUsed + 2 }
  else if a64IsComplex16 op.type then
    emitVregDataAddr host op a64X9
    emitLoad a64X10 a64X9 0 8
    emitStore a64X10 a64Sp (spOff 0) 8
    emitLoad a64X10 a64X9 8 8
    emitStore a64X10 a64Sp (spOff 8) 8
    pure { n with stackArgs := n.stackArgs + 2 }
  else if a64IsComplex8Fp op.type ∧ n.fpUsed + 2 ≤ 8 then
    emitVregDataAddr host op a64X9
    emitFpLoad (fpReg 0) a64X9 0 4
    emitFpLoad (fpReg 1) a64X9 4 4
    pure { n with fpUsed := n.fpUsed + 2 }
  else if a64IsComplex8Fp op.type then
    emitVregDataAddr host op a64X9
    emitLoad a64X10 a64X9 0 8
    emitStore a64X10 a64Sp (spOff 0) 8
    pure { n with stackArgs := n.stackArgs + 1 }
  else if isFpAbiType op.type ∧ n.fpUsed < 8 then
    emitLoadFpOperand host op (fpReg 0) (fpAbiSize op.type)
    pure { n with fpUsed := n.fpUsed + 1 }
  else if ¬ isFpAbiType op.type ∧ n.gpUsed < 8 then
    emitLoadOperand host op (Fin.ofNat 32 n.gpUsed)
    pure { n with gpUsed := n.gpUsed + 1 }
  else
    emitLoadOperand host op a64X9
    emitStore a64X9 a64Sp (spOff 0) 8
    pure { n with stackArgs := n.stackArgs + 1 }

def emitArgs : ArgCount → List LrOperand → A64M Unit
  | _, [] => pure ()
  | n, op :: rest => do
    let n ← emitArg host n op
    emitArgs n rest

/-- Every argument is eight bytes in a register or on the stack; the stack is filled
first. -/
def emitPlainArgs (args : List LrOperand) : A64M Unit := do
  (args.drop 8).zipIdx.forM fun (op, i) => do
    emitLoadOperand host op a64X9
    emitStore a64X9 a64Sp (BitVec.ofNat 32 (i * 8)) 8
  (args.take 8).zipIdx.forM fun (op, i) => emitLoadOperand host op (Fin.ofNat 32 i)

/-- The counters of a call with Apple's variable arguments. -/
structure DarwinCount where
  gpr : Nat := 0
  fpr : Nat := 0
  namedOff : BitVec 32 := 0
  varOff : BitVec 32 := 0
  varStarted : Bool := false
  deriving DecidableEq

def DarwinCount.startVar (n : DarwinCount) : DarwinCount :=
  if n.varStarted then n else { n with varOff := (n.namedOff + 7) &&& ~~~7, varStarted := true }

/-- The size of a named argument on the stack, which is also its alignment. -/
def darwinNamedSize (type : Option LrType) : BitVec 32 :=
  let sz := if type.isSome then (typeSize type).setWidth 32 else 8
  if sz = 0 then 8 else sz

def DarwinCount.alignNamed (n : DarwinCount) (type : Option LrType) : DarwinCount :=
  let sz := darwinNamedSize type
  let al := if sz > 8 then 8 else sz
  { n with namedOff := (n.namedOff + (al - 1)) &&& ~~~(al - 1) }

def countDarwinArg (fixedArgs : Nat) (n : DarwinCount) (i : Nat) (type : Option LrType) :
    DarwinCount :=
  if i ≥ fixedArgs then
    let n := n.startVar
    { n with varOff := n.varOff + 8 }
  else if isFpAbiType type ∧ n.fpr < 8 then { n with fpr := n.fpr + 1 }
  else if ¬ isFpAbiType type ∧ n.gpr < 8 then { n with gpr := n.gpr + 1 }
  else
    let n := n.alignNamed type
    { n with namedOff := n.namedOff + darwinNamedSize type }

/-- An argument on the stack, of the size of its type. -/
def emitDarwinStackArg (op : LrOperand) (off : BitVec 32) (size : Nat) : A64M Unit := do
  if isFpAbiType op.type then
    emitLoadFpOperand host op a64D0 (fpAbiSize op.type)
    emitFpStore a64D0 a64Sp off (fpAbiSize op.type)
  else
    emitLoadOperand host op a64X9
    emitStore a64X9 a64Sp off size

def emitDarwinArg (fixedArgs : Nat) (n : DarwinCount) (i : Nat) (op : LrOperand) :
    A64M DarwinCount := do
  if i ≥ fixedArgs then
    let n := n.startVar
    emitDarwinStackArg host op n.varOff 8
    pure { n with varOff := n.varOff + 8 }
  else if isFpAbiType op.type ∧ n.fpr < 8 then
    emitLoadFpOperand host op (Fin.ofNat 32 n.fpr) (fpAbiSize op.type)
    pure { n with fpr := n.fpr + 1 }
  else if ¬ isFpAbiType op.type ∧ n.gpr < 8 then
    emitLoadOperand host op (Fin.ofNat 32 n.gpr)
    pure { n with gpr := n.gpr + 1 }
  else
    let n := n.alignNamed op.type
    let sz := darwinNamedSize op.type
    emitDarwinStackArg host op n.namedOff (if sz > 8 then 8 else sz.toNat)
    pure { n with namedOff := n.namedOff + sz }

def emitDarwinArgs (fixedArgs : Nat) : DarwinCount → Nat → List LrOperand → A64M Unit
  | _, _, [] => pure ()
  | n, i, op :: rest => do
    let n ← emitDarwinArg host fixedArgs n i op
    emitDarwinArgs fixedArgs n (i + 1) rest

/-- The result of a call, from where its convention leaves it. -/
def emitCallResult (desc : LrInst) (useFpAbi : Bool) : A64M Unit := do
  if isVoidType desc.type then pure ()
  else if a64IsComplex16 desc.type then
    let off ← allocSlot desc.dest 16
    emitFpStore 0 a64Fp off 8
    emitFpStore 1 a64Fp (off + 8) 8
  else if a64IsComplex8Fp desc.type then
    let off ← allocSlot desc.dest 8
    emitFpStore 0 a64Fp off 4
    emitFpStore 1 a64Fp (off + 4) 4
  else if useFpAbi ∧ isFpAbiType desc.type then
    emitStoreFpSlot desc.dest a64D0 (fpAbiSize desc.type)
  else emitStoreSlot desc.dest a64X0

/-- The bytes of the stack that the arguments take. -/
def callStackBytes (apple : Bool) (abi : CallAbi) (args : List LrOperand) : BitVec 32 :=
  let words (n : Nat) : BitVec 32 := (BitVec.ofNat 32 (n * 8) + 15) &&& ~~~15
  if abi.useFpAbi && abi.callVararg && apple then
    let n := args.zipIdx.foldl (fun n (op, i) =>
      countDarwinArg (min abi.callFixedArgs args.length) n i op.type) {}
    ((if n.varStarted then n.varOff else n.namedOff) + 15) &&& ~~~15
  else if abi.useFpAbi then words (args.foldl (fun n op => countArg n op.type) {}).stackArgs
  else words (args.length - 8)

/-- `apple` is `__APPLE__`. -/
def emitCallArgs (apple : Bool) (abi : CallAbi) (args : List LrOperand) : A64M Unit :=
  if abi.useFpAbi && abi.callVararg && apple then
    emitDarwinArgs host (min abi.callFixedArgs args.length) {} 0 args
  else if abi.useFpAbi then emitArgs host {} args
  else emitPlainArgs host args

def emitPlainCall (apple : Bool) (desc : LrInst) (callee : LrOperand) (args : List LrOperand) :
    A64M Unit := do
  let c ← get
  let abi := directCallUsesExternalFpAbi c desc callee
  let stackBytes := callStackBytes apple abi args
  emitSpAdjust true stackBytes.toNat
  emitCallArgs host apple abi args
  emitLoadOperand host callee a64X16
  emitU32 (.blr a64X16)
  emitSpAdjust false stackBytes.toNat
  invalidateCachedGprs
  emitCallResult desc abi.useFpAbi

def emitIntCmpSelect (desc : LrInst) (kind : IntCmpIntrinsic) (is64 : Bool)
    (args : List LrOperand) : A64M Unit :=
  match args with
  | op1 :: op2 :: _ => do
    emitLoadOperand host op1 a64X9
    emitLoadOperand host op2 a64X10
    emitU32 (encSubsReg is64 a64X9 a64X10)
    emitU32 (encCsel is64 a64X9 a64X9 a64X10 (intCmpCond kind))
    emitIf (isVoidType desc.type = false) (emitStoreSlot desc.dest a64X9)
  | _ => pure ()

def emitIntCmpIntrinsic (desc : LrInst) (kind : IntCmpIntrinsic) (is64 : Bool)
    (args : List LrOperand) : A64M Unit := do
  emitIntCmpSelect host desc kind is64 args
  invalidateCachedGprs

def emitObjectsize (desc : LrInst) (bits : Nat) : A64M Unit := do
  emitIf (isVoidType desc.type = false) do
    emitMoveImmCtx a64X9 (if bits = 32 then 0xFFFFFFFF else -1) true
    emitStoreSlot desc.dest a64X9
  invalidateCachedGprs

/-- The first argument on the stack, or null if the function has no variable ones. -/
def emitVarargStart : A64M Unit := do
  let c ← get
  if c.funcIsVararg then emitAddr a64X10 a64Fp c.varargStackStartOff
  else emitMoveImmCtx a64X10 0 true

def emitVaStartList (args : List LrOperand) : A64M Unit :=
  match args with
  | op1 :: _ => do
    emitLoadOperand host op1 a64X9
    emitVarargStart
    emitStore a64X10 a64X9 0 8
  | _ => pure ()

def emitVaStart (args : List LrOperand) : A64M Unit := do
  emitVaStartList host args
  invalidateCachedGprs

def emitVaCopyList (args : List LrOperand) : A64M Unit :=
  match args with
  | op1 :: op2 :: _ => do
    emitLoadOperand host op1 a64X9
    emitLoadOperand host op2 a64X10
    emitLoad a64X11 a64X10 0 8
    emitStore a64X11 a64X9 0 8
  | _ => pure ()

def emitVaCopy (args : List LrOperand) : A64M Unit := do
  emitVaCopyList host args
  invalidateCachedGprs

def emitCall (apple : Bool) (desc : LrInst) (callee : LrOperand) (args : List LrOperand) :
    A64M Unit := do
  let c ← get
  let cname :=
    match callee.value with
    | .global id => lrModuleSymbolName c.mod.symbols id
    | _ => none
  match cname with
  | none => emitPlainCall host apple desc callee args
  | some name =>
    match classifyLlvmIntCmpIntrinsic name with
    | some (kind, is64) => emitIntCmpIntrinsic host desc kind is64 args
    | none =>
      if llvmObjectsizeBits name ≠ 0 then emitObjectsize desc (llvmObjectsizeBits name)
      else if isLlvmVaStartName name then emitVaStart host args
      else if isLlvmVaEndName name then invalidateCachedGprs
      else if isLlvmVaCopyName name then emitVaCopy host args
      else emitPlainCall host apple desc callee args

/-- A phi has its slot before its copies are known. -/
def emitPhi (desc : LrInst) : A64M Unit := do
  let phiSz := if desc.type.isSome then typeSize desc.type else 8
  let _ ← allocSlot desc.dest (if phiSz < 8 then 8 else phiSz)

def instIcmpPred (desc : LrInst) : IcmpPred :=
  match desc.payload with
  | .icmpPred pred => pred
  | _ => .eq

def instFcmpPred (desc : LrInst) : FcmpPred :=
  match desc.payload with
  | .fcmpPred pred => pred
  | _ => .false

/-- The `switch` of `aarch64_compile_emit`. -/
def emitInst (apple : Bool) (desc : LrInst) : Option (A64M Unit) :=
  match desc.op, desc.operands with
  | .ret, op0 :: _ => some (defer .ret [op0])
  | .retVoid, _ => some (defer .retVoid [])
  | .unreachable, _ => some (defer .unreachable [])
  | .br, op0 :: _ => some (defer .br [op0])
  | .condbr, op0 :: op1 :: op2 :: _ => some (defer .condbr [op0, op1, op2])
  | .add, op0 :: op1 :: _ =>
    some (emitBinary host desc op0 op1 fun is64 => encAddReg is64 a64X9 a64X9 a64X10)
  | .sub, op0 :: op1 :: _ =>
    some (emitBinary host desc op0 op1 fun is64 => encSubReg is64 a64X9 a64X9 a64X10)
  | .and, op0 :: op1 :: _ =>
    some (emitBinary host desc op0 op1 fun is64 => encLogicReg .and is64 a64X9 a64X9 a64X10)
  | .or, op0 :: op1 :: _ =>
    some (emitBinary host desc op0 op1 fun is64 => encLogicReg .orr is64 a64X9 a64X9 a64X10)
  | .xor, op0 :: op1 :: _ =>
    some (emitBinary host desc op0 op1 fun is64 => encLogicReg .eor is64 a64X9 a64X9 a64X10)
  | .mul, op0 :: op1 :: _ =>
    some (emitBinary host desc op0 op1 fun is64 => encMul is64 a64X9 a64X9 a64X10)
  | .shl, op0 :: op1 :: _ =>
    some (emitBinary host desc op0 op1 fun is64 => encLslv is64 a64X9 a64X9 a64X10)
  | .lshr, op0 :: op1 :: _ =>
    some (emitBinary host desc op0 op1 fun is64 => encLsrv is64 a64X9 a64X9 a64X10)
  | .ashr, op0 :: op1 :: _ =>
    some (emitBinary host desc op0 op1 fun is64 => encAsrv is64 a64X9 a64X9 a64X10)
  | .sdiv, op0 :: op1 :: _ => some (emitDivision host desc op0 op1 false false)
  | .srem, op0 :: op1 :: _ => some (emitDivision host desc op0 op1 false true)
  | .udiv, op0 :: op1 :: _ => some (emitDivision host desc op0 op1 true false)
  | .urem, op0 :: op1 :: _ => some (emitDivision host desc op0 op1 true true)
  | .icmp, op0 :: op1 :: _ => some (emitIcmp host desc (instIcmpPred desc) op0 op1)
  | .fcmp, op0 :: op1 :: _ => some (emitFcmp host desc (instFcmpPred desc) op0 op1)
  | .select, op0 :: op1 :: op2 :: _ => some (emitSelect host desc op0 op1 op2)
  | .fadd, op0 :: op1 :: _ => some (emitFpBinary host desc op0 op1 .fadd)
  | .fsub, op0 :: op1 :: _ => some (emitFpBinary host desc op0 op1 .fsub)
  | .fmul, op0 :: op1 :: _ => some (emitFpBinary host desc op0 op1 .fmul)
  | .fdiv, op0 :: op1 :: _ => some (emitFpBinary host desc op0 op1 .fdiv)
  | .frem, op0 :: op1 :: _ => some (emitFrem host desc op0 op1)
  | .fneg, op0 :: _ => some (emitFneg host desc op0)
  | .alloca, _ => some (emitAlloca host desc)
  | .load, op0 :: _ => some (emitLoadInst host desc op0)
  | .store, op0 :: op1 :: _ => some (emitStoreInst host op0 op1)
  | .gep, op0 :: indices => some (emitGep host desc op0 indices)
  | .sext, op0 :: _ => some (emitIntCast host desc op0 (intTypeWidthBits op0.type) encAsrv)
  | .zext, op0 :: _ => some (emitIntCast host desc op0 (intTypeWidthBits op0.type) encLsrv)
  | .trunc, op0 :: _ => some (emitIntCast host desc op0 (intTypeWidthBits desc.type) encLsrv)
  | .bitcast, op0 :: _ | .ptrtoint, op0 :: _ | .inttoptr, op0 :: _ =>
    some (emitBitcast host desc op0)
  | .sitofp, op0 :: _ => some (emitSitofp host desc op0)
  | .uitofp, op0 :: _ => some (emitUitofp host desc op0)
  | .fptosi, op0 :: _ => some (emitFpToInt host desc op0 encFcvtzs)
  | .fptoui, op0 :: _ => some (emitFpToInt host desc op0 encFcvtzu)
  | .fpext, op0 :: _ => some (emitFpConvert host desc op0 true)
  | .fptrunc, op0 :: _ => some (emitFpConvert host desc op0 false)
  | .extractvalue, op0 :: _ => some (emitExtractvalue host desc op0)
  | .insertvalue, _ => some (emitInsertvalue host desc)
  | .call, callee :: args => some (emitCall host apple desc callee args)
  | .phi, _ => some (emitPhi desc)
  | _, _ => none

/-- `lr_compile_func_meta_t`; `none` is a null pointer. -/
structure CompileFuncMeta where
  func : Option LrFunc
  retType : Option LrType
  paramTypes : Option (List LrType)
  numParams : Nat
  vararg : Bool
  nextVreg : Nat
  deriving DecidableEq

def CompileFuncMeta.paramType (m : CompileFuncMeta) (i : Nat) : Option LrType :=
  m.paramTypes.bind fun types => types[i]?

/-- The registers of the parameters are numbered from 1 if the function has none. -/
def CompileFuncMeta.paramVregs (m : CompileFuncMeta) : List Nat :=
  match m.func.bind fun f => f.paramVregs with
  | some vregs => vregs.take m.numParams
  | none => (List.range m.numParams).map (· + 1)

def CompileFuncMeta.firstVreg (m : CompileFuncMeta) : Nat :=
  if (m.func.bind fun f => f.paramVregs).isNone ∧ 0 < m.numParams then
    max m.nextVreg (m.numParams + 1)
  else m.nextVreg

/-- The registers and words of the stack that the parameters of a function with variable
arguments take. -/
def countVarargParam (n : ArgCount) (type : Option LrType) : ArgCount :=
  if isFpAbiType type ∧ n.fpUsed < 8 then { n with fpUsed := n.fpUsed + 1 }
  else if ¬ isFpAbiType type ∧ n.gpUsed < 8 then { n with gpUsed := n.gpUsed + 1 }
  else { n with stackArgs := n.stackArgs + 1 }

def varargStackWords (useFpAbi : Bool) (types : List (Option LrType)) : Nat :=
  if useFpAbi then (types.foldl countVarargParam {}).stackArgs else types.length - 8

/-- A parameter of a function with floating point registers. -/
def emitParam (n : ArgCount) (vreg : Nat) (type : Option LrType) : A64M ArgCount := do
  let fpReg (k : Nat) : Reg := Fin.ofNat 32 (n.fpUsed + k)
  if a64IsComplex8Fp type ∧ n.fpUsed + 2 ≤ 8 then
    let off ← allocSlot vreg 8
    emitFpStore (fpReg 0) a64Fp off 4
    emitFpStore (fpReg 1) a64Fp (off + 4) 4
    pure { n with fpUsed := n.fpUsed + 2 }
  else if a64IsComplex16 type ∧ n.fpUsed + 2 ≤ 8 then
    let off ← allocSlot vreg 16
    emitFpStore (fpReg 0) a64Fp off 8
    emitFpStore (fpReg 1) a64Fp (off + 8) 8
    pure { n with fpUsed := n.fpUsed + 2 }
  else if isFpAbiType type ∧ n.fpUsed < 8 then
    emitStoreFpSlot vreg (fpReg 0) (fpAbiSize type)
    pure { n with fpUsed := n.fpUsed + 1 }
  else if ¬ isFpAbiType type ∧ n.gpUsed < 8 then
    emitStoreSlot vreg (Fin.ofNat 32 n.gpUsed)
    pure { n with gpUsed := n.gpUsed + 1 }
  else
    let callerOff := BitVec.ofNat 32 (16 + n.stackArgs * 8)
    if isFpAbiType type then
      emitFpLoad fpScratch0 a64Fp callerOff (fpAbiSize type)
      emitStoreFpSlot vreg fpScratch0 (fpAbiSize type)
      pure { n with stackArgs := n.stackArgs + 1 }
    else
      emitLoad a64X9 a64Fp callerOff 8
      emitStoreSlot vreg a64X9
      pure { n with stackArgs := n.stackArgs + 1 }

def emitParams : ArgCount → List (Nat × Option LrType) → A64M Unit
  | _, [] => pure ()
  | n, (vreg, type) :: rest => do
    let n ← emitParam n vreg type
    emitParams n rest

/-- A parameter of a function in which all parameters are eight bytes. -/
def emitPlainParam (vreg i : Nat) : A64M Unit :=
  if i < 8 then emitStoreSlot vreg (Fin.ofNat 32 i)
  else do
    emitLoad a64X9 a64Fp (BitVec.ofNat 32 (16 + (i - 8) * 8)) 8
    emitStoreSlot vreg a64X9

def initialCtx (m : CompileFuncMeta) (mod : LrModule) (obj : Option ObjfileCtx)
    (symDefined : List Bool) (symFuncs : List (Option LrFunc)) : A64Ctx :=
  let useFpAbi := m.func.any fun f => f.usesLlvmAbi
  let types := (List.range m.numParams).map m.paramType
  { obj := obj
    mod := mod
    symDefined := symDefined
    symFuncs := symFuncs
    funcUsesFpAbi := useFpAbi
    funcIsVararg := m.vararg
    varargStackStartOff :=
      if m.vararg then BitVec.ofNat 32 (16 + varargStackWords useFpAbi types * 8) else 16
    nextVreg := m.firstVreg
    retType := m.retType.getD mod.builtin.typeVoid }

/-- `symDefined` and `symFuncs` are empty without a context of an object. -/
def aarch64CompileBegin (m : CompileFuncMeta) (mod : LrModule) (obj : Option ObjfileCtx)
    (symDefined : List Bool) (symFuncs : List (Option LrFunc)) : A64Ctx :=
  let start := initialCtx m mod obj symDefined symFuncs
  let emit : A64M Unit := do
    let pos ← emitPrologue
    modify fun c => { c with prologuePatchPos := pos }
    if start.funcUsesFpAbi then
      emitParams {} (m.paramVregs.zipIdx.map fun (vreg, i) => (vreg, m.paramType i))
    else m.paramVregs.zipIdx.forM fun (vreg, i) => emitPlainParam vreg i
  (emit start).2

end Host
end Liric.Source.Aarch64
