import Liric.Source.Jit.Modules
import Liric.Source.Session.BlobPackage

/-!
# Building functions in a direct session

Source: src/session.c:94-203 (`session_phi_copy_entry_t` to `lr_session`), 275-302 and 334-364
(opcodes and operands), 528-600 (block and phi tables), 695-718 (relocation ranges), 1691-1850
(`emit_ir_instruction` to `validate_block_termination`), 1896-2118 (`lr_session_suspend_func` to
`ensure_block`), 2769-2793 and 2864-3147 (`lr_session_add_phi_copy`, `lr_session_block` to
`lr_session_emit`), src/ir.c:195-197 and 1801-1837 (`lr_vreg_new`, `lr_canonicalize_gep_index`).

The session is in direct mode with a target that can compile without LLVM. There
`compile_deferred` is set whenever `compile_active` is, so nothing is streamed into
the target while a function is built: `compile_ctx` and the null-derived registers
stay null and are left out, and so is the error record. A pointer to a function or
a block is its place. A counted table has its capacity as its length. Allocations
succeed, the lists a caller passes are there, and block ids stay far below `2 ^ 31`.
A step that would stream, or replace a call target, is `none`.
-/
namespace Liric.Source.Session
open Ir Object
open Jit (LrJit)

structure FuncRef where
  module : Nat
  func : Nat
  deriving DecidableEq

structure BlockRef where
  func : FuncRef
  block : Nat
  deriving DecidableEq

structure PhiCopyDesc where
  destVreg : Nat
  srcOp : LrOperand
  deriving DecidableEq

structure SessionPhiCopyEntry where
  predBlockId : Nat
  copy : PhiCopyDesc
  deriving DecidableEq

structure DirectRelocRange where
  start : Nat
  stop : Nat
  deriving DecidableEq

/-- The saved state of a suspended function. -/
structure SuspendedCompile where
  func : FuncRef
  curBlock : Option BlockRef
  blocks : List (Option BlockRef)
  blockSeen : List Bool
  blockTerminated : List Bool
  blockCount : Nat
  phiCopies : List SessionPhiCopyEntry
  funcBufCap : Nat
  directRelocBase : Nat
  directRelocRanges : List DirectRelocRange
  compileActive : Bool
  compileDeferred : Bool
  compileOpenedUpdate : Bool
  emittedCount : Nat
  deriving DecidableEq

/-- The fields of `lr_session` in direct mode. `updateActive` belongs to the JIT;
`objCtxModules` are the modules whose `obj_ctx` points to `directObjCtx`. -/
structure LrSession where
  jit : LrJit
  updateActive : Bool := false
  modules : List LrModule
  objCtxModules : List Nat := []
  module : Nat
  curFunc : Option FuncRef := none
  curBlock : Option BlockRef := none
  blocks : List (Option BlockRef) := []
  blockSeen : List Bool := []
  blockTerminated : List Bool := []
  blockCount : Nat := 0
  phiCopies : List SessionPhiCopyEntry := []
  compileActive : Bool := false
  compileDeferred : Bool := false
  compileOpenedUpdate : Bool := false
  emittedCount : Nat := 0
  funcCompileBufCap : Nat := 0
  directRelocRanges : List DirectRelocRange := []
  directRelocActiveStart : Nat := 0
  directRelocActive : Bool := false
  suspended : List SuspendedCompile := []
  directObjCtx : ObjfileCtx := ⟨[], [], []⟩
  directObjCtxActive : Bool := false
  directRelocBase : Nat := 0
  directPendingRelocs : Bool := false
  directPendingRelocStart : Nat := 0
  blobs : List FuncBlob := []
  deriving DecidableEq

def findFunc (modules : List LrModule) (r : FuncRef) : Option LrFunc :=
  (modules[r.module]?).bind fun m => m.funcs[r.func]?

def findBlock (modules : List LrModule) (b : BlockRef) : Option LrBlock :=
  (findFunc modules b.func).bind fun f => f.blocks[b.block]?

def updateModule (s : LrSession) (i : Nat) (change : LrModule → LrModule) : LrSession :=
  { s with modules := s.modules.modify i change }

def updateFuncRef (s : LrSession) (r : FuncRef) (change : LrFunc → LrFunc) : LrSession :=
  updateModule s r.module fun m => updateFunc m r.func change

/-- The scalar types of `s->module`. -/
def sessionTypes (s : LrSession) : BuiltinTypes :=
  ((s.modules[s.module]?).map fun m => m.builtin).getD (lrModuleCreateTypes 0)

def vregOf (s : LrSession) (r : FuncRef) : Nat :=
  ((findFunc s.modules r).map fun f => f.nextVreg).getD 0

def lrVregNew (s : LrSession) (r : FuncRef) : LrSession × Nat :=
  (updateFuncRef s r fun f => { f with nextVreg := (f.nextVreg + 1) % 2 ^ 32 }, vregOf s r)

def appendInst (s : LrSession) (b : BlockRef) (inst : LrInst) : LrSession :=
  updateModule s b.func.module fun m => lrBlockAppend m b.func.func b.block inst

def isTerminator : Opcode → Bool
  | .ret | .retVoid | .br | .condbr | .unreachable => true
  | _ => false

def isVoid : LrType → Bool
  | .scalar _ .void => true
  | _ => false

def opcodeHasDest (op : Opcode) (type : Option LrType) : Bool :=
  match op with
  | .ret | .retVoid | .br | .condbr | .unreachable | .store => false
  | .call => type.any fun t => !isVoid t
  | _ => true

/-- 8, doubled until it is enough. The fuel bounds the doublings. -/
def growCap (need : Nat) : Nat → Nat → Nat
  | 0, cap => max cap need
  | fuel + 1, cap => if cap < need then growCap need fuel (cap * 2) else cap

def padTo {α : Type} (xs : List α) (cap : Nat) (fill : α) : List α :=
  xs ++ List.replicate (cap - xs.length) fill

def ensureBlockCapacity (s : LrSession) (need : Nat) : LrSession :=
  if need ≤ s.blocks.length then s
  else
    let newCap := growCap need need (if s.blocks.length = 0 then 8 else s.blocks.length)
    { s with
      blocks := padTo s.blocks newCap none
      blockSeen := padTo s.blockSeen newCap false
      blockTerminated := padTo s.blockTerminated newCap false }

def resetPhiCopies (s : LrSession) : LrSession := { s with phiCopies := [] }

/-- The flags of the blocks that were counted. -/
def resetBlockTracking (s : LrSession) : LrSession :=
  { s with
    blockSeen := List.replicate (min s.blockCount s.blockSeen.length) false ++
      s.blockSeen.drop s.blockCount
    blockTerminated := List.replicate (min s.blockCount s.blockTerminated.length) false ++
      s.blockTerminated.drop s.blockCount }

def appendPhiCopy (s : LrSession) (predBlockId : Nat) (copy : PhiCopyDesc) : LrSession :=
  { s with phiCopies := s.phiCopies ++ [⟨predBlockId, copy⟩] }

/-- `"b%u"`. -/
def blockName (id : Nat) : CStr := 98 :: (Nat.toDigits 10 id).map fun c => UInt8.ofNat c.toNat

/-- The loop of `ensure_block`: `turns` blocks are still missing. -/
def createBlocks (r : FuncRef) : Nat → LrSession → LrSession × Bool
  | 0, s => (s, true)
  | turns + 1, s =>
    let nextId := s.blockCount
    match findFunc s.modules r with
    | none => (s, false)
    | some f =>
      let s := updateFuncRef s r (blockCreate (blockName nextId))
      if f.numBlocks ≠ nextId then (s, false)
      else
        createBlocks r turns { s with
          blocks := s.blocks.set nextId (some ⟨r, f.blocks.length⟩)
          blockCount := s.blockCount + 1 }

def ensureBlock (s : LrSession) (blockId : Nat) : LrSession × Bool :=
  match s.curFunc with
  | none => (s, false)
  | some r =>
    createBlocks r (blockId + 1 - s.blockCount) (ensureBlockCapacity s (blockId + 1))

/-- `none` is `UINT32_MAX`. -/
def lrSessionBlock (s : LrSession) : LrSession × Option Nat :=
  match s.curFunc with
  | none => (s, none)
  | some _ =>
    let id := s.blockCount
    let (s, ok) := ensureBlock s id
    (s, if ok then some id else none)

def lrSessionSetBlock (s : LrSession) (blockId : Nat) : Option (LrSession × Bool) :=
  match s.curFunc with
  | none => some (s, false)
  | some _ =>
    let (s, ok) := ensureBlock s blockId
    if !ok then some (s, false)
    else
      let s := { s with curBlock := (s.blocks[blockId]?).join }
      if s.compileActive && !s.compileDeferred then none else some (s, true)

def lrSessionVreg (s : LrSession) : LrSession × Option Nat :=
  match s.curFunc with
  | none => (s, none)
  | some r =>
    let (s, vreg) := lrVregNew s r
    (s, some vreg)

def lrSessionAddPhiCopy (s : LrSession) (predBlockId : Nat) (copy : PhiCopyDesc) :
    Option (LrSession × Bool) :=
  match s.curFunc with
  | none => some (s, false)
  | some _ =>
    let (s, ok) := ensureBlock s predBlockId
    if !ok then some (s, false)
    else
      let s := appendPhiCopy s predBlockId copy
      if s.compileActive && !s.compileDeferred then none else some (s, true)

/-- `session_inst_desc_t`. The descriptor of an operand has the kinds and the members
of an operand of the IR. -/
structure InstDesc where
  op : Opcode
  type : Option LrType
  dest : Nat := 0
  operands : List LrOperand := []
  indices : List (BitVec 32) := []
  align : Nat := 0
  icmpPred : IcmpPred := .eq
  fcmpPred : FcmpPred := .false
  callExternalAbi : Bool := false
  callVararg : Bool := false
  callFixedArgs : Nat := 0
  deriving DecidableEq

/-- An index of 8 to 32 bits becomes a sign extension in front of the address. -/
def lrCanonicalizeGepIndex (s : LrSession) (b : BlockRef) (r : FuncRef) (idxOp : LrOperand) :
    LrSession × LrOperand :=
  let typeI64 := (sessionTypes s).typeI64
  match idxOp.value with
  | .immI64 _ | .undef => (s, { idxOp with type := some typeI64 })
  | .vreg _ =>
    match idxOp.type with
    | some (.scalar _ .i1) | some (.scalar _ .i8) | some (.scalar _ .i16)
    | some (.scalar _ .i32) =>
      let (s, castDest) := lrVregNew s r
      let s := appendInst s b (lrInstCreate .sext (some typeI64) castDest [idxOp])
      (s, lrOpVreg castDest (some typeI64))
    | _ => (s, idxOp)
  | _ => (s, idxOp)

def canonicalizeIndices (b : BlockRef) (r : FuncRef) :
    LrSession → List LrOperand → LrSession × List LrOperand
  | s, [] => (s, [])
  | s, op :: rest =>
    let (s, op) := lrCanonicalizeGepIndex s b r op
    let (s, rest) := canonicalizeIndices b r s rest
    (s, op :: rest)

/-- The operands of an address after the base are canonicalised in their order. -/
def emittedOperands (s : LrSession) (b : BlockRef) (r : FuncRef) (inst : InstDesc) :
    LrSession × List LrOperand :=
  match inst.op, inst.operands with
  | .gep, base :: rest =>
    let (s, rest) := canonicalizeIndices b r s rest
    (s, base :: rest)
  | _, ops => (s, ops)

def instPayload (inst : InstDesc) : InstPayload :=
  match inst.op with
  | .icmp => .icmpPred inst.icmpPred
  | .fcmp => .fcmpPred inst.fcmpPred
  | .extractvalue | .insertvalue => .indices inst.indices
  | _ => .indices []

/-- The instruction of a descriptor with these operands. -/
def instOf (inst : InstDesc) (ops : List LrOperand) : LrInst :=
  let out := lrInstCreate inst.op inst.type inst.dest ops
  let out := { out with payload := instPayload inst, align := inst.align }
  if inst.op = .call then
    { out with
      callExternalAbi := inst.callExternalAbi
      callVararg := inst.callVararg
      callFixedArgs := inst.callFixedArgs }
  else out

def emitIrInstruction (s : LrSession) (b : BlockRef) (r : FuncRef) (inst : InstDesc) : LrSession :=
  let (s, ops) := emittedOperands s b r inst
  appendInst s b (instOf inst ops)

/-- The default type of comparisons, and of instructions without a value. -/
def instType (types : BuiltinTypes) (inst : InstDesc) : Option LrType :=
  match inst.type with
  | some t => some t
  | none =>
    if inst.op = .icmp ∨ inst.op = .fcmp then some types.typeI1
    else if isTerminator inst.op ∨ inst.op = .store then some types.typeVoid
    else none

/-- A given register is kept and counted, otherwise a new one is taken. -/
def instDest (s : LrSession) (r : FuncRef) (inst : InstDesc) (itype : Option LrType) :
    LrSession × Nat :=
  if opcodeHasDest inst.op itype then
    if inst.dest = 0 then lrVregNew s r
    else if inst.dest ≥ vregOf s r then
      (updateFuncRef s r fun f => { f with nextVreg := (inst.dest + 1) % 2 ^ 32 }, inst.dest)
    else (s, inst.dest)
  else (s, 0)

def isAggregateGepBaseType : Option LrType → Bool
  | some (.struct ..) | some (.array ..) | some (.vector ..) => true
  | _ => false

def isTrimmableScalarGepIndex (op : LrOperand) : Bool :=
  match op.value with
  | .undef | .null => true
  | .immI64 val => val == 0
  | _ => false

/-- Zero indices behind the second operand of an address of a scalar are dropped. -/
def trimOperands (inst : InstDesc) (itype : Option LrType) : List LrOperand :=
  if inst.op = .gep ∧ isAggregateGepBaseType itype = false then
    inst.operands.take 2 ++
      ((inst.operands.drop 2).reverse.dropWhile isTrimmableScalarGepIndex).reverse
  else inst.operands

/-- A call of a global while no object context takes its relocation. -/
def resolvesCallTarget (s : LrSession) (inst : InstDesc) : Bool :=
  s.compileActive && inst.op == .call &&
    (match inst.operands with
      | ⟨.global _, _, _⟩ :: _ => true
      | _ => false) &&
    !s.objCtxModules.contains s.module

def lrSessionEmit (s : LrSession) (inst : InstDesc) : Option (LrSession × Nat) :=
  match s.curFunc, s.curBlock with
  | some r, some b =>
    let itype := instType (sessionTypes s) inst
    if itype = none ∧ inst.op ≠ .call then some (s, 0)
    else
      let (s, dest) := instDest s r inst itype
      let normalized :=
        { inst with type := itype, dest := dest, operands := trimOperands inst itype }
      if resolvesCallTarget s normalized || (s.compileActive && !s.compileDeferred) then none
      else
        let s := emitIrInstruction s b r normalized
        let id := ((findBlock s.modules b).map fun blk => blk.id).getD 0
        some ({ s with
          blockSeen := s.blockSeen.set id true
          blockTerminated := s.blockTerminated.set id (isTerminator normalized.op)
          emittedCount := s.emittedCount + 1 }, dest)
  | _, _ => some (s, 0)

/-- One block: it gets a terminator unless it has one. -/
def terminateBlock (r : FuncRef) (s : LrSession) (i : Nat) : LrSession :=
  match findBlock s.modules ⟨r, i⟩ with
  | none => s
  | some b =>
    let s := ensureBlockCapacity s (b.id + 1)
    let s :=
      if (s.blocks[b.id]?).join.isNone then
        { s with blocks := s.blocks.set b.id (some ⟨r, i⟩) }
      else s
    let s := if s.blockCount ≤ b.id then { s with blockCount := b.id + 1 } else s
    let terminated := (s.blockSeen[b.id]?).getD false && (s.blockTerminated[b.id]?).getD false
    let terminated := terminated || b.insts.getLast?.any fun inst => isTerminator inst.op
    let s := if terminated then s else appendInst s ⟨r, i⟩ (lrInstCreate .unreachable none 0 [])
    { s with
      blockSeen := s.blockSeen.set b.id true
      blockTerminated := s.blockTerminated.set b.id true }

def validateBlockTermination (s : LrSession) : LrSession × Bool :=
  match s.curFunc with
  | none => (s, false)
  | some r =>
    match findFunc s.modules r with
    | none => (s, false)
    | some f =>
      if f.blocks.isEmpty then (s, false)
      else ((List.range f.blocks.length).foldl (terminateBlock r) s, true)

/-- `s->module->obj_ctx = NULL`. -/
def clearObjCtx (s : LrSession) : LrSession :=
  { s with objCtxModules := s.objCtxModules.filter (· ≠ s.module) }

/-- `s->module->obj_ctx = &s->direct_obj_ctx`. -/
def setObjCtx (s : LrSession) : LrSession :=
  { s with objCtxModules := s.module :: s.objCtxModules.filter (· ≠ s.module) }

def finishFunctionState (s : LrSession) : LrSession :=
  let s := if s.compileOpenedUpdate then { s with updateActive := false } else s
  let s := resetPhiCopies (resetBlockTracking (clearObjCtx s))
  { s with
    curFunc := none
    curBlock := none
    blockCount := 0
    compileActive := false
    compileDeferred := false
    compileOpenedUpdate := false
    emittedCount := 0
    directRelocRanges := []
    directRelocActive := false }

def appendDirectRelocRange (s : LrSession) (start stop : Nat) : LrSession :=
  if stop ≤ start then s
  else { s with directRelocRanges := s.directRelocRanges ++ [⟨start, stop⟩] }

def closeActiveDirectRelocRange (s : LrSession) : LrSession :=
  if !s.directRelocActive then s
  else
    let stop := if s.directObjCtxActive then s.directObjCtx.relocs.length
      else s.directRelocActiveStart
    { appendDirectRelocRange s s.directRelocActiveStart stop with directRelocActive := false }

def lrSessionSuspendFunc (s : LrSession) : LrSession × Bool :=
  match s.curFunc with
  | none => (s, false)
  | some r =>
    if !s.compileActive then (s, false)
    else
      let s := closeActiveDirectRelocRange s
      let slot : SuspendedCompile :=
        { func := r
          curBlock := s.curBlock
          blocks := s.blocks
          blockSeen := s.blockSeen
          blockTerminated := s.blockTerminated
          blockCount := s.blockCount
          phiCopies := s.phiCopies
          directRelocBase := s.directRelocBase
          directRelocRanges := s.directRelocRanges
          compileActive := s.compileActive
          compileDeferred := s.compileDeferred
          compileOpenedUpdate := s.compileOpenedUpdate
          emittedCount := s.emittedCount
          funcBufCap := s.funcCompileBufCap }
      let s := { s with funcCompileBufCap := 0, suspended := s.suspended ++ [slot] }
      let s := if s.compileOpenedUpdate then { s with updateActive := false } else s
      (clearObjCtx { s with
        curFunc := none
        curBlock := none
        blocks := []
        blockSeen := []
        blockTerminated := []
        blockCount := 0
        phiCopies := []
        compileActive := false
        compileDeferred := false
        compileOpenedUpdate := false
        emittedCount := 0
        directRelocRanges := []
        directRelocActive := false }, true)

def lrSessionResumeFunc (s : LrSession) (suspendedIdx : Nat) : LrSession × Bool :=
  match s.suspended[suspendedIdx]? with
  | none => (s, false)
  | some slot =>
    if s.curFunc.isSome then (s, false)
    else
      let s := { s with
        curFunc := some slot.func
        curBlock := slot.curBlock
        blocks := slot.blocks
        blockSeen := slot.blockSeen
        blockTerminated := slot.blockTerminated
        blockCount := slot.blockCount
        phiCopies := slot.phiCopies
        directRelocBase := slot.directRelocBase
        directRelocRanges := slot.directRelocRanges
        compileActive := slot.compileActive
        compileDeferred := slot.compileDeferred
        compileOpenedUpdate := slot.compileOpenedUpdate
        emittedCount := slot.emittedCount
        directRelocActiveStart :=
          if s.directObjCtxActive then s.directObjCtx.relocs.length else slot.directRelocBase
        directRelocActive := true
        funcCompileBufCap := slot.funcBufCap }
      let s :=
        if s.compileActive then
          let s :=
            if !s.compileDeferred && !s.updateActive then
              { s with updateActive := true, compileOpenedUpdate := true }
            else s
          setObjCtx s
        else s
      ({ s with suspended := s.suspended.eraseIdx suspendedIdx }, true)

end Liric.Source.Session
