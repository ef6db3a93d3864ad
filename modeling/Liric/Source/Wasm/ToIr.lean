import Liric.Source.Ir.Module
import Liric.Source.Ll.Parser
import Liric.Source.Wasm.Decode

/-!
# From WASM to IR

Source: src/wasm_to_ir.c:100-919 (`val_stack_t` to `lr_wasm_build_module`).

The module is built without a streaming callback. A name is a C string and ends at its first
zero byte. A pointer to a block is the place of the block in its function, and the stacks
are lists with their top in front. `none` is undefined behaviour: a null pointer is followed,
an array is read outside its bounds, or a value is used that no reader has stored.
-/
namespace Liric.Source.Wasm
open Ir
open Ll (decimalName)

inductive CtrlKind where
  | block | loop | cond
  deriving DecidableEq

/-- `ctrl_entry_t`. -/
structure CtrlEntry where
  kind : CtrlKind
  contBlock : Nat
  loopHdr : Option Nat := none
  elseBlock : Option Nat := none
  resultType : Option LrType
  resultSlot : Nat
  stackHeight : Nat
  deriving DecidableEq

/-- `wasm_ctx_t`, with the position in the body. `calls` lists the instructions made of
calls, each with the function index of the call. -/
structure WasmCtx where
  mod : LrModule
  func : Nat
  curBlock : Option Nat
  vstack : List (Nat × Option LrType) := []
  ctrl : List CtrlEntry := []
  localSlots : List Nat := []
  numLocals : Nat := 0
  pos : Nat := 0
  err : Option String := none
  failed : Bool := false
  calls : List (Nat × LrInst) := []
  deriving DecidableEq

abbrev Convert := StateT WasmCtx Option

def undefined {α : Type} : Convert α := fun _ => none

/-- `ctx_err`. -/
def ctxErr (msg : String) : Convert Unit :=
  modify fun c => { c with err := some msg, failed := true }

def maxStack : Nat := 256
def maxCtrl : Nat := 64

def vpush (vreg : Nat) (type : Option LrType) : Convert Unit := do
  if (← get).vstack.length ≥ maxStack then ctxErr "value stack overflow"
  else modify fun c => { c with vstack := (vreg, type) :: c.vstack }

/-- A missing value is the register 0 without a type. -/
def vpop : Convert (Nat × Option LrType) := do
  match (← get).vstack with
  | [] =>
    ctxErr "value stack underflow"
    pure (0, none)
  | v :: rest =>
    modify fun c => { c with vstack := rest }
    pure v

def wasmToLrType (b : BuiltinTypes) (vt : UInt8) : LrType :=
  if vt = 0x7F then b.typeI32
  else if vt = 0x7E then b.typeI64
  else if vt = 0x7D then b.typeFloat
  else if vt = 0x7C then b.typeDouble
  else b.typeI32

def builtin : Convert BuiltinTypes := do pure (← get).mod.builtin

/-- The function that is being converted. -/
def curFunc : Convert LrFunc := do
  match (← get).mod.funcs[(← get).func]? with
  | some f => pure f
  | none => undefined

/-- `lr_vreg_new` of the current function. -/
def vregNew : Convert Nat := do
  let f ← curFunc
  modify fun c =>
    { c with mod := updateFunc c.mod c.func fun f => { f with nextVreg := f.nextVreg + 1 } }
  pure f.nextVreg

/-- `lr_block_create` in the current function. -/
def blockNew (name : CStr) : Convert Nat := do
  let f ← curFunc
  modify fun c => { c with mod := lrBlockCreate c.mod c.func name }
  pure f.blocks.length

def setCurBlock (block : Option Nat) : Convert Unit := modify fun c => { c with curBlock := block }

/-- `lr_op_block(block->id)`. -/
def blockOp (block : Nat) : Convert LrOperand := do
  match (← curFunc).blocks[block]? with
  | some b => pure (lrOpBlock b.id)
  | none => undefined

/-- The block instructions are appended to, which the pointer must point to. -/
def currentBlock : Convert Nat := do
  match (← get).curBlock with
  | some block => if block < (← curFunc).blocks.length then pure block else undefined
  | none => undefined

/-- `append_inst`, unless the conversion has failed. -/
def appendInst (inst : LrInst) : Convert Unit := do
  if (← get).failed then pure ()
  else
    let block ← currentBlock
    modify fun c => { c with mod := lrBlockAppend c.mod c.func block inst }

def emitInst (op : Opcode) (type : LrType) (dest : Nat) (ops : List LrOperand) : Convert Unit :=
  appendInst (lrInstCreate op (some type) dest ops)

/-- `emit_inst` with a type from the value stack. -/
def emitTyped (op : Opcode) (type : Option LrType) (dest : Nat) (ops : List LrOperand) :
    Convert Unit :=
  appendInst (lrInstCreate op type dest ops)

def emitIcmp (type : LrType) (dest : Nat) (ops : List LrOperand) (pred : IcmpPred) : Convert Unit :=
  appendInst { lrInstCreate .icmp (some type) dest ops with payload := .icmpPred pred }

/-- `emit_binop`. -/
def emitBinop (op : Opcode) : Convert Unit := do
  let (rhs, _) ← vpop
  let (lhs, t) ← vpop
  let dest ← vregNew
  emitTyped op t dest [lrOpVreg lhs t, lrOpVreg rhs t]
  vpush dest t

/-- `emit_cmp`: the result has the type `i1` where it is made and `i32` on the stack. -/
def emitCmp (pred : IcmpPred) : Convert Unit := do
  let b ← builtin
  let (rhs, _) ← vpop
  let (lhs, t) ← vpop
  let dest ← vregNew
  emitIcmp b.typeI1 dest [lrOpVreg lhs t, lrOpVreg rhs t] pred
  vpush dest (some b.typeI32)

def ctrlPush (kind : CtrlKind) (cont : Nat) (loopHdr elseBlk : Option Nat)
    (resultType : Option LrType) (resultSlot : Nat) : Convert Unit := do
  if (← get).ctrl.length ≥ maxCtrl then ctxErr "control stack overflow"
  else modify fun c =>
    { c with ctrl := { kind := kind, contBlock := cont, loopHdr := loopHdr, elseBlock := elseBlk,
                       resultType := resultType, resultSlot := resultSlot,
                       stackHeight := c.vstack.length } :: c.ctrl }

/-- A slot on the stack of the function, `alloca type`. -/
def allocaSlot (type : LrType) : Convert Nat := do
  let slot ← vregNew
  emitInst .alloca type slot [lrOpImmI64 1 (some (← builtin).typeI32)]
  pure slot

/-- A store of a value to a slot; it takes a register of its own. -/
def storeTo (val : LrOperand) (slot : Nat) : Convert Unit := do
  let b ← builtin
  let dummy ← vregNew
  emitInst .store b.typeVoid dummy [val, lrOpVreg slot (some b.typePtr)]

/-- A load from a slot, the value of which is pushed. -/
def loadFrom (type : LrType) (slot : Nat) : Convert Unit := do
  let b ← builtin
  let dest ← vregNew
  emitInst .load type dest [lrOpVreg slot (some b.typePtr)]
  vpush dest (some type)

def branchTo (block : Nat) : Convert Unit := do
  let b ← builtin
  let target ← blockOp block
  emitInst .br b.typeVoid 0 [target]

/-- The slot of the result of a block, if it has one. -/
def resultSlotOf (bt : Option LrType) : Convert Nat := do
  match bt with
  | some type => allocaSlot type
  | none => pure 0

/-- `icmp ne i32 cond, 0`. -/
def testNonzero (cond : Nat) : Convert Nat := do
  let b ← builtin
  let condI1 ← vregNew
  emitIcmp b.typeI1 condI1
    [lrOpVreg cond (some b.typeI32), lrOpImmI64 0 (some b.typeI32)] .ne
  pure condI1

def condbr (condI1 thenBlk elseBlk : Nat) : Convert Unit := do
  let b ← builtin
  let thenOp ← blockOp thenBlk
  let elseOp ← blockOp elseBlk
  emitInst .condbr b.typeVoid 0 [lrOpVreg condI1 (some b.typeI1), thenOp, elseOp]

/-- Where it is wanted, a value above the start of a block is stored as its result. -/
def storeResult (wanted : Bool) (ce : CtrlEntry) : Convert Unit := do
  if wanted = true ∧ (← get).vstack.length > ce.stackHeight then
    let (val, t) ← vpop
    storeTo (lrOpVreg val t) ce.resultSlot
  else pure ()

section Bodies
variable (data : Nat → UInt8) (wmod : WasmModule) (code : Code)

/-- `body_u32`, `body_i32` and `body_i64`: a reader that rejects stores no value. -/
def bodyLeb {w : Nat} (read : (Nat → UInt8) → Nat → Leb w) : Convert (BitVec w) := do
  let pos := (← get).pos
  let r := read (fun i => data (code.body + pos + i)) (code.bodyLen - pos)
  if r.consumed = 0 then undefined
  else
    modify fun c => { c with pos := pos + r.consumed }
    pure r.value

def bodyU32 : Convert (BitVec 32) := bodyLeb data code lrWasmReadLebU32
def bodyI32 : Convert (BitVec 32) := bodyLeb data code lrWasmReadLebI32
def bodyI64 : Convert (BitVec 64) := bodyLeb data code lrWasmReadLebI64

def bodyByte : Convert UInt8 := do
  let pos := (← get).pos
  modify fun c => { c with pos := pos + 1 }
  pure (data (code.body + pos))

/-- `none` is a block without a result. -/
def parseBlocktype : Convert (Option LrType) := do
  if (← get).pos ≥ code.bodyLen then pure none
  else
    let bt ← bodyByte data code
    if bt = 0x40 then pure none else pure (some (wasmToLrType (← builtin) bt))

def convertBlock : Convert Unit := do
  let bt ← parseBlocktype data code
  let cont ← blockNew "block_cont".toUTF8.toList
  let rslot ← resultSlotOf bt
  ctrlPush .block cont none none bt rslot

def convertLoop : Convert Unit := do
  let bt ← parseBlocktype data code
  let hdr ← blockNew "loop_hdr".toUTF8.toList
  let cont ← blockNew "loop_cont".toUTF8.toList
  branchTo hdr
  setCurBlock (some hdr)
  ctrlPush .loop cont (some hdr) none bt 0

def convertIf : Convert Unit := do
  let bt ← parseBlocktype data code
  let (cond, _) ← vpop
  let thenBlk ← blockNew "if_then".toUTF8.toList
  let elseBlk ← blockNew "if_else".toUTF8.toList
  let merge ← blockNew "if_merge".toUTF8.toList
  let rslot ← resultSlotOf bt
  let condI1 ← testNonzero cond
  condbr condI1 thenBlk elseBlk
  setCurBlock (some thenBlk)
  ctrlPush .cond merge none (some elseBlk) bt rslot

def convertElse : Convert Unit := do
  match (← get).ctrl with
  | [] => ctxErr "else without if"
  | ce :: rest =>
    storeResult ce.resultType.isSome ce
    branchTo ce.contBlock
    setCurBlock ce.elseBlock
    modify fun c => { c with ctrl := { ce with elseBlock := none } :: rest }

/-- The `else` of an `if` that has none goes to the continuation. -/
def closeIf (ce : CtrlEntry) : Convert Unit := do
  match ce.kind, ce.elseBlock with
  | .cond, some elseBlk =>
    let saved := (← get).curBlock
    setCurBlock (some elseBlk)
    branchTo ce.contBlock
    setCurBlock saved
  | _, _ => pure ()

def loadResult (ce : CtrlEntry) : Convert Unit :=
  match ce.resultType with
  | some type => if ce.resultSlot ≠ 0 then loadFrom type ce.resultSlot else pure ()
  | none => pure ()

/-- The end of a block inside the function. -/
def endBlock (ce : CtrlEntry) : Convert Unit := do
  storeResult (ce.resultType.isSome && ce.resultSlot != 0) ce
  closeIf ce
  branchTo ce.contBlock
  setCurBlock (some ce.contBlock)
  loadResult ce

def convertEnd : Convert Unit := do
  match (← get).ctrl with
  | [] => pure ()
  | [ce] =>
    modify fun c => { c with ctrl := [] }
    branchTo ce.contBlock
    setCurBlock (some ce.contBlock)
  | ce :: rest =>
    modify fun c => { c with ctrl := rest }
    endBlock ce

/-- Where a branch to a block goes. -/
def CtrlEntry.target (ce : CtrlEntry) : Option Nat :=
  if ce.kind = .loop then ce.loopHdr else some ce.contBlock

def branchTarget (ce : CtrlEntry) : Convert Nat :=
  match ce.target with
  | some block => pure block
  | none => undefined

def convertBr : Convert Unit := do
  let depth ← bodyU32 data code
  match (← get).ctrl[depth.toNat]? with
  | none => ctxErr "br depth out of range"
  | some ce =>
    branchTo (← branchTarget ce)
    let dead ← blockNew "dead".toUTF8.toList
    setCurBlock (some dead)

def convertBrIf : Convert Unit := do
  let depth ← bodyU32 data code
  match (← get).ctrl[depth.toNat]? with
  | none => ctxErr "br_if depth out of range"
  | some ce =>
    let (cond, _) ← vpop
    let target ← branchTarget ce
    let fallthrough ← blockNew "br_if_ft".toUTF8.toList
    let condI1 ← testNonzero cond
    condbr condI1 target fallthrough
    setCurBlock (some fallthrough)

def isVoid : LrType → Bool
  | .scalar _ .void => true
  | _ => false

def emitReturn : Convert Unit := do
  let b ← builtin
  if isVoid (← curFunc).retType then emitInst .retVoid b.typeVoid 0 []
  else
    let (val, t) ← vpop
    emitInst .ret b.typeVoid 0 [lrOpVreg val t]

def convertReturn : Convert Unit := do
  emitReturn
  let dead ← blockNew "dead".toUTF8.toList
  setCurBlock (some dead)

/-- The type index of the callee as the call finds it; the outer `none` is a read behind the
imports, the inner one an index behind the functions. -/
def calleeTypeIdx (calleeIdx : Nat) : Option (Option Nat) :=
  if calleeIdx < wmod.numFuncImports then
    match wmod.imports[calleeIdx]? with
    | some imp => some (some imp.typeIdx.toNat)
    | none => none
  else some ((wmod.funcTypeIndices[calleeIdx - wmod.numFuncImports]?).map BitVec.toNat)

/-- The return type of an IR function or call. -/
def FuncType.retType (b : BuiltinTypes) (ft : FuncType) : LrType :=
  match ft.results with
  | vt :: _ => wasmToLrType b vt
  | [] => b.typeVoid

/-- The last `n` values, the first argument first. -/
def vpopArgs : Nat → Convert (List LrOperand)
  | 0 => pure []
  | n + 1 => do
    let (vreg, t) ← vpop
    let args ← vpopArgs n
    pure (args ++ [lrOpVreg vreg t])

/-- The instruction is emitted, and kept with the function index it comes from. -/
def emitCall (calleeIdx : Nat) (inst : LrInst) : Convert Unit := do
  appendInst inst
  if (← get).failed then pure ()
  else modify fun c => { c with calls := c.calls ++ [(calleeIdx, inst)] }

def callDest (ft : FuncType) : Convert Nat := if ft.results.isEmpty then pure 0 else vregNew

/-- The call of a function of a type; the callee is the global with the number of the
function. -/
def convertCallOf (calleeIdx : Nat) (ft : FuncType) : Convert Unit := do
  let b ← builtin
  let args ← vpopArgs ft.params.length
  let retType := ft.retType b
  let dest ← callDest ft
  emitCall calleeIdx
    (lrInstCreate .call (some retType) dest (lrOpGlobal calleeIdx (some b.typePtr) :: args))
  if ft.results.isEmpty then pure () else vpush dest (some retType)

def convertCall : Convert Unit := do
  let calleeIdx := (← bodyU32 data code).toNat
  match calleeTypeIdx wmod calleeIdx with
  | none => undefined
  | some none => ctxErr "call: bad func idx"
  | some (some typeIdx) =>
    match wmod.types[typeIdx]? with
    | none => ctxErr "call: bad type idx"
    | some ft => convertCallOf calleeIdx ft

def convertSelect : Convert Unit := do
  let (cond, _) ← vpop
  let (val2, _) ← vpop
  let (val1, t) ← vpop
  let condI1 ← testNonzero cond
  let b ← builtin
  let dest ← vregNew
  emitTyped .select t dest
    [lrOpVreg condI1 (some b.typeI1), lrOpVreg val1 t, lrOpVreg val2 t]
  vpush dest t

/-- The loop of `local.get` over the groups of locals; `accum` wraps. -/
def localType (b : BuiltinTypes) (li : Nat) : List LocalGroup → Nat → LrType
  | [], _ => b.typeI32
  | g :: gs, accum =>
    let accum := (accum + g.count.toNat) % 2 ^ 32
    if li < accum then wasmToLrType b g.type else localType b li gs accum

/-- The slot of a local. -/
def localSlot (idx : Nat) : Convert Nat := do
  match (← get).localSlots[idx]? with
  | some slot => pure slot
  | none => undefined

def convertLocalGet : Convert Unit := do
  let b ← builtin
  let idx := (← bodyU32 data code).toNat
  if idx ≥ (← get).numLocals then ctxErr "local.get: bad idx"
  else
    let params := (← curFunc).paramTypes
    let lt := params[idx]?.getD (localType b (idx - params.length) code.localGroups 0)
    let slot ← localSlot idx
    loadFrom lt slot

/-- `local.set` and `local.tee`, of which the second leaves the value on the stack. -/
def convertLocalSet (msg : String) (tee : Bool) : Convert Unit := do
  let idx := (← bodyU32 data code).toNat
  if idx ≥ (← get).numLocals then ctxErr msg
  else
    let (val, t) ← vpop
    let slot ← localSlot idx
    storeTo (lrOpVreg val t) slot
    if tee then vpush val t else pure ()

/-- A constant is added to zero. -/
def emitConst (type : LrType) (val : BitVec 64) : Convert Unit := do
  let dest ← vregNew
  emitInst .add type dest [lrOpImmI64 0 (some type), lrOpImmI64 val (some type)]
  vpush dest (some type)

def emitEqz (type : LrType) : Convert Unit := do
  let b ← builtin
  let (val, _) ← vpop
  let dest ← vregNew
  emitIcmp b.typeI1 dest [lrOpVreg val (some type), lrOpImmI64 0 (some type)] .eq
  vpush dest (some b.typeI32)

def emitCast (op : Opcode) (source target : LrType) : Convert Unit := do
  let (val, _) ← vpop
  let dest ← vregNew
  emitInst op target dest [lrOpVreg val (some source)]
  vpush dest (some target)

def addOffset (addr : Nat) (offset : BitVec 32) : Convert Nat := do
  let b ← builtin
  if offset = 0 then pure addr
  else
    let effAddr ← vregNew
    emitInst .add b.typeI32 effAddr
      [lrOpVreg addr (some b.typeI32), lrOpImmI64 (offset.setWidth 64) (some b.typeI32)]
    pure effAddr

/-- The address of an access: the offset is added, and the sum made a pointer. -/
def effectiveAddress (addr : Nat) (offset : BitVec 32) : Convert Nat := do
  let b ← builtin
  let effAddr ← addOffset addr offset
  let ptr ← vregNew
  emitInst .inttoptr b.typePtr ptr [lrOpVreg effAddr (some b.typeI32)]
  pure ptr

def convertLoad (type : LrType) : Convert Unit := do
  let _ ← bodyU32 data code
  let offset ← bodyU32 data code
  let (addr, _) ← vpop
  let ptr ← effectiveAddress addr offset
  loadFrom type ptr

def convertStore : Convert Unit := do
  let _ ← bodyU32 data code
  let offset ← bodyU32 data code
  let (val, t) ← vpop
  let (addr, _) ← vpop
  let ptr ← effectiveAddress addr offset
  storeTo (lrOpVreg val t) ptr

/-- The opcodes of `emit_binop`, those of `i32` and of `i64`. -/
def binopOf (op : UInt8) : Option Opcode :=
  if op = 0x6A ∨ op = 0x7C then some .add
  else if op = 0x6B ∨ op = 0x7D then some .sub
  else if op = 0x6C ∨ op = 0x7E then some .mul
  else if op = 0x6D ∨ op = 0x7F then some .sdiv
  else if op = 0x6E ∨ op = 0x80 then some .udiv
  else if op = 0x6F ∨ op = 0x81 then some .srem
  else if op = 0x70 ∨ op = 0x82 then some .urem
  else if op = 0x71 ∨ op = 0x83 then some .and
  else if op = 0x72 ∨ op = 0x84 then some .or
  else if op = 0x73 ∨ op = 0x85 then some .xor
  else if op = 0x74 ∨ op = 0x86 then some .shl
  else if op = 0x75 ∨ op = 0x87 then some .ashr
  else if op = 0x76 ∨ op = 0x88 then some .lshr
  else none

def cmpOf (op : UInt8) : Option IcmpPred :=
  if op = 0x46 ∨ op = 0x51 then some .eq
  else if op = 0x47 ∨ op = 0x52 then some .ne
  else if op = 0x48 ∨ op = 0x53 then some .slt
  else if op = 0x49 ∨ op = 0x54 then some .ult
  else if op = 0x4A ∨ op = 0x55 then some .sgt
  else if op = 0x4B ∨ op = 0x56 then some .ugt
  else if op = 0x4C ∨ op = 0x57 then some .sle
  else if op = 0x4D ∨ op = 0x58 then some .ule
  else if op = 0x4E ∨ op = 0x59 then some .sge
  else if op = 0x4F ∨ op = 0x5A then some .uge
  else none

def isLoad (op : UInt8) : Bool := [0x28, 0x29, 0x2C, 0x2D, 0x2E, 0x2F].contains op
def isStore (op : UInt8) : Bool := [0x36, 0x37, 0x3A, 0x3B].contains op

/-- `%02X`. -/
def hexByte (op : UInt8) : String :=
  let digit := fun n => "0123456789ABCDEF".toList.getD n '0'
  String.ofList [digit (op.toNat / 16), digit (op.toNat % 16)]

/-- The instructions on values. -/
def convertValue (op : UInt8) : Convert Unit := do
  let b ← builtin
  if op = 0x41 then emitConst b.typeI32 ((← bodyI32 data code).signExtend 64)
  else if op = 0x42 then emitConst b.typeI64 (← bodyI64 data code)
  else if op = 0x45 then emitEqz b.typeI32
  else if op = 0x50 then emitEqz b.typeI64
  else if op = 0xA7 then emitCast .trunc b.typeI64 b.typeI32
  else if op = 0xAC then emitCast .sext b.typeI32 b.typeI64
  else if op = 0xAD then emitCast .zext b.typeI32 b.typeI64
  else if isLoad op then convertLoad data code (if op = 0x29 then b.typeI64 else b.typeI32)
  else if isStore op then convertStore data code
  else ctxErr ("unsupported WASM opcode 0x" ++ hexByte op)

/-- The switch of `convert_func_body`. -/
def convertOp (op : UInt8) : Convert Unit := do
  let b ← builtin
  match binopOf op, cmpOf op with
  | some o, _ => emitBinop o
  | none, some pred => emitCmp pred
  | none, none =>
    if op = 0x00 then emitInst .unreachable b.typeVoid 0 []
    else if op = 0x01 then pure ()
    else if op = 0x02 then convertBlock data code
    else if op = 0x03 then convertLoop data code
    else if op = 0x04 then convertIf data code
    else if op = 0x05 then convertElse
    else if op = 0x0B then convertEnd
    else if op = 0x0C then convertBr data code
    else if op = 0x0D then convertBrIf data code
    else if op = 0x0F then convertReturn
    else if op = 0x10 then convertCall data wmod code
    else if op = 0x1A then do
      let _ ← vpop
    else if op = 0x1B then convertSelect
    else if op = 0x20 then convertLocalGet data code
    else if op = 0x21 then convertLocalSet data code "local.set: bad idx" false
    else if op = 0x22 then convertLocalSet data code "local.tee: bad idx" true
    else convertValue data code op

/-- `while (pos < body_len && !ctx->failed)`. -/
def bodyLoop : Nat → Convert Unit
  | 0 => undefined
  | fuel + 1 => do
    let c ← get
    if c.pos < code.bodyLen ∧ c.failed = false then
      convertOp data wmod code (← bodyByte data code)
      bodyLoop fuel
    else pure ()

/-- `local_slots[local_idx++] = slot`. -/
def addLocalSlot (slot : Nat) : Convert Unit := do
  let c ← get
  if c.localSlots.length ≥ c.numLocals then undefined
  else modify fun c => { c with localSlots := c.localSlots ++ [slot] }

/-- The slots of the parameters, which the entry stores there. -/
def paramSlots : List LrType → List Nat → Convert Unit
  | [], _ => pure ()
  | _ :: _, [] => undefined
  | type :: types, vreg :: vregs => do
    let slot ← allocaSlot type
    addLocalSlot slot
    storeTo (lrOpVreg vreg (some type)) slot
    paramSlots types vregs

/-- `count` slots of locals of one type, which start out as zero. -/
def groupSlots (type : LrType) : Nat → Convert Unit
  | 0 => pure ()
  | count + 1 => do
    let slot ← allocaSlot type
    addLocalSlot slot
    storeTo (lrOpImmI64 0 (some type)) slot
    groupSlots type count

def declaredSlots : List LocalGroup → Convert Unit
  | [] => pure ()
  | g :: gs => do
    groupSlots (wasmToLrType (← builtin) g.type) g.count.toNat
    declaredSlots gs

/-- The return behind the last instruction. -/
def finalReturn : Convert Unit := do
  let b ← builtin
  let retType := (← curFunc).retType
  if isVoid retType ∨ (← get).vstack.length > 0 then emitReturn
  else emitInst .ret b.typeVoid 0 [lrOpImmI64 0 (some retType)]

def convertFuncBody : Convert Unit := do
  let f ← curFunc
  let numDeclared := (code.localGroups.map fun g => g.count.toNat).sum
  modify fun c => { c with numLocals := (f.paramTypes.length + numDeclared) % 2 ^ 32 }
  paramSlots f.paramTypes (f.paramVregs.getD [])
  declaredSlots code.localGroups
  let funcExit ← blockNew "func_exit".toUTF8.toList
  ctrlPush .block funcExit none none (some f.retType) 0
  bodyLoop data wmod code (code.bodyLen + 1)
  -- a failed conversion returns from the loop or behind it, and its module is dropped
  finalReturn

end Bodies

/-- A string of the decoder as C functions read it. -/
def cString (name : List UInt8) : CStr := name.takeWhile (· ≠ 0)

/-- `lr_func_declare` of the imports of kind func, in order. -/
def declareImports (types : List FuncType) : List Import → LrModule →
    Option (Except String LrModule)
  | [], m => some (.ok m)
  | imp :: imps, m =>
    if imp.kind ≠ 0 then declareImports types imps m
    else
      match types[imp.typeIdx.toNat]?, imp.name with
      | none, _ => some (.error "import type index out of range")
      | some _, none => none
      | some ft, some name => do
        let params := ft.params.map (wasmToLrType m.builtin)
        let m ← lrFuncDeclare m (cString name) (ft.retType m.builtin) params false
        declareImports types imps m

/-- The name of the defined function `i`: that of its first export, or one of its own. -/
def definedName (wmod : WasmModule) (i : Nat) : CStr :=
  match (wmod.exports.find? fun e =>
      e.kind == 0 && e.index.toNat == wmod.numFuncImports + i).bind Export.name with
  | some name => cString name
  | none => "__wasm_func_".toUTF8.toList ++ decimalName i

/-- `lr_func_create` of the defined functions from `i` on, each with its entry block. -/
def createFuncs (wmod : WasmModule) : List (BitVec 32) → Nat → LrModule →
    Option (Except String LrModule)
  | [], _, m => some (.ok m)
  | typeIdx :: rest, i, m =>
    match wmod.types[typeIdx.toNat]? with
    | none => some (.error "func type index out of range")
    | some ft => do
      let params := ft.params.map (wasmToLrType m.builtin)
      let (m, _) ← lrFuncCreate m (definedName wmod i) (ft.retType m.builtin) params false
      createFuncs wmod rest (i + 1) (lrBlockCreate m (m.funcs.length - 1) "entry".toUTF8.toList)

/-- The module and the calls that have been converted. -/
structure Built where
  mod : LrModule
  calls : List (Nat × LrInst) := []
  deriving DecidableEq

/-- The conversion of the body `code` to the function `f` at a place of the module. -/
def convertAt (data : Nat → UInt8) (wmod : WasmModule) (code : Code) (func : Nat) (f : LrFunc)
    (b : Built) : Option (Except String Built) := do
  let (_, c) ← convertFuncBody data wmod code
    { mod := b.mod, func := func, curBlock := if f.blocks.isEmpty then none else some 0,
      calls := b.calls }
  some (if c.failed then .error (c.err.getD "") else .ok { mod := c.mod, calls := c.calls })

/-- The bodies are converted in order, until there is no function left. -/
def convertBodies (data : Nat → UInt8) (wmod : WasmModule) :
    List Code → Nat → Built → Option (Except String Built)
  | [], _, b => some (.ok b)
  | code :: codes, func, b =>
    match b.mod.funcs[func]? with
    | none => some (.ok b)
    | some f => do
      match ← convertAt data wmod code func f b with
      | .error msg => some (.error msg)
      | .ok b => convertBodies data wmod codes (func + 1) b

/-- `lr_wasm_build_module` in an arena whose next address is `addr`. -/
def lrWasmBuildModule (data : Nat → UInt8) (wmod : WasmModule) (addr : Nat) :
    Option (Except String Built) := do
  let m : LrModule := { builtin := lrModuleCreateTypes addr, nextAddr := addr + 11 }
  match ← declareImports wmod.types wmod.imports m with
  | .error msg => some (.error msg)
  | .ok m =>
    match ← createFuncs wmod wmod.funcTypeIndices 0 m with
    | .error msg => some (.error msg)
    | .ok m =>
      convertBodies data wmod (wmod.codes.take wmod.funcTypeIndices.length) wmod.numFuncImports
        { mod := m }

end Liric.Source.Wasm
