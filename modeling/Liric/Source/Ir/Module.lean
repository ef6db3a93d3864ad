import Liric.Source.Ir.Operands
import Liric.Source.Ir.Symbols

/-!
# Functions, blocks and modules

Source: include/liric/liric_ir_shared.h:10-65 (opcodes and predicates), src/ir.h:36-41 and 65-195
(records), src/ir.c:135-256 (`lr_func_create` to `lr_block_append`), 795-921 (`lr_func_finalize`,
`lr_global_create`).

A linked list of the source is a list here, and a function, a block or a global
of a module is known by its place. `num_params` is the length of the parameter
types. Of the arrays `lr_func_finalize` builds only the presence of `block_array`
is kept: the rest is rebuilt from the lists. Allocations succeed.
-/
namespace Liric.Source.Ir

inductive Opcode where
  | ret | retVoid | br | condbr | unreachable
  | add | sub | mul | sdiv | srem | udiv | urem | and | or | xor | shl | lshr | ashr
  | fadd | fsub | fmul | fdiv | frem | fneg | icmp | fcmp
  | alloca | load | store | gep | call | phi | select
  | sext | zext | trunc | bitcast | ptrtoint | inttoptr | sitofp | uitofp | fptosi | fptoui
  | fpext | fptrunc | extractvalue | insertvalue
  deriving DecidableEq

inductive IcmpPred where
  | eq | ne | sgt | sge | slt | sle | ugt | uge | ult | ule
  deriving DecidableEq

inductive FcmpPred where
  | false | oeq | ogt | oge | olt | ole | one | ord | ueq | ugt | uge | ult | ule | une | uno
  | true
  deriving DecidableEq

/-- The union of `lr_inst_t`; a null pointer is `indices []`. -/
inductive InstPayload where
  | icmpPred (pred : IcmpPred)
  | fcmpPred (pred : FcmpPred)
  | indices (indices : List (BitVec 32))
  deriving DecidableEq

structure LrInst where
  op : Opcode
  type : Option LrType
  dest : Nat
  operands : List LrOperand
  payload : InstPayload := .indices []
  align : Nat := 0
  callExternalAbi : Bool := false
  callVararg : Bool := false
  callFixedArgs : Nat := 0
  deriving DecidableEq

def lrInstCreate (op : Opcode) (type : Option LrType) (dest : Nat) (ops : List LrOperand) :
    LrInst :=
  { op := op, type := type, dest := dest, operands := ops }

structure LrBlock where
  name : CStr
  id : Nat
  insts : List LrInst := []
  deriving DecidableEq

structure LrFunc where
  name : CStr
  symbolId : Nat
  type : LrType
  retType : LrType
  paramTypes : List LrType
  /-- `none` is the null pointer. -/
  paramVregs : Option (List Nat) := none
  vararg : Bool
  isDecl : Bool := false
  usesLlvmAbi : Bool := false
  blocks : List LrBlock := []
  /-- `block_array` is not null. -/
  blockArray : Bool := false
  numBlocks : Nat := 0
  nextVreg : Nat := 0
  deriving DecidableEq

structure LrReloc where
  offset : Nat
  addend : BitVec 64
  symbolName : CStr
  deriving DecidableEq

structure LrGlobal where
  name : CStr
  type : Option LrType
  /-- `none` is the null pointer. -/
  initData : Option (List UInt8) := none
  initSize : Nat := 0
  relocs : List LrReloc := []
  isConst : Bool
  isExternal : Bool := false
  isLocal : Bool := false
  isWeak : Bool := false
  id : Nat
  deriving DecidableEq

structure LrModule where
  funcs : List LrFunc := []
  globals : List LrGlobal := []
  symbols : SymbolTable := .empty
  builtin : BuiltinTypes
  /-- The address the arena hands out next. -/
  nextAddr : Nat
  localFunctionCollisionScanDirty : Bool := false
  deriving DecidableEq

/-- `!f->is_decl && f->first_block`. -/
def LrFunc.isDefinition (f : LrFunc) : Bool := !f.isDecl && !f.blocks.isEmpty

def lrFuncCreate (m : LrModule) (name : CStr) (ret : LrType) (params : List LrType)
    (vararg : Bool) : Option (LrModule × LrFunc) := do
  let (symbols, symbolId) ← lrModuleInternSymbol m.symbols name
  let f : LrFunc :=
    { name := name
      symbolId := symbolId
      type := .func m.nextAddr ret params vararg
      retType := ret
      paramTypes := params
      paramVregs := if params.isEmpty then none else some (List.range params.length)
      vararg := vararg
      nextVreg := params.length }
  return ({ m with
    funcs := m.funcs ++ [f]
    symbols := symbols
    nextAddr := m.nextAddr + 1
    localFunctionCollisionScanDirty := true }, f)

def funcByName (m : LrModule) (name : CStr) : Option Nat :=
  m.funcs.findIdx? (fun f => f.name == name)

def updateFunc (m : LrModule) (i : Nat) (change : LrFunc → LrFunc) : LrModule :=
  { m with funcs := m.funcs.modify i change }

/-- A second declaration of a name is the function that is already there. -/
def lrFuncDeclare (m : LrModule) (name : CStr) (ret : LrType) (params : List LrType)
    (vararg : Bool) : Option LrModule :=
  match funcByName m name with
  | some _ => some m
  | none => do
    let (m, _) ← lrFuncCreate m name ret params vararg
    return updateFunc m (m.funcs.length - 1) (fun f => { f with isDecl := true })

def blockCreate (name : CStr) (f : LrFunc) : LrFunc :=
  { f with
    blocks := f.blocks ++ [{ name := name, id := f.numBlocks }]
    numBlocks := f.numBlocks + 1
    blockArray := false
    isDecl := if f.blocks.isEmpty then false else f.isDecl }

def lrBlockCreate (m : LrModule) (func : Nat) (name : CStr) : LrModule :=
  updateFunc m func (blockCreate name)

def LrInst.isGlobalCall (inst : LrInst) : Bool :=
  inst.op == .call && (match inst.operands with
    | ⟨.global _, _, _⟩ :: _ => true
    | _ => false)

/-- Only a call of a global marks the module for a new scan. -/
def lrBlockAppend (m : LrModule) (func block : Nat) (inst : LrInst) : LrModule :=
  let m := updateFunc m func (fun f =>
    { f with blocks := f.blocks.modify block (fun b => { b with insts := b.insts ++ [inst] }) })
  if inst.isGlobalCall then { m with localFunctionCollisionScanDirty := true } else m

def lrGlobalCreate (m : LrModule) (name : CStr) (type : Option LrType) (isConst : Bool) :
    LrModule :=
  { m with
    globals := m.globals ++ [{ name := name, type := type, isConst := isConst,
                               id := m.globals.length }]
    localFunctionCollisionScanDirty := true }

/-- The return value of `lr_func_finalize`: the block array is filled unless it is
there already, and that fails for a block id outside of it. -/
def lrFuncFinalizeResult (f : LrFunc) : Int :=
  if f.numBlocks = 0 ∨ f.blockArray = true then 0
  else if f.blocks.all (fun b => b.id < f.numBlocks) then 0
  else -1

end Liric.Source.Ir
