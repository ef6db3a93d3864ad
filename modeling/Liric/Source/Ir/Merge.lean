import Liric.Source.Ir.Module

/-!
# Merging a module into another

Source: src/ir.c:3084-3379 (`merge_find_func` to `lr_module_merge`).

Copies of types are allocated in the arena of the destination, whose next address
is threaded through the copying functions. `none` is a run without result: the
interning does not end, or `param_vregs` is read where it is null or too short.
-/
namespace Liric.Source.Ir

/-- Computations that allocate types. -/
abbrev Arena := StateM Nat

def allocate (mk : Nat → LrType) : Arena LrType := fun addr => (mk addr, addr + 1)

def builtinScalar (b : BuiltinTypes) : ScalarKind → LrType
  | .void => b.typeVoid
  | .i1 => b.typeI1
  | .i8 => b.typeI8
  | .i16 => b.typeI16
  | .i32 => b.typeI32
  | .i64 => b.typeI64
  | .float => b.typeFloat
  | .double => b.typeDouble
  | .x86Fp80 => b.typeX86Fp80
  | .fp128 => b.typeFp128

mutual
def mergeRemapType (b : BuiltinTypes) : LrType → Arena LrType
  | .scalar _ kind => pure (builtinScalar b kind)
  | .ptr _ none => pure b.typePtr
  | .ptr _ (some elem) => do
    let elem ← mergeRemapType b elem
    allocate (fun addr => .ptr addr (some elem))
  | .array _ elem count => do
    let elem ← mergeRemapType b elem
    allocate (fun addr => .array addr elem count)
  | .vector _ elem count => do
    let elem ← mergeRemapType b elem
    allocate (fun addr => .vector addr elem count)
  | .struct _ fields packed name => do
    let fields ← mergeRemapTypes b fields
    allocate (fun addr => .struct addr fields packed name)
  | .func _ ret params vararg => do
    let ret ← mergeRemapType b ret
    let params ← mergeRemapTypes b params
    allocate (fun addr => .func addr ret params vararg)

def mergeRemapTypes (b : BuiltinTypes) : List LrType → Arena (List LrType)
  | [] => pure []
  | t :: ts => do
    let t ← mergeRemapType b t
    let ts ← mergeRemapTypes b ts
    pure (t :: ts)
end

def mergeRemapTypeOption (b : BuiltinTypes) : Option LrType → Arena (Option LrType)
  | none => pure none
  | some t => do
    let t ← mergeRemapType b t
    pure (some t)

/-- `symbol_remap` is null, here empty, for a source without symbols. -/
def remapValue (symbolRemap : List Nat) : OperandValue → OperandValue
  | .global id => .global (if symbolRemap.isEmpty then id else symbolRemap.getD id 0)
  | v => v

def mergeRemapOperand (b : BuiltinTypes) (symbolRemap : List Nat) (op : LrOperand) :
    Arena LrOperand := do
  let type ← mergeRemapTypeOption b op.type
  pure { op with type := type, value := remapValue symbolRemap op.value }

/-- Copies in order, the allocations of one before those of the next. -/
def copyAll {α β : Type} (copy : α → Arena β) : List α → Arena (List β)
  | [] => pure []
  | a :: as => do
    let b ← copy a
    let bs ← copyAll copy as
    pure (b :: bs)

/-- The predicate is copied as the low half of the union, an array of indices as a
new array. -/
def mergePayload : InstPayload → InstPayload
  | .icmpPred pred => .icmpPred pred
  | .fcmpPred pred => .fcmpPred pred
  | .indices xs => .indices xs

def mergeInst (b : BuiltinTypes) (symbolRemap : List Nat) (si : LrInst) : Arena LrInst := do
  let ops ← copyAll (mergeRemapOperand b symbolRemap) si.operands
  let itype ← mergeRemapTypeOption b si.type
  pure { lrInstCreate si.op itype si.dest ops with
    payload := mergePayload si.payload
    align := si.align
    callExternalAbi := si.callExternalAbi
    callVararg := si.callVararg
    callFixedArgs := si.callFixedArgs }

def mergeBlock (b : BuiltinTypes) (symbolRemap : List Nat) (sb : LrBlock) : Arena LrBlock := do
  let insts ← copyAll (mergeInst b symbolRemap) sb.insts
  pure { name := sb.name, id := sb.id, insts := insts }

/-- The body is appended to a function without blocks; the blocks are counted, and
their ids are kept. -/
def mergeDeepCopyFuncBody (b : BuiltinTypes) (symbolRemap : List Nat) (df sf : LrFunc) :
    Arena LrFunc := do
  let blocks ← copyAll (mergeBlock b symbolRemap) sf.blocks
  pure { df with
    nextVreg := sf.nextVreg
    blocks := df.blocks ++ blocks
    numBlocks := df.numBlocks + blocks.length
    isDecl := if blocks.isEmpty then df.isDecl else false }

/-- A declaration takes over the signature and the body of a definition. -/
def mergeReplaceFunc (b : BuiltinTypes) (symbolRemap : List Nat) (df sf : LrFunc) :
    Arena LrFunc := do
  let ret ← mergeRemapType b sf.retType
  let params ← mergeRemapTypes b sf.paramTypes
  let type ← allocate (fun addr => .func addr ret params sf.vararg)
  mergeDeepCopyFuncBody b symbolRemap { df with
    retType := ret
    vararg := sf.vararg
    usesLlvmAbi := sf.usesLlvmAbi
    paramTypes := params
    paramVregs := if sf.paramTypes.isEmpty then df.paramVregs
      else sf.paramVregs.map (·.take sf.paramTypes.length)
    type := type
    blocks := []
    blockArray := false
    numBlocks := 0 } sf

/-- Run a copying function in the arena of a module. -/
def inArena {α : Type} (m : LrModule) (x : Arena α) : LrModule × α :=
  ({ m with nextAddr := (x m.nextAddr).2 }, (x m.nextAddr).1)

/-- Relocations are pushed in front of the list one by one. -/
def mergeCopyGlobalData (dg sg : LrGlobal) : LrGlobal :=
  let dg := match sg.initData with
    | some bytes => if sg.initSize > 0 then
        { dg with initData := some bytes, initSize := sg.initSize } else dg
    | none => dg
  { dg with relocs := sg.relocs.reverse ++ dg.relocs }

def mergeGlobalInitAllZero (g : LrGlobal) : Bool :=
  match g.initData with
  | none => true
  | some bytes => g.initSize == 0 || (bytes.take g.initSize).all (· == 0)

/-- A definition of the source takes the place of a global of the destination. -/
def takeOverGlobal (type : Option LrType) (sg dg : LrGlobal) : LrGlobal :=
  mergeCopyGlobalData { dg with
    type := type
    isConst := sg.isConst
    isExternal := false
    isLocal := sg.isLocal
    isWeak := sg.isWeak
    initData := none
    initSize := 0
    relocs := [] } sg

/-- Whether the initialiser of the source is used: the destination is only
declared, or has no content where the source has some. -/
def sourceGlobalWins (dg sg : LrGlobal) : Bool :=
  if dg.isExternal && !sg.isExternal then true
  else if !dg.isExternal && !sg.isExternal then
    let dgHasEffectiveInit := dg.initSize > 0 && !mergeGlobalInitAllZero dg
    let sgHasEffectiveInit := sg.initSize > 0 && !mergeGlobalInitAllZero sg
    let dgIsWeak := !dgHasEffectiveInit && dg.relocs.isEmpty
    let sgIsStronger := sgHasEffectiveInit || !sg.relocs.isEmpty
    dgIsWeak && sgIsStronger
  else false

def mergeGlobal (dest : LrModule) (sg : LrGlobal) : LrModule :=
  match dest.globals.findIdx? (fun g => g.name == sg.name) with
  | some i =>
    match dest.globals[i]? with
    | none => dest
    | some dg =>
      if sourceGlobalWins dg sg then
        let (dest, type) := inArena dest (mergeRemapTypeOption dest.builtin sg.type)
        { dest with globals := dest.globals.set i (takeOverGlobal type sg dg) }
      else dest
  | none =>
    let (dest, type) := inArena dest (mergeRemapTypeOption dest.builtin sg.type)
    let dest := lrGlobalCreate dest sg.name type sg.isConst
    { dest with globals := dest.globals.modify (dest.globals.length - 1) (fun ng =>
        mergeCopyGlobalData { ng with
          isExternal := sg.isExternal, isLocal := sg.isLocal, isWeak := sg.isWeak } sg) }

def mergeNewDefinition (symbolRemap : List Nat) (sf : LrFunc) (dest : LrModule) (ret : LrType)
    (params : List LrType) : Option LrModule := do
  let (dest, nf) ← lrFuncCreate dest sf.name ret params sf.vararg
  let (dest, nf) := inArena dest (mergeDeepCopyFuncBody dest.builtin symbolRemap
    { nf with usesLlvmAbi := sf.usesLlvmAbi } sf)
  return updateFunc dest (dest.funcs.length - 1) (fun _ => nf)

def mergeNewDeclaration (sf : LrFunc) (dest : LrModule) (ret : LrType) (params : List LrType) :
    Option LrModule := do
  let dest ← lrFuncDeclare dest sf.name ret params sf.vararg
  return updateFunc dest (dest.funcs.length - 1)
    (fun f => { f with usesLlvmAbi := sf.usesLlvmAbi })

/-- A function of the source whose name the destination does not have. -/
def mergeNewFunc (symbolRemap : List Nat) (dest : LrModule) (sf : LrFunc) : Option LrModule :=
  let (dest, params) := inArena dest (mergeRemapTypes dest.builtin sf.paramTypes)
  let (dest, ret) := inArena dest (mergeRemapType dest.builtin sf.retType)
  if sf.isDefinition then mergeNewDefinition symbolRemap sf dest ret params
  else mergeNewDeclaration sf dest ret params

def mergeFunc (symbolRemap : List Nat) (dest : LrModule) (sf : LrFunc) : Option LrModule :=
  match funcByName dest sf.name with
  | none => mergeNewFunc symbolRemap dest sf
  | some i =>
    match dest.funcs[i]? with
    | none => none
    | some df =>
      if !df.isDefinition && sf.isDefinition then
        if (sf.paramVregs.getD []).length < sf.paramTypes.length then none
        else
          let (dest, f) := inArena dest (mergeReplaceFunc dest.builtin symbolRemap df sf)
          some (updateFunc dest i (fun _ => f))
      else some dest

def lrModuleMerge (dest src : LrModule) : Option LrModule := do
  let (symbols, symbolRemap) ← internAll dest.symbols src.symbols.symbolNames
  let dest := { dest with symbols := symbols }
  let dest := src.globals.foldl mergeGlobal dest
  src.funcs.foldlM (mergeFunc symbolRemap) dest

end Liric.Source.Ir
