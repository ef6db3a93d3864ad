import Mathlib.Data.Nat.Digits.Defs
import Liric.Source.Ir.Merge
import Liric.Source.Jit.Symbols
import Liric.Source.Ll.Parser

/-!
# Global names in the text parser

Source: src/ll_parser.c:663-701 (`resolve_global` to `register_global_override`), 1213-1223 (a
global operand), 2610-2640 and 2734-2764 (`parse_function_def`, without a session), 2798-2885
(`parse_init_field_value`, its relocations), 2973-3226 (`scoped_local_global_name`,
`parse_global`), src/frontend_common.c:21-38.

A module text is taken as what its definitions say about global names, in the order of
the text: a global with its linkage and the pointers of its initializer, a function with
its linkage and the global operands of its body. What else the body has is a function of
the ids of these operands. `%p` prints an address that is not null as glibc does.
-/
namespace Liric.Source.LlGlobals
open Ir
open Ll (TokKind isAttr)
open Jit (localTag strstr)

/-- A global identifier without its sigil is not empty. -/
abbrev GlobalId := { name : CStr // name ≠ [] }

inductive Linkage where
  | external | internal | privateLinkage | common | linkonceOdr | dsoLocal | unnamedAddr
  | localUnnamedAddr
  deriving DecidableEq

def Linkage.kind : Linkage → TokKind
  | .external => .tokExternal
  | .internal => .tokInternal
  | .privateLinkage => .tokPrivate
  | .common => .tokCommon
  | .linkonceOdr => .tokLinkonceOdr
  | .dsoLocal => .tokDsolocal
  | .unnamedAddr => .tokUnnamedAddr
  | .localUnnamedAddr => .tokLocalUnnamedAddr

/-- A pointer in an initializer, alone or as the base of a constant expression. -/
structure InitRef where
  name : GlobalId
  constant : Bool
  offset : Nat
  addend : BitVec 64
  deriving DecidableEq

structure GlobalText where
  name : GlobalId
  linkage : List Linkage
  isConst : Bool
  type : LrType
  initData : Option (List UInt8)
  sawInitializer : Bool
  refs : List InitRef
  deriving DecidableEq

structure FuncText where
  name : GlobalId
  linkage : List Linkage
  isDecl : Bool
  retType : LrType
  paramTypes : List LrType
  vararg : Bool
  operands : List GlobalId
  body : List Nat → List LrBlock

inductive TopLevel where
  | global (g : GlobalText)
  | func (f : FuncText)

/-- The module of the parser and its address, and the names it knows. -/
structure TextParser where
  module : LrModule
  moduleAddr : Nat
  globalMap : List (CStr × Nat) := []
  deriving DecidableEq

abbrev M := StateT TextParser Option

/-- `lr_frontend_intern_symbol`. -/
def internSymbol (name : CStr) : M Nat := fun s =>
  if name.isEmpty then some (uint32Max, s)
  else (lrModuleInternSymbol s.module.symbols name).map fun (symbols, id) =>
    (id, { s with module := { s.module with symbols := symbols } })

def resolveGlobal (name : CStr) : M Nat := fun s =>
  some ((s.globalMap.lookup name).getD uint32Max, s)

def registerGlobal (name : CStr) (id : Nat) : M Unit := fun s =>
  some ((), { s with globalMap := s.globalMap ++ [(name, id)] })

/-- The first entry of the name is replaced. -/
def overrideEntry (name : CStr) (id : Nat) : List (CStr × Nat) → List (CStr × Nat)
  | [] => [(name, id)]
  | e :: rest => if e.1 = name then (name, id) :: rest else e :: overrideEntry name id rest

def registerGlobalOverride (name : CStr) (id : Nat) : M Unit := fun s =>
  some ((), { s with globalMap := overrideEntry name id s.globalMap })

/-- `resolve_global(p, name) == UINT32_MAX`, and then `register_global`. -/
def registerIfNew (name : CStr) (id : Nat) : M Unit := do
  if (← resolveGlobal name) = uint32Max then registerGlobal name id else pure ()

/-- A global operand: a name that is new is interned as it is. -/
def operandGlobal (name : CStr) : M Nat := do
  let gid ← resolveGlobal name
  if gid = uint32Max then
    let gid ← internSymbol name
    registerGlobal name gid
    pure gid
  else pure gid

def hexDigit (d : Nat) : UInt8 := UInt8.ofNat (if d < 10 then 48 + d else 87 + d)

/-- `%p`. -/
def pointerText (addr : Nat) : CStr := 48 :: 120 :: ((Nat.digits 16 addr).map hexDigit).reverse

def sharedPrefixes : List CStr :=
  ["__lfortran_module_init_", "_copy_", "_deepcopy_", "_allocate_struct_", "_deallocate_struct_",
    "_Type_Info_", "_VTable_", "__module_file_common_block_"].map
    fun s => s.toList.map fun c => UInt8.ofNat c.toNat

def scopedLocalGlobalName (moduleAddr : Nat) (name : CStr) : CStr :=
  if name.isEmpty ∨ (strstr name localTag).isSome then name
  else if sharedPrefixes.any (fun p => p.isPrefixOf name) then name
  else name ++ localTag ++ pointerText moduleAddr

/-- `".lc.constagg."`. -/
def constaggPrefix : CStr :=
  ['.', 'l', 'c', '.', 'c', 'o', 'n', 's', 't', 'a', 'g', 'g', '.'].map
    fun c => UInt8.ofNat c.toNat

def isLinkage : TokKind → Bool
  | .tokExternal | .tokInternal | .tokPrivate | .tokCommon | .tokLinkonceOdr | .tokDsolocal
  | .tokUnnamedAddr | .tokLocalUnnamedAddr => true
  | _ => false

def isLocalLinkage : TokKind → Bool
  | .tokInternal | .tokPrivate => true
  | _ => false

/-- The loop over the linkage: whether it has met one of these. -/
def linkageHas (wanted : TokKind → Bool) (kinds : List TokKind) : Bool :=
  (kinds.takeWhile isLinkage).any wanted

def GlobalText.linkageLocal (g : GlobalText) : Bool :=
  linkageHas isLocalLinkage (g.linkage.map Linkage.kind)

def GlobalText.linkageExternal (g : GlobalText) : Bool :=
  linkageHas (· == .tokExternal) (g.linkage.map Linkage.kind)

/-- `skip_attrs` comes first, and it steps over linkage as well. -/
def FuncText.linkageLocal (f : FuncText) : Bool :=
  linkageHas isLocalLinkage ((f.linkage.map Linkage.kind).dropWhile isAttr)

/-- What a reference has become: an operand with the id of a symbol, or a relocation
with the name of one. -/
inductive Resolved where
  | operand (id : Nat)
  | reloc (symbolName : CStr)
  deriving DecidableEq

/-- A relocation is pushed in front of those of the last global. -/
def pushReloc (r : LrReloc) : M Unit := fun s =>
  some ((), { s with module := { s.module with
    globals := s.module.globals.modify (s.module.globals.length - 1) fun g =>
      { g with relocs := r :: g.relocs } } })

/-- The name of a pointer alone is copied, that of a constant expression is the one of the
symbol of its operand. -/
def initRef (r : InitRef) : M Resolved := do
  let gid ← operandGlobal r.name.val
  if r.constant then
    match lrModuleSymbolName (← get).module.symbols gid with
    | some ref =>
      pushReloc ⟨r.offset, r.addend, ref⟩
      pure (.reloc ref)
    | none => pure (.operand gid)
  else
    pushReloc ⟨r.offset, 0, r.name.val⟩
    pure (.reloc r.name.val)

def initRefs : List InitRef → M (List Resolved)
  | [] => pure []
  | r :: rest => do
    let u ← initRef r
    let us ← initRefs rest
    pure (u :: us)

def updateModule (change : LrModule → LrModule) : M Unit := fun s =>
  some ((), { s with module := change s.module })

def updateLastGlobal (change : LrGlobal → LrGlobal) : M Unit :=
  updateModule fun m => { m with globals := m.globals.modify (m.globals.length - 1) change }

/-- The name under which a global is stored. -/
def globalName (moduleAddr : Nat) (g : GlobalText) : CStr :=
  if g.linkageLocal ∧ ¬ constaggPrefix.isPrefixOf g.name.val then
    scopedLocalGlobalName moduleAddr g.name.val
  else g.name.val

def funcName (moduleAddr : Nat) (f : FuncText) : CStr :=
  if f.linkageLocal then scopedLocalGlobalName moduleAddr f.name.val else f.name.val

/-- The registrations that follow every definition. -/
def registerDefinition (linkageLocal : Bool) (name stored : CStr) (symId : Nat) : M Unit := do
  if linkageLocal then registerGlobalOverride name symId else registerIfNew name symId
  registerIfNew stored symId

def parseGlobal (g : GlobalText) : M (List Resolved) := do
  let stored := globalName (← get).moduleAddr g
  updateModule fun m => lrGlobalCreate m stored (some g.type) g.isConst
  let symId ← internSymbol stored
  registerDefinition g.linkageLocal g.name.val stored symId
  updateLastGlobal fun ng => { ng with
    isLocal := g.linkageLocal
    isExternal := g.linkageExternal && !g.sawInitializer
    initData := g.initData
    initSize := (g.initData.getD []).length }
  initRefs g.refs

/-- `lr_func_create` or `lr_func_declare`, and `uses_llvm_abi`. -/
def createFunction (f : FuncText) (stored : CStr) : M Unit := fun s =>
  let created :=
    if f.isDecl then lrFuncDeclare s.module stored f.retType f.paramTypes f.vararg
    else (lrFuncCreate s.module stored f.retType f.paramTypes f.vararg).map Prod.fst
  created.map fun m =>
    let i := if f.isDecl then (funcByName m stored).getD 0 else m.funcs.length - 1
    ((), { s with module := updateFunc m i fun nf => { nf with usesLlvmAbi := true } })

def operandGlobals : List GlobalId → M (List Resolved)
  | [] => pure []
  | name :: rest => do
    let id ← operandGlobal name.val
    let us ← operandGlobals rest
    pure (.operand id :: us)

def Resolved.ids (us : List Resolved) : List Nat :=
  us.filterMap fun u =>
    match u with
    | .operand id => some id
    | .reloc _ => none

def parseFunctionBody (f : FuncText) : M (List Resolved) := do
  let us ← operandGlobals f.operands
  let blocks := f.body (Resolved.ids us)
  updateModule fun m => updateFunc m (m.funcs.length - 1) fun nf => { nf with
    blocks := blocks
    numBlocks := blocks.length }
  pure us

def parseFunctionDef (f : FuncText) : M (List Resolved) := do
  let stored := funcName (← get).moduleAddr f
  let symId ← internSymbol stored
  createFunction f stored
  registerDefinition f.linkageLocal f.name.val stored symId
  if f.isDecl then pure [] else parseFunctionBody f

def parseTopLevel : TopLevel → M (List Resolved)
  | .global g => parseGlobal g
  | .func f => parseFunctionDef f

/-- The references of each definition in the order of the text. -/
def parseTopLevels : List TopLevel → M (List (List Resolved))
  | [] => pure []
  | t :: rest => do
    let us ← parseTopLevel t
    let uss ← parseTopLevels rest
    pure (us :: uss)

/-- `lr_parse_ll_text`. -/
def lrParseLlText (moduleAddr nextAddr : Nat) (text : List TopLevel) :
    Option (List (List Resolved) × LrModule) :=
  (parseTopLevels text {
    module := { builtin := lrModuleCreateTypes nextAddr, nextAddr := nextAddr + 11 }
    moduleAddr := moduleAddr }).map fun r => (r.1, r.2.module)

end Liric.Source.LlGlobals
