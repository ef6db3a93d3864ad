import Liric.Source.Ll.Parser

/-!
# Types in the arena of the text parser

Source: src/ll_parser.c:712-771 (`find_type_index_n` to `resolve_or_create_forward_type`), 799-915
(`parse_type`), 2762-2773 (`skip_line`), 3007-3047 (`parse_global` up to the type), 3228-3286
(`lr_parse_ll_text_streaming`), src/ir.c:42-133 (the types of a module and the constructors),
1515-1586 (`lr_type_size`, `lr_type_align`).

A type is its place in the arena, and a definition overwrites the placeholder of its name there.
What a function reads, and a global behind its type, is a parameter: a program that looks at the
state, takes tokens, reads types, makes types of functions and keeps types. `malloc` and `realloc`
succeed. `none` is a run with an array that is too small for the text.
-/
namespace Liric.Source.LlTypes
open Ir (CStr SizeT ScalarKind scalarSize scalarAlign alignUp)
open Ll (Token TokKind ParseError tokNameView localArrayCap)

/-- A `lr_type_t *`. -/
abbrev TypeRef := Nat

inductive TypeNode where
  | scalar (kind : ScalarKind)
  | ptr
  | array (elem : TypeRef) (count : BitVec 64)
  | vector (elem : TypeRef) (count : BitVec 64)
  | struct (fields : List TypeRef) (packed : Bool) (name : Option CStr)
  | func (ret : TypeRef) (params : List TypeRef) (vararg : Bool)
  deriving DecidableEq

/-- What a type contains by value. -/
def TypeNode.parts : TypeNode → List TypeRef
  | .array elem _ | .vector elem _ => [elem]
  | .struct fields _ _ => fields
  | .scalar _ | .ptr | .func .. => []

/-- What a type refers to. -/
def TypeNode.children : TypeNode → List TypeRef
  | .func ret params _ => ret :: params
  | node => node.parts

abbrev Arena := List TypeNode

/-- The largest alignment of the fields. -/
def alignLoop (align : TypeRef → Option SizeT) (fields : List TypeRef) : Option SizeT :=
  fields.foldlM (fun maxA field => (align field).map fun fa => if fa > maxA then fa else maxA) 1

/-- The fields one after the other. -/
def sizeLoop (size align : TypeRef → Option SizeT) (packed : Bool) (fields : List TypeRef) :
    Option SizeT :=
  fields.foldlM (fun sz field => do
    let fsz ← size field
    if packed then some (sz + fsz)
    else
      let fa ← align field
      some (alignUp sz fa + fsz)) 0

mutual
/-- `lr_type_size` with a bound on the depth of the recursion. A place outside is a null pointer. -/
def lrTypeSize (arena : Arena) : Nat → TypeRef → Option SizeT
  | 0, _ => none
  | depth + 1, t =>
    match arena[t]? with
    | none => some 0
    | some (.scalar kind) => some (scalarSize kind)
    | some .ptr => some 8
    | some (.array elem count) | some (.vector elem count) =>
      (lrTypeSize arena depth elem).map (· * count)
    | some (.struct fields packed _) => do
      let sz ← sizeLoop (lrTypeSize arena depth) (lrTypeAlign arena depth) packed fields
      -- `lr_type_align(t)` of a struct that is not packed
      if !packed && !fields.isEmpty then
        (alignLoop (lrTypeAlign arena depth) fields).map (alignUp sz)
      else some sz
    | some (.func ..) => some 0

def lrTypeAlign (arena : Arena) : Nat → TypeRef → Option SizeT
  | 0, _ => none
  | depth + 1, t =>
    match arena[t]? with
    | none => some 1
    | some (.scalar kind) => some (scalarAlign kind)
    | some .ptr => some 8
    | some (.array elem _) => lrTypeAlign arena depth elem
    | some (.vector elem count) => do
      let sz := (← lrTypeSize arena depth elem) * count
      let ea ← lrTypeAlign arena depth elem
      let sz := if sz < ea then ea else sz
      some (if sz > 0 then sz else 1)
    | some (.struct fields packed _) =>
      if packed then some 1 else alignLoop (lrTypeAlign arena depth) fields
    | some (.func ..) => some 1
end

structure TypeMapEntry where
  name : CStr
  type : TypeRef
  placeholder : Bool
  deriving DecidableEq

/-- A placeholder that is overwritten: its place, the defined type, and the arena before. -/
structure Overwrite where
  place : TypeRef
  type : TypeRef
  before : Arena
  deriving DecidableEq

/-- The types of a module are the places 0 to 10, in the order of `lr_module_create`. `kept` are the
types of the functions, their instructions and the globals; `overwrites` is a record of the run that
the source does not have. -/
structure TypeParser where
  toks : List Token
  error : Option ParseError := none
  arena : Arena
  typeMap : List TypeMapEntry := []
  kept : List TypeRef := []
  overwrites : List Overwrite := []
  deriving DecidableEq

def moduleTypes : Arena :=
  [.scalar .void, .scalar .i1, .scalar .i8, .scalar .i16, .scalar .i32, .scalar .i64,
    .scalar .float, .scalar .double, .scalar .x86Fp80, .scalar .fp128, .ptr]

def typeVoid : TypeRef := 0
def typePtr : TypeRef := 10

abbrev T := StateT TypeParser Option

def TypeParser.cur (p : TypeParser) : Token := p.toks.headD { kind := .tokEof }

def undefined {α : Type} : T α := fun _ => none

def reportError (e : ParseError) : T Unit := modify fun p => { p with error := p.error <|> some e }

def next : T Unit := modify fun p => { p with toks := p.toks.tail }

def check (kind : TokKind) : T Bool := do return (← get).cur.kind == kind

/-- `match` of the source. -/
def accept (kind : TokKind) : T Bool := do
  if ← check kind then
    next
    pure true
  else pure false

def expect (kind : TokKind) : T Unit := do
  if ← accept kind then pure ()
  else reportError (.expectedToken kind (← get).cur.kind)

/-- A loop that takes a token in every round but the last. -/
def withTokenFuel {α : Type} (loop : Nat → T α) : T α := do loop ((← get).toks.length + 1)

def allocType (node : TypeNode) : T TypeRef := do
  let place := (← get).arena.length
  modify fun p => { p with arena := p.arena ++ [node] }
  return place

def findTypeIndex (name : CStr) : T (Option Nat) := do
  return (← get).typeMap.findIdx? fun e => e.name == name

/-- `*placeholder = *ty`, and a struct without a name gets that of the placeholder. -/
def overwritten (arena : Arena) (type : TypeRef) (name : CStr) : TypeNode :=
  match arena[type]? with
  | some (.struct fields packed none) => .struct fields packed (some name)
  | some node => node
  | none => .scalar .void

/-- A type for a name that has an entry. -/
def storeType (idx : Nat) (type : TypeRef) (p : TypeParser) : TypeParser :=
  match p.typeMap[idx]? with
  | some e =>
    if e.placeholder then
      { p with
        arena := p.arena.set e.type (overwritten p.arena type e.name)
        typeMap := p.typeMap.set idx { e with placeholder := false }
        overwrites := p.overwrites ++ [⟨e.type, type, p.arena⟩] }
    else { p with typeMap := p.typeMap.set idx { e with type := type } }
  | none => p

def registerType (name : CStr) (type : TypeRef) : T Unit := do
  match ← findTypeIndex name with
  | some idx => modify (storeType idx type)
  | none => modify fun p => { p with typeMap := p.typeMap ++ [⟨name, type, false⟩] }

/-- A name that is not known yet stands for an empty struct until it is defined. -/
def resolveOrCreateForwardType (name : CStr) : T TypeRef := do
  match ← findTypeIndex name with
  | some idx => return ((← get).typeMap[idx]?.map TypeMapEntry.type).getD typeVoid
  | none =>
    let placeholder ← allocType (.struct [] false (some name))
    modify fun p => { p with typeMap := p.typeMap ++ [⟨name, placeholder, true⟩] }
    return placeholder

def pushBounded (xs : List TypeRef) (x : TypeRef) : T (List TypeRef) :=
  if xs.length < localArrayCap then pure (xs ++ [x]) else undefined

section Types
variable (elem : T TypeRef)

def fieldsLoop : Nat → List TypeRef → T (List TypeRef)
  | 0, _ => undefined
  | fuel + 1, fields => do
    if ← accept .tokComma then
      let field ← elem
      let fields ← pushBounded fields field
      fieldsLoop fuel fields
    else pure fields

def parseFields : T (List TypeRef) := do
  if ← check .tokRbrace then pure []
  else
    let first ← elem
    withTokenFuel fun fuel => fieldsLoop elem fuel [first]

def parseCounted (closing : TokKind) (mk : TypeRef → BitVec 64 → TypeNode) : T TypeRef := do
  let count := (← get).cur.intVal
  expect .tokIntLit
  expect .tokX
  let elemTy ← elem
  expect closing
  allocType (mk elemTy count)

def paramsLoop : Nat → List TypeRef → T (List TypeRef × Bool)
  | 0, _ => undefined
  | fuel + 1, params => do
    if ← accept .tokComma then
      if ← accept .tokDotdotdot then pure (params, true)
      else
        let param ← elem
        let params ← pushBounded params param
        paramsLoop fuel params
    else pure (params, false)

def parseParams : T (List TypeRef × Bool) := do
  if ← check .tokRparen then pure ([], false)
  else if ← accept .tokDotdotdot then pure ([], true)
  else
    let first ← elem
    withTokenFuel fun fuel => paramsLoop elem fuel [first]

/-- Stars and parameter lists behind a type. -/
def suffixLoop : Nat → TypeRef → T TypeRef
  | 0, _ => undefined
  | fuel + 1, ty => do
    if ← accept .tokStar then suffixLoop fuel typePtr
    else if ← accept .tokLparen then
      let (params, vararg) ← parseParams elem
      expect .tokRparen
      let ty ← allocType (.func ty params vararg)
      suffixLoop fuel ty
    else pure ty

/-- The scalar and pointer types that are one token. -/
def builtinType : TokKind → Option TypeRef
  | .tokVoid => some 0
  | .tokI1 => some 1
  | .tokI8 => some 2
  | .tokI16 => some 3
  | .tokI32 => some 4
  | .tokI64 => some 5
  | .tokFloat => some 6
  | .tokDouble => some 7
  | .tokX86Fp80 => some 8
  | .tokPtr => some 10
  | _ => none

def parseStruct (packed : Bool) : T TypeRef := do
  let fields ← parseFields elem
  expect .tokRbrace
  if packed then expect .tokRangle else pure ()
  allocType (.struct fields packed none)

/-- The switch of `parse_type`, with `elem` for its recursive calls. -/
def parseTypeHead : T TypeRef := do
  let t := (← get).cur
  match builtinType t.kind with
  | some ty =>
    next
    pure ty
  | none =>
    if t.kind = .tokLocalId then
      next
      resolveOrCreateForwardType (tokNameView t)
    else if t.kind = .tokLbracket then
      next
      parseCounted elem .tokRbracket .array
    else if t.kind = .tokLbrace then
      next
      parseStruct elem false
    else if t.kind = .tokLangle then
      next
      if ← check .tokIntLit then parseCounted elem .tokRangle .vector
      else
        expect .tokLbrace
        parseStruct elem true
    else
      reportError (.expectedType t.kind)
      pure typeVoid

end Types

def parseType : Nat → T TypeRef
  | 0 => undefined
  | depth + 1 => do
    let ty ← parseTypeHead (parseType depth)
    withTokenFuel fun fuel => suffixLoop (parseType depth) fuel ty

/-- What a function reads, or a global behind its type. -/
inductive Reading where
  | done
  | fail (e : ParseError) (rest : Reading)
  | look (rest : TypeParser → Reading)
  | take (count : Nat) (rest : Reading)
  | type (rest : TypeRef → Reading)
  /-- `lr_type_func` of `lr_func_create`. -/
  | func (ret : TypeRef) (params : List TypeRef) (vararg : Bool) (rest : TypeRef → Reading)
  /-- A type of a function, an instruction or an initializer. -/
  | keep (type : TypeRef) (rest : Reading)

def keepType (type : TypeRef) : T Unit := modify fun p => { p with kept := type :: p.kept }

def Reading.run (depth : Nat) : Reading → T Unit
  | .done => pure ()
  | .fail e rest => do
    reportError e
    rest.run depth
  | .look rest => do
    let p ← get
    (rest p).run depth
  | .take count rest => do
    modify fun p => { p with toks := p.toks.drop count }
    rest.run depth
  | .type rest => do
    let t ← parseType depth
    (rest t).run depth
  | .func ret params vararg rest => do
    let t ← allocType (.func ret params vararg)
    (rest t).run depth
  | .keep t rest => do
    keepType t
    rest.run depth

section Module
variable (depth : Nat) (topLevel : List Token → Bool) (function initializer : Reading)

/-- To the next token at the beginning of a line that begins a definition; `topLevel` says which
tokens stand there. -/
def skipLineLoop : Nat → T Unit
  | 0 => undefined
  | fuel + 1 => do
    let p ← get
    let kind := p.cur.kind
    if kind = .tokEof then pure ()
    else if topLevel p.toks ∧ (kind = .tokDefine ∨ kind = .tokDeclare ∨ kind = .tokGlobalId ∨
        kind = .tokLocalId) then pure ()
    else
      next
      skipLineLoop fuel

def skipLine : T Unit := withTokenFuel (skipLineLoop topLevel)

/-- Behind `type`. -/
def typeDefinition (name : CStr) : T Unit := do
  if ← check .tokOpaque then next
  else
    let aliased ← parseType depth
    registerType name aliased

def isLinkage : TokKind → Bool
  | .tokExternal | .tokInternal | .tokPrivate | .tokCommon | .tokLinkonceOdr | .tokDsolocal
  | .tokUnnamedAddr | .tokLocalUnnamedAddr => true
  | _ => false

def parseGlobal : T Unit := do
  let name := tokNameView (← get).cur
  next
  expect .tokEquals
  modify fun p => { p with toks := p.toks.dropWhile fun t => isLinkage t.kind }
  let kind := (← get).cur.kind
  if kind = .tokGlobal ∨ kind = .tokConstant then
    next
    let type ← parseType depth
    keepType type
    initializer.run depth
  else if kind = .tokType then
    next
    typeDefinition depth name
    skipLine topLevel
  else skipLine topLevel

def typeAlias : T Unit := do
  let name := tokNameView (← get).cur
  next
  if ← accept .tokEquals then
    if ← accept .tokType then typeDefinition depth name else pure ()
  else pure ()
  skipLine topLevel

/-- The loop over a module ends at the end of the text or at an error. -/
def moduleLoop : Nat → T Unit
  | 0 => undefined
  | fuel + 1 => do
    let p ← get
    let kind := p.cur.kind
    if kind = .tokEof ∨ p.error.isSome = true then pure ()
    else
      if kind = .tokDefine ∨ kind = .tokDeclare then
        next
        function.run depth
      else if kind = .tokGlobalId then parseGlobal depth topLevel initializer
      else if kind = .tokLocalId then typeAlias depth topLevel
      else skipLine topLevel
      moduleLoop fuel

def parseModule (fuel : Nat) (toks : List Token) : Option TypeParser :=
  (moduleLoop depth topLevel function initializer fuel { toks := toks, arena := moduleTypes }).map
    Prod.snd

end Module

end Liric.Source.LlTypes
