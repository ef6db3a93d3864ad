import Liric.Source.Ll.Globals

/-!
# Function heads and stores of the text parser

Source: src/ll_parser.c:2604-2669 (`parse_param_type` and `parse_function_def` up to the closing
parenthesis of the parameters), 2244-2298 (the fields that a store of `parse_instruction` writes).

The parameters of a function are kept in two local arrays of 256 entries, the fields of a struct
that is stored as a constant in one of 16. `none` is as in the types of the parser.
-/
namespace Liric.Source.Ll
open Ir
open LlGlobals (isLinkage isLocalLinkage)

/-- The loop behind the first attributes of a head. -/
def linkageLoop : Nat → Bool → P Bool
  | 0, _ => undefined
  | fuel + 1, linkageLocal => do
    let kind := (← curTok).kind
    if isLinkage kind then
      next
      linkageLoop fuel (linkageLocal || isLocalLinkage kind)
    else pure linkageLocal

def parseParamType (parseTy : P LrType) : P LrType := do
  let ty ← parseTy
  skipAttrs
  pure ty

/-- A parameter: an entry of `params` and of `param_names`. -/
structure Param where
  type : LrType
  name : Option CStr
  deriving DecidableEq

def parseParam (parseTy : P LrType) : P Param := do
  let type ← parseParamType parseTy
  let t ← curTok
  if t.kind = .tokLocalId then
    next
    pure ⟨type, some (tokNameView t)⟩
  else pure ⟨type, none⟩

def pushParam (params : List Param) (param : Param) : P (List Param) :=
  if params.length < localArrayCap then pure (params ++ [param]) else undefined

def functionParamsLoop (parseTy : P LrType) : Nat → List Param → P (List Param × Bool)
  | 0, _ => undefined
  | fuel + 1, params => do
    if ← accept .tokComma then
      if ← accept .tokDotdotdot then pure (params, true)
      else
        skipAttrs
        let params ← pushParam params (← parseParam parseTy)
        functionParamsLoop parseTy fuel params
    else pure (params, false)

def functionParams (parseTy : P LrType) : P (List Param × Bool) := do
  if ← check .tokRparen then pure ([], false)
  else if ← accept .tokDotdotdot then pure ([], true)
  else
    let first ← parseParam parseTy
    withTokenFuel (fun fuel => functionParamsLoop parseTy fuel [first])

structure FunctionHead where
  name : CStr
  linkageLocal : Bool
  retType : LrType
  params : List Param
  vararg : Bool
  deriving DecidableEq

def functionHead (parseTy : P LrType) : P (Option FunctionHead) := do
  skipAttrs
  let linkageLocal ← withTokenFuel (fun fuel => linkageLoop fuel false)
  skipAttrs
  let retType ← parseTy
  let t ← curTok
  if t.kind = .tokGlobalId then
    next
    expect .tokLparen
    let (params, vararg) ← functionParams parseTy
    expect .tokRparen
    pure (some ⟨tokNameView t, linkageLocal, retType, params, vararg⟩)
  else
    reportError .expectedFunctionName
    pure none

/-- A store instruction; `field` goes to a field of its struct by an address instruction. -/
inductive StoreInst where
  | whole (val dst : LrOperand)
  | field (i : Nat) (val dst : LrOperand)
  deriving DecidableEq

/-- The entries of the array that `parse_struct_constant_fields` writes. -/
def storedOps (fields : List LrType) (ops : List LrOperand) : List LrOperand :=
  (ops.take fields.length).take aggFieldsMax

/-- One store for each operand that has a field; the operand is read from the array. -/
def fieldStores (fields : List LrType) (ops : List LrOperand) (dst : LrOperand) :
    Option (List StoreInst) :=
  (List.range (min ops.length fields.length)).mapM fun i =>
    (storedOps fields ops)[i]?.map fun val => .field i val dst

end Liric.Source.Ll
