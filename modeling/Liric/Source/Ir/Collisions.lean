import Liric.Lib.ChainedIndex
import Liric.Source.Jit.Symbols
import Liric.Source.Ll.Parser

/-!
# Collisions of local functions

Source: src/ir.c:1057-1110 (the comparisons of signatures), 1139-1220 (`ir_call_sig_bucket` to
`ir_build_call_sig_index_dynamic`), 1258-1506 (`ir_call_index_has_signature_conflict`,
`lr_module_disambiguate_local_function_collisions`).

Types are compared by pointer. An index is the chains of its buckets. The names and numbers
that are entered in the indexes are those before the first renaming; a function that has been
renamed keeps its place and its signature. `none` is a run in which the interning of a name
does not end.
-/
namespace Liric.Source.Ir
open Lib (chained)
open Jit (localTag)
open Ll (decimalName)

def irFuncSignaturesMatch (a b : LrFunc) : Bool :=
  a.retType == b.retType && a.paramTypes == b.paramTypes && a.vararg == b.vararg

def irFuncTypeMatchesFunc (type : Option LrType) (func : LrFunc) : Bool :=
  match type with
  | some (.func _ ret params vararg) =>
    ret == func.retType && params == func.paramTypes && vararg == func.vararg
  | _ => false

def irCallSignatureMatchesFunc (inst : LrInst) (func : LrFunc) : Bool :=
  let args := inst.operands.drop 1
  inst.op == .call && inst.type == some func.retType &&
    (if func.vararg then func.paramTypes.length ≤ args.length
      else args.length == func.paramTypes.length) &&
    (func.paramTypes.zip args).all fun (type, arg) => arg.type == some type

def irCallSigBucket (bucketCap symId : Nat) : Nat :=
  let x := BitVec.ofNat 32 symId
  let x := x ^^^ (x >>> 16)
  let x := x * 0x7feb352d
  let x := x ^^^ (x >>> 15)
  (x &&& (BitVec.ofNat 32 bucketCap - 1)).toNat

/-- `while (cap < value && cap < (UINT32_MAX >> 1)) cap <<= 1;` -/
def nextPow2Loop (value : Nat) : Nat → Nat → Nat
  | 0, cap => cap
  | fuel + 1, cap =>
    if cap < value ∧ cap < uint32Max / 2 then nextPow2Loop value fuel (cap * 2) else cap

def irNextPow2U32 (value : Nat) : Nat := nextPow2Loop value 32 1

/-- The chain a search for a symbol walks, in an index with room for `count` entries. -/
def symChain {E : Type} (count : Nat) (entries : List (Nat × E)) (symId : Nat) : List (Nat × E) :=
  let bucket := irCallSigBucket (irNextPow2U32 (count * 2 % 2 ^ 32))
  chained bucket Prod.fst entries (bucket symId)

/-- The callee of a direct call: `ir_inst_is_global_call` and `operands[0].global_id`. -/
def LrInst.directCallee (inst : LrInst) : Option Nat :=
  if inst.op ≠ .call then none
  else
    match inst.operands with
    | ⟨.global id, _, _⟩ :: _ => some id
    | _ => none

def LrModule.insts (m : LrModule) : List LrInst :=
  m.funcs.flatMap fun f => f.blocks.flatMap LrBlock.insts

def callEntries (m : LrModule) : List (Nat × LrInst) :=
  m.insts.filterMap fun inst => inst.directCallee.map fun symId => (symId, inst)

/-- The functions with their places. -/
def funcEntries (m : LrModule) : List (Nat × Nat × LrFunc) :=
  m.funcs.zipIdx.map fun (f, place) => (f.symbolId, place, f)

def LrGlobal.isFuncTyped (g : LrGlobal) : Bool :=
  g.type.any fun
    | .func .. => true
    | _ => false

/-- The globals of function types, by the symbols of their names. -/
def globalEntries : List LrGlobal → SymbolTable → Option (SymbolTable × List (Nat × LrGlobal))
  | [], symbols => some (symbols, [])
  | g :: gs, symbols =>
    if g.isFuncTyped = false ∨ g.name = [] then globalEntries gs symbols
    else do
      let (symbols, symId) ← lrModuleInternSymbol symbols g.name
      let (symbols, entries) ← globalEntries gs symbols
      some (symbols, if symId = uint32Max then entries else (symId, g) :: entries)

/-- `has_conflict` of the function at a place. -/
def hasConflict (m : LrModule) (globals : List (Nat × LrGlobal)) (f : LrFunc) (place : Nat) :
    Bool :=
  ((symChain m.funcs.length (funcEntries m) f.symbolId).any fun e =>
      e.1 == f.symbolId && (e.2.1 != place && !irFuncSignaturesMatch f e.2.2)) ||
    ((symChain (m.globals.countP LrGlobal.isFuncTyped) globals f.symbolId).any fun e =>
      e.1 == f.symbolId && !irFuncTypeMatchesFunc e.2.type f) ||
    (symChain (callEntries m).length (callEntries m) f.symbolId).any fun e =>
      e.1 == f.symbolId && !irCallSignatureMatchesFunc e.2 f

/-- What is renamed: a definition with a name that is in conflict. -/
def isRenamed (m : LrModule) (globals : List (Nat × LrGlobal)) (f : LrFunc) (place : Nat) : Bool :=
  !f.name.isEmpty && f.isDefinition && hasConflict m globals f place

/-- `func` is the function that has been renamed, of which the signature is read. -/
structure FuncRenameEntry where
  oldSymId : Nat
  newSymId : Nat
  func : LrFunc
  deriving DecidableEq

/-- The loop that renames, from the function at `place` on. -/
def renameLoop (m : LrModule) (globals : List (Nat × LrGlobal)) :
    List LrFunc → Nat → SymbolTable → List FuncRenameEntry →
      Option (SymbolTable × List FuncRenameEntry × List LrFunc)
  | [], _, symbols, renames => some (symbols, renames, [])
  | f :: fs, place, symbols, renames =>
    if isRenamed m globals f place then do
      let newName := f.name ++ localTag ++ decimalName renames.length
      let (symbols, newSymId) ← lrModuleInternSymbol symbols newName
      let renamed := { f with name := newName, symbolId := newSymId }
      let (symbols, renames, fs) ←
        renameLoop m globals fs (place + 1) symbols (renames ++ [⟨f.symbolId, newSymId, renamed⟩])
      some (symbols, renames, renamed :: fs)
    else do
      let (symbols, renames, fs) ← renameLoop m globals fs (place + 1) symbols renames
      some (symbols, renames, f :: fs)

def LrInst.setCallee (inst : LrInst) (symId : Nat) : LrInst :=
  { inst with operands := inst.operands.modify 0 fun o => { o with value := .global symId } }

def retargetCall (renames : List FuncRenameEntry) (inst : LrInst) : LrInst :=
  match inst.directCallee with
  | none => inst
  | some symId =>
    let entries := renames.map fun r => (r.oldSymId, r)
    match (symChain renames.length entries symId).find? fun e =>
        symId == e.2.oldSymId && irCallSignatureMatchesFunc inst e.2.func with
    | none => inst
    | some e => inst.setCallee e.2.newSymId

def LrFunc.mapInsts (f : LrFunc) (change : LrInst → LrInst) : LrFunc :=
  { f with blocks := f.blocks.map fun b => { b with insts := b.insts.map change } }

def lrModuleDisambiguateLocalFunctionCollisions (m : LrModule) : Option LrModule :=
  if m.localFunctionCollisionScanDirty = false then some m
  else do
    let (symbols, globals) ← globalEntries m.globals m.symbols
    let (symbols, renames, funcs) ← renameLoop m globals m.funcs 0 symbols []
    some { m with
      symbols := symbols
      funcs := if renames = [] then funcs
        else funcs.map fun f => f.mapInsts (retargetCall renames)
      localFunctionCollisionScanDirty := false }

end Liric.Source.Ir
