import Liric.Source.Ll.Switch

/-!
# The blocks of a function body in the text parser

Source: src/ll_parser.c:604-662 (`resolve_block_n`, `resolve_phi_block_n`, `resolve_block_ptr_n`),
1933-1966 (PHI), 2212-2244 (BR), 2305-2381 (SWITCH), 2495-2507 (INVOKE), 2530-2601
(`parse_function_body`).

A body is the list of its lines. Of an instruction the names of blocks are kept, in the
order in which they are read, and the blocks that the lowering of a switch adds; an invoke
names its normal label only. Whether its value has no name and whether it is a terminator
stand in the text, but no function here looks at them. No line is refused.
-/
namespace Liric.Source.Ll
open Ir

inductive BlockUse where
  | branch
  | phi
  deriving DecidableEq

structure BlockRef where
  use : BlockUse
  name : CStr
  deriving DecidableEq

structure InstLine where
  refs : List BlockRef
  switchBlocks : List CStr := []
  unnamed : Bool := false
  terminator : Bool := false
  deriving DecidableEq

inductive BodyLine where
  | label (name : CStr)
  | inst (i : InstLine)
  deriving DecidableEq

/-- The block of a line and the blocks that its names stand for. -/
structure LineBlocks where
  block : Nat
  refs : List Nat
  deriving DecidableEq

/-- Phi incoming edges may name the entry block as %0. -/
def resolvePhiBlock (name : CStr) : F Nat := fun s =>
  match s.func.blocks.head? with
  | some first =>
    if parseU32Decimal name = some 0 then some (first.id, s) else resolveBlock name s
  | none => resolveBlock name s

def resolveRef (r : BlockRef) : F Nat :=
  match r.use with
  | .branch => resolveBlock r.name
  | .phi => resolvePhiBlock r.name

def resolveRefs : List BlockRef → F (List Nat)
  | [] => pure []
  | r :: rest => do
    let id ← resolveRef r
    let ids ← resolveRefs rest
    return id :: ids

def addBlocks : List CStr → F Unit
  | [] => pure ()
  | name :: rest => do
    let _ ← createBlock name
    addBlocks rest

/-- `"entry"`. -/
def entryName : CStr := [101, 110, 116, 114, 121]

/-- `cur_block`, or the block that an unlabeled body begins with. -/
def currentBlock : Option Nat → F Nat
  | some block => pure block
  | none => resolveBlock entryName

def parseLine (cur : Option Nat) : BodyLine → F LineBlocks
  | .label name => do
    let block ← resolveBlock name
    return ⟨block, []⟩
  | .inst i => do
    let block ← currentBlock cur
    let refs ← resolveRefs i.refs
    addBlocks i.switchBlocks
    return ⟨block, refs⟩

def parseLines (cur : Option Nat) : List BodyLine → F (List LineBlocks)
  | [] => pure []
  | line :: rest => do
    let here ← parseLine cur line
    let after ← parseLines (some here.block) rest
    return here :: after

/-- `parse_function_body`, which forgets the labels of the function before. -/
def parseBodyBlocks (lines : List BodyLine) : F (List LineBlocks) := do
  modify fun s => { s with blockMap := [] }
  parseLines none lines

end Liric.Source.Ll
