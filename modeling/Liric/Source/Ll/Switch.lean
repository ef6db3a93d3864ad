import Liric.Source.Ir.Module
import Liric.Source.Ll.Parser

/-!
# Switch instructions in the text parser

Source: src/ll_parser.c:605-625 (`resolve_block_n`), 1524-1550 and 1569-1584 (`record_dest_type`,
`emit_inst`, `emit_icmp`, without a session), 2305-2381 (the switch of `parse_instruction`),
src/ir.c:189-199 (`lr_vreg_new`).

The counter of registers of the function is the one of the parser of operands.
`block` is the place of a block in its function. `lr_block_create` drops the block
array, so the lowering always finds the block it has just created.
-/
namespace Liric.Source.Ll
open Ir

/-- A parser in the body of a function. -/
structure FuncParser where
  parser : Parser
  func : LrFunc
  blockMap : List (CStr × Nat) := []
  deriving DecidableEq

abbrev F := StateT FuncParser Option

def ofP {α : Type} (x : P α) : F α := fun s =>
  (x s.parser).map fun r => (r.1, { s with parser := r.2 })

/-- `lr_block_create`, with the id and the place of the new block. -/
def createBlock (name : CStr) : F (Nat × Nat) := fun s =>
  some ((s.func.numBlocks, s.func.blocks.length), { s with func := blockCreate name s.func })

/-- A name that is met for the first time creates its block. -/
def resolveBlock (name : CStr) : F Nat := fun s =>
  match s.blockMap.lookup name with
  | some id => some (id, s)
  | none => (createBlock name s).map fun r =>
    (r.1.1, { r.2 with blockMap := r.2.blockMap ++ [(name, r.1.1)] })

def lrVregNew : F Nat := fun s =>
  some (s.parser.nextVreg, { s with parser := { s.parser with nextVreg := s.parser.nextVreg + 1 } })

def blockAppend (block : Nat) (inst : LrInst) : F Unit := fun s =>
  some ((), { s with func := { s.func with
    blocks := s.func.blocks.modify block fun b => { b with insts := b.insts ++ [inst] } } })

def recordDestType (dest : Nat) (type : LrType) : F Unit :=
  if dest = 0 then pure ()
  else do
    let _ ← ofP (bindVregType dest type [])
    pure ()

def emitInst (block : Nat) (op : Opcode) (type : LrType) (dest : Nat) (ops : List LrOperand) :
    F Unit := do
  recordDestType dest type
  blockAppend block (lrInstCreate op (some type) dest ops)

def emitIcmp (block : Nat) (type : LrType) (dest : Nat) (ops : List LrOperand)
    (pred : IcmpPred) : F Unit := do
  recordDestType dest type
  blockAppend block
    { lrInstCreate .icmp (some type) dest ops with payload := .icmpPred pred }

/-- `struct { int64_t case_val; uint32_t block_id; }`. -/
structure SwitchCase where
  caseVal : BitVec 64
  blockId : Nat
  deriving DecidableEq

/-- The bound of the table of cases. -/
def switchCasesMax : Nat := 256

/-- A label and the block that it names. -/
def parseLabel : F Nat := do
  let name ← ofP (do return tokNameView (← curTok))
  ofP next
  resolveBlock name

def parseCase (depth : Nat) : F SwitchCase := do
  let _ ← ofP (parseType depth)
  let cv ← ofP (do return (← curTok).intVal)
  ofP (expect .tokIntLit)
  ofP (expect .tokComma)
  ofP (expect .tokLabel)
  let cid ← parseLabel
  return ⟨cv, cid⟩

/-- A case behind the last place of the table is read and forgotten. -/
def casesLoop (depth : Nat) : Nat → List SwitchCase → F (List SwitchCase)
  | 0, _ => fun _ => none
  | fuel + 1, cases => do
    let s ← get
    if s.parser.cur.kind = .tokRbracket ∨ s.parser.cur.kind = .tokEof ∨ s.parser.error.isSome then
      return cases
    else
      let c ← parseCase depth
      casesLoop depth fuel (if cases.length < switchCasesMax then cases ++ [c] else cases)

/-- `"switch.%u.%u"`. -/
def switchName (blockId ci : Nat) : CStr :=
  [115, 119, 105, 116, 99, 104, 46] ++ decimalName blockId ++ [46] ++ decimalName ci

/-- `block->id`. -/
def blockIdAt (block : Nat) : F Nat := fun s =>
  some (((s.func.blocks[block]?).map fun b => b.id).getD 0, s)

/-- The chain from case `ci` on: each case but the last has a block for the next one. -/
def lowerCases (val : LrOperand) (valTy : LrType) (defaultId : Nat) :
    Nat → Nat → List SwitchCase → F Unit
  | _, _, [] => pure ()
  | block, ci, c :: rest => do
    let types := (← get).parser.builtin
    let cmpDest ← lrVregNew
    emitIcmp block types.typeI1 cmpDest [val, lrOpImmI64 c.caseVal (some valTy)] .eq
    let cond := lrOpVreg cmpDest (some types.typeI1)
    if rest.isEmpty then
      emitInst block .condbr types.typeVoid 0 [cond, lrOpBlock c.blockId, lrOpBlock defaultId]
    else
      let id ← blockIdAt block
      let (nextId, nextBlock) ← createBlock (switchName id ci)
      emitInst block .condbr types.typeVoid 0 [cond, lrOpBlock c.blockId, lrOpBlock nextId]
      lowerCases val valTy defaultId nextBlock (ci + 1) rest

/-- The current token is `switch`; the instruction belongs to `block`. -/
def parseSwitch (depth block : Nat) : F Unit := do
  ofP next
  let valTy ← ofP (parseType depth)
  let val ← ofP (parseOperand depth valTy)
  ofP (expect .tokComma)
  ofP (expect .tokLabel)
  let defaultId ← parseLabel
  ofP (expect .tokLbracket)
  let fuel := (← get).parser.toks.length + 1
  let cases ← casesLoop depth fuel []
  ofP (expect .tokRbracket)
  if cases.isEmpty then
    let types := (← get).parser.builtin
    emitInst block .br types.typeVoid 0 [lrOpBlock defaultId]
  else lowerCases val valTy defaultId block 0 cases

end Liric.Source.Ll
