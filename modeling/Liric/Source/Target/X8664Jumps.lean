import Liric.Source.Ir.Symbols

/-!
# The x86_64 target: blocks and jumps

Source: src/target_x86_64.c:28-33 (`x86_fixup_t`), 1254-1273 (`emit_jmp_sourced`, `emit_jmp`),
1514-1565 (block offsets, phi copies of an edge), 1567-1790 (`direct_emit_phi_copies_for_edge`,
`flush_deferred_terminator`), 2113-2165 (`x86_64_compile_set_block`, the prelude of
`x86_64_compile_emit`), 3240-3360 (`x86_64_compile_end`, `x86_64_compile_add_phi_copy`).

Of the code the jumps are kept with the block that each is emitted for; all other
instructions, among which there is no jump, count by their bytes, which the caller of this
model chooses. A rel32 field is kept as the place that it was written for. `block_offsets`
and `block_entry_offsets` are set together and only the second is read, so they are one
list. Of a phi copy the edge is kept. Arrays grow as they must and allocations succeed.
-/
namespace Liric.Source.X8664
open Ir (uint32Max)

inductive Piece where
  | code (bytes : Nat)
  | jmp (block : Nat)
  | jcc (block : Nat)
  deriving DecidableEq

def Piece.size : Piece → Nat
  | .code bytes => bytes
  | .jmp _ => 5
  | .jcc _ => 6

structure Emitted where
  off : Nat
  piece : Piece
  deriving DecidableEq

structure X86Fixup where
  pos : Nat
  targetPosHint : Option Nat
  target : Nat
  source : Nat
  deriving DecidableEq

structure StreamPhiCopy where
  predBlockId : Nat
  succBlockId : Nat
  emitted : Bool := false
  deriving DecidableEq

/-- A terminator and the bytes of the code around its jumps: what it tests, and the phi
copies of its edges. RET, RET_VOID and UNREACHABLE have no jump. -/
inductive Term where
  | leave (bytes : Nat)
  | br (target copies : Nat)
  | condbr (trueId falseId test falseCopies trueCopies : Nat)
  deriving DecidableEq

/-- A terminator that waits for the copies of its edges. -/
structure DeferredTerm where
  term : Term
  blockId : Nat
  deriving DecidableEq

structure JumpCtx where
  buflen : Nat
  pos : Nat := 0
  emitted : List Emitted := []
  /-- The rel32 fields and the places they were written for, the last write first. -/
  rels : List (Nat × Nat) := []
  blockEntryOffsets : List (Nat × Nat) := []
  fixups : List X86Fixup := []
  phiCopies : List StreamPhiCopy := []
  currentBlock : Option Nat := none
  deferred : Option DeferredTerm := none
  deriving DecidableEq

def JumpCtx.put (c : JumpCtx) (piece : Piece) : JumpCtx :=
  { c with emitted := c.emitted ++ [Emitted.mk c.pos piece], pos := c.pos + piece.size }

/-- A rel32 field is written if the buffer has room for it. -/
def JumpCtx.writeRel (c : JumpCtx) (field place : Nat) : JumpCtx :=
  if field + 4 ≤ c.buflen then { c with rels := (field, place) :: c.rels } else c

/-- The field is 0 until it is patched: the jump goes to the next instruction. -/
def JumpCtx.emitJmpSourced (c : JumpCtx) (target source : Nat) : JumpCtx :=
  let field := c.pos + 1
  let fixup : X86Fixup := ⟨field, c.blockEntryOffsets.lookup target, target, source⟩
  ({ c.put (.jmp target) with fixups := c.fixups ++ [fixup] }).writeRel field (field + 4)

def JumpCtx.emitJmp (c : JumpCtx) (target : Nat) : JumpCtx := c.emitJmpSourced target uint32Max

def JumpCtx.emitJcc (c : JumpCtx) (block : Nat) : JumpCtx :=
  (c.put (.jcc block)).writeRel (c.pos + 2) (c.pos + 6)

def StreamPhiCopy.matchesEdge (p : StreamPhiCopy) (pred succ : Nat) (onlyUnemitted : Bool) : Bool :=
  p.predBlockId == pred && p.succBlockId == succ && !(onlyUnemitted && p.emitted)

/-- `direct_emit_phi_copies_for_edge`. -/
def JumpCtx.emitPhiCopies (c : JumpCtx) (pred succ : Nat) (onlyUnemitted : Bool) (bytes : Nat) :
    JumpCtx :=
  { c.put (.code bytes) with
    phiCopies := c.phiCopies.map fun p =>
      if p.matchesEdge pred succ onlyUnemitted then { p with emitted := true } else p }

/-- test; jne true_path; false_copies; jmp false; true_path: true_copies; jmp true. -/
def JumpCtx.emitCondbr (c : JumpCtx) (blockId trueId falseId test falseCopies trueCopies : Nat) :
    JumpCtx :=
  let c := c.put (.code test)
  let jccDispPos := c.pos + 2
  let c := c.emitJcc trueId
  let c := c.emitPhiCopies blockId falseId false falseCopies
  let c := c.emitJmpSourced falseId blockId
  let c := c.writeRel jccDispPos c.pos
  let c := c.emitPhiCopies blockId trueId false trueCopies
  c.emitJmpSourced trueId blockId

def JumpCtx.emitTerm (c : JumpCtx) (dt : DeferredTerm) : JumpCtx :=
  match dt.term with
  | .leave bytes => c.put (.code bytes)
  | .br target copies =>
    (c.emitPhiCopies dt.blockId target false copies).emitJmpSourced target dt.blockId
  | .condbr trueId falseId test falseCopies trueCopies =>
    c.emitCondbr dt.blockId trueId falseId test falseCopies trueCopies

/-- `flush_deferred_terminator`. -/
def JumpCtx.flush (c : JumpCtx) : JumpCtx :=
  match c.deferred with
  | none => c
  | some dt => { c with deferred := none }.emitTerm dt

/-- An instruction as far as blocks and jumps go. -/
inductive StreamInst where
  | phi
  | alloca (bytes : Nat)
  | other (bytes : Nat)
  | term (term : Term)
  deriving DecidableEq

inductive StreamCall where
  | setBlock (id : Nat)
  | emit (inst : StreamInst)
  | addPhiCopy (pred succ : Nat)
  deriving DecidableEq

/-- The array of offsets cannot grow to an id of 2 ^ 31 or more. -/
def JumpCtx.setBlock (c : JumpCtx) (id : Nat) : Option JumpCtx :=
  if 2 ^ 31 ≤ id then none
  else
    let c := if c.deferred.any fun dt => c.currentBlock.isNone || dt.blockId != id then c.flush
      else c
    some { c with
      currentBlock := some id
      blockEntryOffsets := match c.blockEntryOffsets.lookup id with
        | none => (id, c.pos) :: c.blockEntryOffsets
        | some _ => c.blockEntryOffsets }

/-- An alloca of the same block goes in front of the terminator. -/
def JumpCtx.emitInst (c : JumpCtx) (inst : StreamInst) : Option JumpCtx :=
  c.currentBlock.map fun cur =>
    match inst with
    | .phi => c
    | .alloca bytes =>
      (if c.deferred.any fun dt => dt.blockId != cur then c.flush else c).put (.code bytes)
    | .other bytes => c.flush.put (.code bytes)
    | .term term => { c.flush with deferred := some ⟨term, cur⟩ }

def JumpCtx.call (c : JumpCtx) : StreamCall → Option JumpCtx
  | .setBlock id => c.setBlock id
  | .emit inst => c.emitInst inst
  | .addPhiCopy pred succ => some { c with phiCopies := c.phiCopies ++ [⟨pred, succ, false⟩] }

/-- After `x86_64_compile_begin`. -/
def compileBegin (buflen prologue : Nat) : JumpCtx :=
  ({ buflen := buflen } : JumpCtx).put (.code prologue)

/-- Copies of an edge that were registered too late go into code of their own, to which the
jump is turned; `bytes` is their length. -/
def JumpCtx.lateStub (bytes : Nat → Nat) (c : JumpCtx) (fi : Nat) : JumpCtx :=
  match c.fixups[fi]? with
  | none => c
  | some fixup =>
    if fixup.source = uint32Max then c
    else if c.phiCopies.any fun p => p.matchesEdge fixup.source fixup.target true then
      let stubPos := c.pos
      let c := (c.emitPhiCopies fixup.source fixup.target true (bytes fi)).emitJmp fixup.target
      ({ c with fixups := c.fixups.set fi { fixup with target := uint32Max } }).writeRel
        fixup.pos stubPos
    else c

def JumpCtx.lateStubs (bytes : Nat → Nat) (c : JumpCtx) : JumpCtx :=
  (List.range c.fixups.length).foldl (JumpCtx.lateStub bytes) c

/-- A jump to a block without an offset is left as it is. -/
def JumpCtx.bindFixup (c : JumpCtx) (fixup : X86Fixup) : JumpCtx :=
  if fixup.target = uint32Max then c
  else
    match fixup.targetPosHint.or (c.blockEntryOffsets.lookup fixup.target) with
    | none => c
    | some off => c.writeRel fixup.pos off

def JumpCtx.bindFixups (c : JumpCtx) : JumpCtx := c.fixups.foldl JumpCtx.bindFixup c

def JumpCtx.compileEnd (c : JumpCtx) (bytes : Nat → Nat) : Option JumpCtx :=
  let c := (c.flush.lateStubs bytes).bindFixups
  if c.pos > c.buflen then none else some c

end Liric.Source.X8664
