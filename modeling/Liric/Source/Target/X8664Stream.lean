import Liric.Lib.BoundedEmit
import Liric.Source.Ir.Module
import Liric.Source.Object.Context
import Liric.Source.Target.X8664Jumps

/-!
# The x86_64 target: bytes of a function

Source: src/target_x86_64.c:170-225 (`emit_byte` to `encode_alu_rr`), 910-935 (prologue and
epilogue), 1254-1273 (`emit_jmp_sourced`), 1567-1790 (phi copies of an edge, deferred
terminators), 1870-2165 (`x86_64_compile_begin`, `x86_64_compile_set_block`, the prelude of
`x86_64_compile_emit`), 2725-2765 (UITOFP), 3240-3360 (`x86_64_compile_end`,
`x86_64_compile_add_phi_copy`), src/target_registry.c:103-262 (`lr_replay_function_stream`).

What is emitted is a program over a buffer of limited size: it asks for the places of symbols
in the object context and notes relocations. Everything that writes to the buffer in another
way than with `emit_byte` is here: the patches of jumps and of the prologue, and the MOV of
UITOFP. What the other opcodes emit, which is by `emit_byte` alone, is a parameter, with the
slots, the cached registers and the vregs of the function as its state. Arrays grow as they
must, and allocations succeed. The object context is not null.
-/
namespace Liric.Source.X8664
open Lib
open Lib.BoundedEmit (Code PlainCode)
open Ir
open Object (ObjReloc)

abbrev X86Code := Code CStr ObjReloc

def emitByte (b : UInt8) : X86Code Unit := .put b (.ret ())

def emitU32 (v : BitVec 32) : X86Code Unit := Code.putAll (leBytes 4 v.toNat)

def patchU32 (place : Nat) (v : BitVec 32) : X86Code Unit := .patch place v (.ret ())

def codeIf (p : Prop) [Decidable p] (code : X86Code Unit) : X86Code Unit :=
  if p then code else pure ()

/-- `cc->pos`. -/
def here : X86Code Nat := .pos .ret

def rex (w r x b : Bool) : UInt8 :=
  0x40 ||| (if w then 8 else 0) ||| (if r then 4 else 0) ||| (if x then 2 else 0) |||
    (if b then 1 else 0)

def modrm (mod reg rm : UInt8) : UInt8 := (mod <<< 6) ||| ((reg &&& 7) <<< 3) ||| (rm &&& 7)

/-- `encode_alu_rr` with 85 and a size of 1: TEST of the low bytes. -/
def encodeTestByte (dst src : UInt8) : X86Code Unit := do
  codeIf (dst ≥ 8 ∨ src ≥ 8) (emitByte (rex false (src ≥ 8) false (dst ≥ 8)))
  emitByte 0x84
  emitByte (modrm 3 src dst)

/-- The place of the immediate that the size of the frame goes into. -/
def emitPrologue : X86Code Nat := do
  emitByte 0x55
  emitByte (rex true false false false)
  emitByte 0x89
  emitByte (modrm 3 4 5)
  emitByte (rex true false false false)
  emitByte 0x81
  emitByte (modrm 3 5 4)
  let immPos ← here
  emitU32 0
  pure immPos

def emitEpilogue : X86Code Unit := do
  emitByte (rex true false false false)
  emitByte 0x89
  emitByte (modrm 3 5 4)
  emitByte 0x5D
  emitByte 0xC3

/-- Two bytes that are written without a look at the size of the buffer: `mov eax, eax`. -/
def emitMovEaxRaw : X86Code Unit := .raw 0x89 (.raw 0xC0 (.ret ()))

/-- The distance from behind a rel32 field to its target. -/
def rel32 (target field : Nat) : BitVec 32 := BitVec.ofInt 32 ((target : Int) - ((field : Int) + 4))

/-- `σ` has the slots, the cached registers and the vregs of a function. -/
structure X86Selection (σ : Type) where
  start : LrFunc → σ
  /-- Parameters are stored to their slots. -/
  storeParams : LrFunc → σ → PlainCode CStr ObjReloc σ
  stackSize : σ → BitVec 32
  /-- `invalidate_cached_gprs`. -/
  invalidate : σ → σ
  /-- `direct_note_vregs`. -/
  noteVregs : LrInst → σ → σ
  /-- The slot of a phi. -/
  allocPhi : LrInst → σ → σ
  /-- The slot of the vreg that a phi copy goes to. -/
  allocPhiCopy : (dest : Nat) → (src : LrOperand) → σ → σ
  /-- `emit_load_operand` to RAX. -/
  loadRax : LrOperand → σ → PlainCode CStr ObjReloc σ
  /-- RET in front of the epilogue. -/
  returnValue : LrOperand → σ → PlainCode CStr ObjReloc σ
  /-- Parallel copies to vregs. -/
  phiCopies : List (Nat × LrOperand) → σ → PlainCode CStr ObjReloc σ
  /-- UITOFP behind the MOV. -/
  convertRax : LrInst → σ → PlainCode CStr ObjReloc σ
  /-- Any other opcode. -/
  select : LrInst → σ → PlainCode CStr ObjReloc σ

structure DirectPhiCopy where
  predBlockId : Nat
  succBlockId : Nat
  destVreg : Nat
  srcOp : LrOperand
  emitted : Bool := false
  deriving DecidableEq

/-- A terminator that waits for the copies of its edges. -/
structure DirectTerm where
  op : Opcode
  ops : List LrOperand
  blockId : Nat
  deriving DecidableEq

/-- `x86_direct_ctx_t`. `block_offsets` are written and never read. -/
structure X86Direct (σ : Type) where
  cc : σ
  prologuePatchPos : Nat := 0
  blockEntryOffsets : List (Nat × Nat) := []
  fixups : List X86Fixup := []
  phiCopies : List DirectPhiCopy := []
  currentBlock : Option Nat := none
  blockOffsetPending : Bool := false
  deferred : Option DirectTerm := none

/-- A null operand that is read gives 0. -/
def nullOperand : LrOperand := ⟨.vreg 0, none, 0⟩

def blockIdOf (op : LrOperand) : Nat :=
  match op.value with
  | .block id => id
  | other => other.low32.toNat

section Stream
variable {σ : Type} (x : X86Selection σ)

def emitJmpSourced (c : X86Direct σ) (target source : Nat) : X86Code (X86Direct σ) := do
  emitByte 0xE9
  let pos ← here
  emitU32 0
  pure { c with fixups := c.fixups ++ [⟨pos, c.blockEntryOffsets.lookup target, target, source⟩] }

def emitJmp (c : X86Direct σ) (target : Nat) : X86Code (X86Direct σ) :=
  emitJmpSourced c target uint32Max

def DirectPhiCopy.matchesEdge (p : DirectPhiCopy) (pred succ : Nat) (onlyUnemitted : Bool) : Bool :=
  p.predBlockId == pred && p.succBlockId == succ && !(onlyUnemitted && p.emitted)

/-- `direct_emit_phi_copies_for_edge`. -/
def emitPhiCopies (c : X86Direct σ) (pred succ : Nat) (onlyUnemitted : Bool) :
    X86Code (X86Direct σ) :=
  let copies := c.phiCopies.filter fun p => p.matchesEdge pred succ onlyUnemitted
  if copies.isEmpty then pure c
  else do
    let cc ← (x.phiCopies (copies.map fun p => (p.destVreg, p.srcOp)) c.cc).code
    pure { c with
      cc := cc
      phiCopies := c.phiCopies.map fun p =>
        if p.matchesEdge pred succ onlyUnemitted then { p with emitted := true } else p }

/-- test; jne true_path; false_copies; jmp false; true_path: true_copies; jmp true. -/
def emitCondbr (c : X86Direct σ) (blockId : Nat) (cond : LrOperand) (trueId falseId : Nat) :
    X86Code (X86Direct σ) := do
  let cc ← (x.loadRax cond c.cc).code
  encodeTestByte 0 0
  emitByte 0x0F
  emitByte 0x85
  let jccDispPos ← here
  emitU32 0
  let c ← emitPhiCopies x { c with cc := cc } blockId falseId false
  let c ← emitJmpSourced c falseId blockId
  let truePathPos ← here
  patchU32 jccDispPos (rel32 truePathPos jccDispPos)
  let c ← emitPhiCopies x { c with cc := x.invalidate c.cc } blockId trueId false
  emitJmpSourced c trueId blockId

def emitTerm (c : X86Direct σ) (dt : DirectTerm) : X86Code (X86Direct σ) :=
  let op (i : Nat) : LrOperand := dt.ops.getD i nullOperand
  match dt.op with
  | .ret => do
    let cc ← (x.returnValue (op 0) c.cc).code
    emitEpilogue
    pure { c with cc := cc }
  | .retVoid | .unreachable => do
    emitEpilogue
    pure c
  | .br => do
    let c ← emitPhiCopies x c dt.blockId (blockIdOf (op 0)) false
    emitJmpSourced c (blockIdOf (op 0)) dt.blockId
  | .condbr => emitCondbr x c dt.blockId (op 0) (blockIdOf (op 1)) (blockIdOf (op 2))
  | _ => pure c

def flushDeferredTerminator (c : X86Direct σ) : X86Code (X86Direct σ) :=
  match c.deferred with
  | none => pure c
  | some dt => emitTerm x { c with deferred := none } dt

def flushIf (flush : Bool) (c : X86Direct σ) : X86Code (X86Direct σ) :=
  if flush then flushDeferredTerminator x c else pure c

def x8664CompileBegin (f : LrFunc) : X86Code (X86Direct σ) := do
  let patchPos ← emitPrologue
  let cc ← (x.storeParams f (x.start f)).code
  pure { cc := cc, prologuePatchPos := patchPos }

/-- The array of offsets cannot grow to an id of 2 ^ 31 or more. -/
def x8664CompileSetBlock (c : X86Direct σ) (blockId : Nat) : X86Code (X86Direct σ) :=
  if 2 ^ 31 ≤ blockId then .fail
  else do
    let c ← flushIf x (c.deferred.any fun dt => c.currentBlock.isNone || dt.blockId != blockId) c
    let pos ← here
    pure { c with
      currentBlock := some blockId
      blockEntryOffsets := match c.blockEntryOffsets.lookup blockId with
        | none => (blockId, pos) :: c.blockEntryOffsets
        | some _ => c.blockEntryOffsets
      blockOffsetPending := true }

/-- An alloca of the same block goes in front of the terminator. -/
def emitPrelude (c : X86Direct σ) (inst : LrInst) (current : Nat) : X86Code (X86Direct σ) :=
  if inst.op = .phi then pure c
  else do
    let c ← flushIf x (c.deferred.any fun dt => inst.op != .alloca || dt.blockId != current) c
    pure { c with
      cc := if c.blockOffsetPending then x.invalidate c.cc else c.cc
      blockOffsetPending := false }

/-- An operand of at most 32 bits is widened with zeros. -/
def emitUitofp (cc : σ) (inst : LrInst) : X86Code σ := do
  let op := inst.operands.getD 0 nullOperand
  let cc ← (x.loadRax op cc).code
  codeIf (op.type.elim 0 lrTypeSize ≤ 4) emitMovEaxRaw
  (x.convertRax inst cc).code

def x8664CompileEmit (c : X86Direct σ) (inst : LrInst) : X86Code (X86Direct σ) :=
  match c.currentBlock with
  | none => .fail
  | some current => do
    let c ← emitPrelude x c inst current
    let c := { c with cc := x.noteVregs inst c.cc }
    match inst.op with
    | .ret | .retVoid | .br | .condbr | .unreachable =>
      pure { c with deferred := some ⟨inst.op, inst.operands, current⟩ }
    | .phi => pure { c with cc := x.allocPhi inst c.cc }
    | .uitofp =>
      let cc ← emitUitofp x c.cc inst
      pure { c with cc := cc }
    | _ =>
      let cc ← (x.select inst c.cc).code
      pure { c with cc := cc }

def x8664CompileAddPhiCopy (c : X86Direct σ) (pred succ dest : Nat) (src : LrOperand) : X86Direct σ :=
  { c with
    cc := x.allocPhiCopy dest src c.cc
    phiCopies := c.phiCopies ++ [⟨pred, succ, dest, src, false⟩] }

/-- Copies of an edge that were registered too late go into code of their own, to which the
jump is turned. -/
def lateStub (c : X86Direct σ) (fi : Nat) : X86Code (X86Direct σ) :=
  match c.fixups[fi]? with
  | none => pure c
  | some fixup =>
    if fixup.source = uint32Max then pure c
    else if c.phiCopies.any fun p => p.matchesEdge fixup.source fixup.target true then do
      let stubPos ← here
      let c ← emitPhiCopies x { c with cc := x.invalidate c.cc } fixup.source fixup.target true
      let c ← emitJmp { c with cc := x.invalidate c.cc } fixup.target
      patchU32 fixup.pos (rel32 stubPos fixup.pos)
      pure { c with fixups := c.fixups.set fi { fixup with target := uint32Max } }
    else pure c

/-- A jump to a block without an offset is left as it is. -/
def bindFixup (c : X86Direct σ) (fixup : X86Fixup) : X86Code Unit :=
  if fixup.target = uint32Max then pure ()
  else
    match fixup.targetPosHint.or (c.blockEntryOffsets.lookup fixup.target) with
    | none => pure ()
    | some off => patchU32 fixup.pos (rel32 off fixup.pos)

/-- The size of the frame is a multiple of 16. -/
def x8664CompileEnd (c : X86Direct σ) : X86Code Unit := do
  let c ← flushDeferredTerminator x c
  let c ← (List.range c.fixups.length).foldlM (lateStub x) c
  c.fixups.forM (bindFixup c)
  patchU32 c.prologuePatchPos ((x.stackSize c.cc + 15) &&& ~~~15)

/-- Values and blocks of a phi. -/
def phiPairs : List LrOperand → List (LrOperand × Nat)
  | val :: pred :: rest => (val, blockIdOf pred) :: phiPairs rest
  | _ => []

def replayPhiCopies (f : LrFunc) (c : X86Direct σ) : X86Direct σ :=
  f.blocks.foldl (fun c b =>
    (b.insts.filter fun inst => inst.op = .phi).foldl (fun c inst =>
      (phiPairs inst.operands).foldl (fun c pair =>
        x8664CompileAddPhiCopy x c pair.2 b.id inst.dest pair.1) c) c) c

def streamInstIsTerminator (inst : LrInst) : Bool :=
  match inst.op with
  | .ret | .retVoid | .br | .condbr | .unreachable => true
  | _ => false

/-- A block without a terminator ends as if it had an UNREACHABLE. -/
def replayBlock (c : X86Direct σ) (b : LrBlock) : X86Code (X86Direct σ) := do
  let c ← x8664CompileSetBlock x c b.id
  let c ← b.insts.foldlM (x8664CompileEmit x) c
  if b.insts.any streamInstIsTerminator then pure c
  else x8664CompileEmit x c (lrInstCreate .unreachable none 0 [])

/-- The calls that `lr_target_compile` makes. -/
def compileFunction (f : LrFunc) : X86Code Unit := do
  let c ← x8664CompileBegin x f
  let c ← f.blocks.foldlM (replayBlock x) (replayPhiCopies x f c)
  x8664CompileEnd x c

end Stream

end Liric.Source.X8664
