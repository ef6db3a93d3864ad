import Liric.Source.Jit.Patching
import Liric.Source.Jit.Symbols

/-!
# Relocations of the JIT

Source: src/jit.c:1794-1872 (`write_u32` to `alloc_got_slot`), 1874-2034 (`apply_jit_relocs`).

A written relocation is kept as a `Patch`, so the patch functions are the
conditions under which they write. The buffers lie below `2 ^ 63`: distances
between addresses are those of the numbers.
-/
namespace Liric.Source.Jit
open Ir Object
open Lib (padUp)

/-- How many bytes a relocation of this type writes. -/
def patchWidth (type : UInt8) : Nat :=
  if type = lrRelocX866464 ∨ type = lrRelocArm64Abs64 then 8 else 4

def patchX86Rel32 (place target : Nat) : Bool :=
  let disp : Int := (target : Int) - ((place + 4 : Nat) : Int)
  decide (-(2 ^ 31 : Int) ≤ disp ∧ disp ≤ 2 ^ 31 - 1)

def patchAarch64Branch26 (place target : Nat) : Bool :=
  let imm : Int := ((target : Int) - (place : Int)).tdiv 4
  decide (-(2 ^ 25 : Int) ≤ imm ∧ imm < 2 ^ 25)

def patchAarch64Page21 (place target : Nat) : Bool :=
  let pages : Int := ((target / 4096 : Nat) : Int) - ((place / 4096 : Nat) : Int)
  decide (-(2 ^ 20 : Int) ≤ pages ∧ pages < 2 ^ 20)

def patchAarch64Pageoff12 (target : Nat) (gotLoad : Bool) : Bool :=
  !gotLoad || target % 8 == 0

/-- The switch over the relocation types; an unknown type fails. -/
def patchable (type : UInt8) (place target : Nat) : Bool :=
  if type = lrRelocX8664Pc32 ∨ type = lrRelocX8664Plt32 ∨ type = lrRelocX8664Gotpcrel then
    patchX86Rel32 place target
  else if type = lrRelocX866464 ∨ type = lrRelocArm64Abs64 then true
  else if type = lrRelocArm64Branch26 then patchAarch64Branch26 place target
  else if type = lrRelocArm64Page21 ∨ type = lrRelocArm64GotLoadPage21 then
    patchAarch64Page21 place target
  else if type = lrRelocArm64Pageoff12 then patchAarch64Pageoff12 target false
  else if type = lrRelocArm64GotLoadPageoff12 then patchAarch64Pageoff12 target true
  else false

/-- The same switch over the bytes of the code. -/
def patchReloc (code : Patching.CodeBuf) (type : UInt8) (off : BitVec 32) (target : BitVec 64) :
    Int × Patching.CodeBuf :=
  if type = lrRelocX8664Pc32 ∨ type = lrRelocX8664Plt32 ∨ type = lrRelocX8664Gotpcrel then
    Patching.patchX86Rel32 code off target
  else if type = lrRelocX866464 ∨ type = lrRelocArm64Abs64 then Patching.writeU64 code off target
  else if type = lrRelocArm64Branch26 then Patching.patchAarch64Branch26 code off target
  else if type = lrRelocArm64Page21 ∨ type = lrRelocArm64GotLoadPage21 then
    Patching.patchAarch64Page21 code off target
  else if type = lrRelocArm64Pageoff12 then Patching.patchAarch64Pageoff12 code off target false
  else if type = lrRelocArm64GotLoadPageoff12 then
    Patching.patchAarch64Pageoff12 code off target true
  else (-1, code)

/-- The types that go through a slot of the data buffer. -/
def isGotReloc (type : UInt8) : Bool :=
  type == lrRelocX8664Gotpcrel || type == lrRelocArm64GotLoadPage21 ||
    type == lrRelocArm64GotLoadPageoff12

def allocGotSlot (j : LrJit) : Option (LrJit × Nat) :=
  let off := padUp j.dataSize 8
  if off + 8 > j.dataCap then none
  else
    some ({ j with dataSize := off + 8, dataRanges := j.dataRanges ++ [⟨[], off, 8⟩] },
      j.dataBuf + off)

/-- The arrays over the symbols of the context that live as long as one call:
`resolved_targets` with `resolved_mask`, and `got_slots`. -/
structure RelocScratch where
  resolved : List (Nat × Nat) := []
  gotSlots : List (Nat × Nat) := []

/-- Why the loop stopped: the return value is `-1` and `*missing_symbol` is this. -/
inductive RelocFailure where
  | missing (symbol : CStr)
  | hard
  deriving DecidableEq

/-- The target of a symbol: a function of the context itself, or a lookup. -/
def resolveRelocTarget (host : Host) (j : LrJit) (sym : ObjSymbol) :
    Except RelocFailure (LrJit × Nat) :=
  if sym.isDefined && sym.sectionId == 1 then
    if sym.offset.toNat ≥ j.codeSize then .error .hard
    else .ok (j, j.codeBuf + sym.offset.toNat)
  else if sym.name = [] then .error .hard
  else .ok (lookupSymbolHashed host j sym.name)

/-- The target from `resolved_targets`, or resolved now and remembered. -/
def relocTarget (host : Host) (j : LrJit) (scratch : RelocScratch) (idx : Nat) (sym : ObjSymbol) :
    Except RelocFailure (LrJit × RelocScratch × Nat) :=
  match scratch.resolved.lookup idx with
  | some target => .ok (j, scratch, target)
  | none => do
    let (j, target) ← resolveRelocTarget host j sym
    return (j, { scratch with resolved := (idx, target) :: scratch.resolved }, target)

/-- The slot of the symbol for a type that needs one. -/
def relocSlot (j : LrJit) (scratch : RelocScratch) (idx : Nat) (type : UInt8) :
    Option (LrJit × RelocScratch × Option Nat) :=
  if isGotReloc type then
    match scratch.gotSlots.lookup idx with
    | some slot => some (j, scratch, some slot)
    | none => do
      let (j, slot) ← allocGotSlot j
      return (j, { scratch with gotSlots := (idx, slot) :: scratch.gotSlots }, some slot)
  else some (j, scratch, none)

/-- The switch: the relocation is written, or the patch function refuses it. -/
def writePatch (j : LrJit) (rel : ObjReloc) (target : Nat) (slot : Option Nat) : Option LrJit :=
  let offset := rel.offset.toNat
  if patchable rel.type (j.codeBuf + offset) (slot.getD target) ∧
      offset + patchWidth rel.type ≤ j.codeSize then
    some { j with patches := j.patches ++ [⟨offset, rel.type, target, slot⟩] }
  else none

/-- One turn of the loop. A state reached before a failure is kept. -/
def applyJitReloc (host : Host) (symbols : List ObjSymbol) (j : LrJit) (scratch : RelocScratch)
    (rel : ObjReloc) : LrJit × Except RelocFailure RelocScratch :=
  let idx := rel.symbolIdx.toNat
  match symbols[idx]? with
  | none => (j, .error .hard)
  | some sym =>
    match relocTarget host j scratch idx sym with
    | .error e => (j, .error e)
    | .ok (j, scratch, target) =>
      if target = 0 then (j, .error (.missing sym.name))
      else
        match relocSlot j scratch idx rel.type with
        | none => (j, .error .hard)
        | some (j, scratch, slot) =>
          match writePatch j rel target slot with
          | some j => (j, .ok scratch)
          | none => (j, .error (if sym.name = [] then .hard else .missing sym.name))

def applyJitRelocsLoop (host : Host) (symbols : List ObjSymbol) :
    LrJit → RelocScratch → List ObjReloc → LrJit × Option RelocFailure
  | j, _, [] => (j, none)
  | j, scratch, rel :: rest =>
    match applyJitReloc host symbols j scratch rel with
    | (j, .ok scratch) => applyJitRelocsLoop host symbols j scratch rest
    | (j, .error e) => (j, some e)

/-- The failure is `none` when the function returns 0. -/
def applyJitRelocs (host : Host) (j : LrJit) (ctx : ObjfileCtx) (relocStart : Nat) :
    LrJit × Option RelocFailure :=
  if relocStart > ctx.relocs.length then (j, some .hard)
  else applyJitRelocsLoop host ctx.symbols j {} (ctx.relocs.drop relocStart)

end Liric.Source.Jit
