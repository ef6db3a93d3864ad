import Liric.Source.Object.Context

/-!
# The static executable writers

Source: src/objfile_elf.c:97-204 (`write_u32_le` to `patch_riscv_jal_vaddr`), 653-964
(`write_elf_executable_x86_64`), 1994-2242 (`write_elf_executable_aarch64`), 2244-2373
(`write_elf_executable_riscv64`).

`none` is the return value -1. Virtual addresses are natural numbers, their
differences integers: no object is larger than `PTRDIFF_MAX` bytes, so the
allocation of a file near the end of the address space fails. A slot of
`got_slot_off` is an option in place of `UINT32_MAX`. The write to the file succeeds.
-/
namespace Liric.Source.Object
open Lib
open Ir (CStr)

def writeU32Le (buf : List UInt8) (off : Nat) (value : BitVec 32) : Option (List UInt8) :=
  if off + 4 > buf.length then none else some (overwrite buf off (leBytes 4 value.toNat))

def writeU64Le (buf : List UInt8) (off value : Nat) : Option (List UInt8) :=
  if off + 8 > buf.length then none else some (overwrite buf off (leBytes 8 value))

def readU32Le (buf : List UInt8) (off : Nat) : BitVec 32 :=
  BitVec.ofNat 32 (leNat (bytesAt buf off 4))

def readU64Le (buf : List UInt8) (off : Nat) : Nat := leNat (bytesAt buf off 8)

def patchRel32Vaddr (buf : List UInt8) (off placeVaddr targetVaddr : Nat) : Option (List UInt8) :=
  let disp : Int := targetVaddr - (placeVaddr + 4)
  if disp < -2 ^ 31 ∨ disp > 2 ^ 31 - 1 then none
  else writeU32Le buf off (BitVec.ofInt 32 disp)

def patchAarch64Branch26Vaddr (buf : List UInt8) (off placeVaddr targetVaddr : Nat) :
    Option (List UInt8) :=
  if off + 4 > buf.length then none
  else
    let imm : Int := ((targetVaddr : Int) - placeVaddr).tdiv 4
    if imm < -2 ^ 25 ∨ imm ≥ 2 ^ 25 then none
    else
      let insn := readU32Le buf off
      writeU32Le buf off ((insn &&& 0xFC000000#32) ||| (BitVec.ofInt 32 imm &&& 0x03FFFFFF#32))

def patchAarch64Page21Vaddr (buf : List UInt8) (off placeVaddr targetVaddr : Nat) :
    Option (List UInt8) :=
  if off + 4 > buf.length then none
  else
    let targetPage := targetVaddr - targetVaddr % 4096
    let placePage := placeVaddr - placeVaddr % 4096
    let pages : Int := ((targetPage : Int) - placePage) / 4096
    if pages < -2 ^ 20 ∨ pages ≥ 2 ^ 20 then none
    else
      let insn := readU32Le buf off &&& ~~~((0x3#32 <<< 29) ||| (0x7FFFF#32 <<< 5))
      let insn := insn ||| ((BitVec.ofInt 32 pages &&& 0x3#32) <<< 29)
      let insn := insn ||| (((BitVec.ofInt 32 pages >>> 2) &&& 0x7FFFF#32) <<< 5)
      writeU32Le buf off insn

def patchAarch64Pageoff12Vaddr (buf : List UInt8) (off targetVaddr : Nat) (gotLoad : Bool) :
    Option (List UInt8) :=
  if off + 4 > buf.length then none
  else
    let imm := targetVaddr % 4096
    if gotLoad && imm % 8 != 0 then none
    else
      let imm := if gotLoad then imm / 8 else imm
      let insn := readU32Le buf off &&& ~~~(0xFFF#32 <<< 10)
      writeU32Le buf off (insn ||| ((BitVec.ofNat 32 imm &&& 0xFFF#32) <<< 10))

def patchRiscvJalVaddr (buf : List UInt8) (off placeVaddr targetVaddr : Nat) :
    Option (List UInt8) :=
  if off + 4 > buf.length then none
  else
    let disp : Int := targetVaddr - placeVaddr
    if disp % 2 ≠ 0 then none
    else if disp < -2 ^ 20 ∨ disp ≥ 2 ^ 20 then none
    else
      let uimm := BitVec.ofInt 32 disp
      let low := readU32Le buf off &&& 0x00000FFF#32
      let high := (((uimm >>> 20) &&& 0x1#32) <<< 31) ||| (((uimm >>> 1) &&& 0x3FF#32) <<< 21) |||
        (((uimm >>> 11) &&& 0x1#32) <<< 20) ||| (((uimm >>> 12) &&& 0xFF#32) <<< 12)
      writeU32Le buf off (low ||| high)

/-- The slots given to symbols so far and the size of the data with them. -/
structure GotPlan where
  gotSlotOff : List (Option Nat)
  dataRuntimeSize : Nat
  deriving DecidableEq

def gotLoop (isGot : UInt8 → Bool) (oc : ObjfileCtx) : List ObjReloc → GotPlan → Option GotPlan
  | [], plan => some plan
  | rel :: rels, plan =>
    if !isGot rel.type then gotLoop isGot oc rels plan
    else if rel.symbolIdx.toNat ≥ oc.symbols.length then none
    else if (plan.gotSlotOff.getD rel.symbolIdx.toNat none).isSome then gotLoop isGot oc rels plan
    else if plan.dataRuntimeSize > 2 ^ 32 - 1 - 8 then none
    else
      gotLoop isGot oc rels
        { gotSlotOff := plan.gotSlotOff.set rel.symbolIdx.toNat (some plan.dataRuntimeSize)
          dataRuntimeSize := plan.dataRuntimeSize + 8 }

def gotPlan (isGot : UInt8 → Bool) (oc : ObjfileCtx) (dataSize : Nat) : Option GotPlan :=
  gotLoop isGot oc oc.relocs
    { gotSlotOff := List.replicate oc.symbols.length none
      dataRuntimeSize := objAlignUp dataSize 8 }

def imageBase : Nat := 0x400000

structure ExecLayout where
  textOff : Nat
  codeOff : Nat
  dataOff : Nat
  totalSize : Nat
  deriving DecidableEq

def execLayout (startStubSize codeSize dataRuntimeSize : Nat) : ExecLayout :=
  let textOff := objAlignUp (64 + 56) 16
  let codeOff := textOff + startStubSize
  let dataOff := objAlignUp (codeOff + codeSize) 16
  { textOff, codeOff, dataOff, totalSize := dataOff + dataRuntimeSize }

def ExecLayout.entryVaddr (l : ExecLayout) : Nat := imageBase + l.textOff
def ExecLayout.codeVaddr (l : ExecLayout) : Nat := imageBase + l.codeOff
def ExecLayout.dataVaddr (l : ExecLayout) : Nat := imageBase + l.dataOff

/-- ELF header and the one program header. -/
def execHeader (eMachine entryVaddr totalSize : Nat) : List UInt8 :=
  [w8 0x7F, w8 0x45, w8 0x4C, w8 0x46, w8 2, w8 1, w8 1, w8 0, w64 0, w16 2, w16 eMachine, w32 1,
    w64 entryVaddr, w64 64, w64 0, w32 0, w16 64, w16 56, w16 1, w16 0, w16 0, w16 0,
    w32 1, w32 7, w64 0, w64 imageBase, w64 imageBase, w64 totalSize, w64 totalSize,
    w64 4096].flatten

def findEntry (oc : ObjfileCtx) (entrySymbol : CStr) : Option ObjSymbol :=
  oc.symbols.find? (fun sym => sym.isDefined && sym.sectionId == 1 && sym.name == entrySymbol)

/-- Code and data while relocations are applied to them. -/
structure Image where
  codeMut : List UInt8
  dataMut : List UInt8
  deriving DecidableEq

/-- The address of a symbol, if it is defined inside its section. -/
def relocTarget (l : ExecLayout) (codeSize dataRuntimeSize : Nat) (sym : ObjSymbol) : Option Nat :=
  if !sym.isDefined then none
  else if sym.sectionId = 1 then
    if sym.offset.toNat ≥ codeSize then none else some (l.codeVaddr + sym.offset.toNat)
  else if sym.sectionId = 2 then
    if sym.offset.toNat ≥ dataRuntimeSize then none else some (l.dataVaddr + sym.offset.toNat)
  else none

/-- One step of the loop over the text relocations: the checks, then the patch of the target. -/
def relocStep (oc : ObjfileCtx) (l : ExecLayout) (codeSize dataRuntimeSize : Nat)
    (patch : ObjReloc → Nat → Nat → Image → Option Image) (img : Image) (rel : ObjReloc) :
    Option Image := do
  let sym ← oc.symbols[rel.symbolIdx.toNat]?
  if rel.offset.toNat + 4 > codeSize then none
  else
    let targetVaddr ← relocTarget l codeSize dataRuntimeSize sym
    patch rel (l.codeVaddr + rel.offset.toNat) targetVaddr img

def patchCode (img : Image) (patched : Option (List UInt8)) : Option Image := do
  let code ← patched
  some { img with codeMut := code }

def patchX8664 (plan : GotPlan) (l : ExecLayout) (rel : ObjReloc) (placeVaddr targetVaddr : Nat)
    (img : Image) : Option Image :=
  if rel.type = lrRelocX8664Pc32 ∨ rel.type = lrRelocX8664Plt32 then
    patchCode img (patchRel32Vaddr img.codeMut rel.offset.toNat placeVaddr targetVaddr)
  else if rel.type = lrRelocX8664Gotpcrel then do
    let slotOff ← plan.gotSlotOff.getD rel.symbolIdx.toNat none
    let data ← writeU64Le img.dataMut slotOff targetVaddr
    patchCode { img with dataMut := data }
      (patchRel32Vaddr img.codeMut rel.offset.toNat placeVaddr (l.dataVaddr + slotOff))
  else if rel.type = lrRelocX866464 then
    patchCode img (writeU64Le img.codeMut rel.offset.toNat targetVaddr)
  else none

def patchAarch64 (plan : GotPlan) (l : ExecLayout) (rel : ObjReloc)
    (placeVaddr targetVaddr : Nat) (img : Image) : Option Image :=
  if rel.type = lrRelocArm64Branch26 then
    patchCode img (patchAarch64Branch26Vaddr img.codeMut rel.offset.toNat placeVaddr targetVaddr)
  else if rel.type = lrRelocArm64Page21 then
    patchCode img (patchAarch64Page21Vaddr img.codeMut rel.offset.toNat placeVaddr targetVaddr)
  else if rel.type = lrRelocArm64Pageoff12 then
    patchCode img (patchAarch64Pageoff12Vaddr img.codeMut rel.offset.toNat targetVaddr false)
  else if rel.type = lrRelocArm64GotLoadPage21 ∨ rel.type = lrRelocArm64GotLoadPageoff12 then do
    let slotOff ← plan.gotSlotOff.getD rel.symbolIdx.toNat none
    let data ← writeU64Le img.dataMut slotOff targetVaddr
    if rel.type = lrRelocArm64GotLoadPage21 then
      patchCode { img with dataMut := data }
        (patchAarch64Page21Vaddr img.codeMut rel.offset.toNat placeVaddr (l.dataVaddr + slotOff))
    else
      patchCode { img with dataMut := data }
        (patchAarch64Pageoff12Vaddr img.codeMut rel.offset.toNat (l.dataVaddr + slotOff) true)
  else none

/-- The address of a symbol of the code or the data. -/
def sectionAddr (codeVaddr dataVaddr : Nat) (sym : ObjSymbol) : Option Nat :=
  if sym.sectionId = 1 then some (codeVaddr + sym.offset.toNat)
  else if sym.sectionId = 2 then some (dataVaddr + sym.offset.toNat)
  else none

/-- One step of the loop over the data relocations: the addend stands in the data. -/
def dataRelocStep (oc : ObjfileCtx) (l : ExecLayout) (dataRuntimeSize : Nat)
    (dataMut : List UInt8) (rel : ObjReloc) : Option (List UInt8) := do
  let sym ← oc.symbols[rel.symbolIdx.toNat]?
  if rel.type ≠ lrRelocX866464 then none
  else if rel.offset.toNat + 8 > dataRuntimeSize then none
  else if !sym.isDefined then none
  else
    let targetVaddr ← sectionAddr l.codeVaddr l.dataVaddr sym
    writeU64Le dataMut rel.offset.toNat (targetVaddr + readU64Le dataMut rel.offset.toNat)

/-- The zeroed file with its parts copied in. -/
def execFile (eMachine : Nat) (l : ExecLayout) (startStub : List UInt8) (img : Image) :
    List UInt8 :=
  writes (wpad l.totalSize)
    [(0, execHeader eMachine l.entryVaddr l.totalSize), (l.textOff, startStub),
      (l.codeOff, img.codeMut), (l.dataOff, img.dataMut)]

/-- `malloc` of the size of an object that cannot exist fails. -/
def allocates (size : Nat) : Bool := size < 2 ^ 63

/-- The user data at the start of the zeroed data. -/
def dataStart (data : List UInt8) (dataRuntimeSize : Nat) : List UInt8 :=
  overwrite (wpad dataRuntimeSize) 0 data

/-- `call entry; mov edi, eax; mov eax, 60; syscall` -/
def startStubLegacy : List UInt8 :=
  [0xE8, 0x00, 0x00, 0x00, 0x00, 0x89, 0xC7, 0xB8, 0x3C, 0x00, 0x00, 0x00, 0x0F, 0x05]

/-- `mov rdi, [rsp]; lea rsi, [rsp+8]; and rsp, -16`, then as above. -/
def startStubMainAbi : List UInt8 :=
  [0x48, 0x8B, 0x3C, 0x24, 0x48, 0x8D, 0x74, 0x24, 0x08, 0x48, 0x83, 0xE4, 0xF0,
    0xE8, 0x00, 0x00, 0x00, 0x00, 0x89, 0xC7, 0xB8, 0x3C, 0x00, 0x00, 0x00, 0x0F, 0x05]

def mainName : CStr := [0x6D, 0x61, 0x69, 0x6E]

def startStubX8664 (entrySymbol : CStr) : List UInt8 :=
  if entrySymbol = mainName then startStubMainAbi else startStubLegacy

def entryCallOff (entrySymbol : CStr) : Nat := if entrySymbol = mainName then 14 else 1

def writeElfExecutableX8664 (code data : List UInt8) (oc : ObjfileCtx) (entrySymbol : CStr) :
    Option (List UInt8) := do
  if entrySymbol = [] then none
  else
    let plan ← gotPlan (fun type => type == lrRelocX8664Gotpcrel) oc data.length
    let l := execLayout (startStubX8664 entrySymbol).length code.length plan.dataRuntimeSize
    let entrySym ← findEntry oc entrySymbol
    if entrySym.offset.toNat ≥ code.length then none
    else if !allocates l.totalSize then none
    else
      let img ← oc.relocs.foldlM
        (relocStep oc l code.length plan.dataRuntimeSize (patchX8664 plan l))
        { codeMut := code, dataMut := dataStart data plan.dataRuntimeSize }
      let dataMut ← oc.dataRelocs.foldlM (dataRelocStep oc l plan.dataRuntimeSize) img.dataMut
      patchRel32Vaddr
        (execFile 62 l (startStubX8664 entrySymbol) { img with dataMut := dataMut })
        (l.textOff + entryCallOff entrySymbol) (l.entryVaddr + entryCallOff entrySymbol)
        (l.codeVaddr + entrySym.offset.toNat)

/-- `bl entry; mov x8, #93; svc #0` -/
def startStubAarch64 : List UInt8 :=
  [0x00, 0x00, 0x00, 0x94, 0xA8, 0x0B, 0x80, 0xD2, 0x01, 0x00, 0x00, 0xD4]

def writeElfExecutableAarch64 (code data : List UInt8) (oc : ObjfileCtx) (entrySymbol : CStr) :
    Option (List UInt8) := do
  if entrySymbol = [] then none
  else if oc.dataRelocs ≠ [] then none
  else
    let plan ← gotPlan
      (fun type => type == lrRelocArm64GotLoadPage21 || type == lrRelocArm64GotLoadPageoff12)
      oc data.length
    let l := execLayout startStubAarch64.length code.length plan.dataRuntimeSize
    let entrySym ← findEntry oc entrySymbol
    if entrySym.offset.toNat ≥ code.length then none
    else if !allocates l.totalSize then none
    else
      let img ← oc.relocs.foldlM
        (relocStep oc l code.length plan.dataRuntimeSize (patchAarch64 plan l))
        { codeMut := code, dataMut := dataStart data plan.dataRuntimeSize }
      patchAarch64Branch26Vaddr (execFile 183 l startStubAarch64 img) l.textOff l.entryVaddr
        (l.codeVaddr + entrySym.offset.toNat)

/-- `jal ra, entry; addi a7, x0, 93; ecall` -/
def startStubRiscv64 : List UInt8 :=
  [0xEF, 0x00, 0x00, 0x00, 0x93, 0x08, 0xD0, 0x05, 0x73, 0x00, 0x00, 0x00]

/-- Relocations of any other type than `LR_RELOC_RISCV64_JAL` are passed over. -/
def riscvRelocStep (oc : ObjfileCtx) (l : ExecLayout) (codeMut : List UInt8) (rel : ObjReloc) :
    Option (List UInt8) :=
  if rel.type ≠ lrRelocRiscv64Jal then some codeMut
  else do
    let sym ← oc.symbols[rel.symbolIdx.toNat]?
    if !sym.isDefined || sym.sectionId != 1 then none
    else
      patchRiscvJalVaddr codeMut rel.offset.toNat (l.codeVaddr + rel.offset.toNat)
        (l.codeVaddr + sym.offset.toNat)

def writeElfExecutableRiscv64 (code data : List UInt8) (oc : ObjfileCtx) (entrySymbol : CStr) :
    Option (List UInt8) := do
  if entrySymbol = [] then none
  else if oc.dataRelocs ≠ [] then none
  else
    let l := execLayout startStubRiscv64.length code.length data.length
    let entrySym ← findEntry oc entrySymbol
    if entrySym.offset.toNat ≥ code.length then none
    else if !allocates l.totalSize then none
    else
      let codeMut ← oc.relocs.foldlM (riscvRelocStep oc l) code
      patchRiscvJalVaddr (execFile 243 l startStubRiscv64 { codeMut := codeMut, dataMut := data })
        l.textOff l.entryVaddr (l.codeVaddr + entrySym.offset.toNat)

end Liric.Source.Object
