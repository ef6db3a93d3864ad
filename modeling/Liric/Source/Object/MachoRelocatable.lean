import Liric.Source.Object.ElfRelocatable

/-!
# The Mach-O relocatable writer

Source: src/objfile_macho.c:3-48 (constants), 156-182 (`macho_reloc_arm64`,
`macho_reloc_length`), 184-462 (`write_macho`).

As for ELF the file is one zeroed buffer that the parts are copied into. Header and load
commands are written one behind the other and make one part. Counts multiplied by an
entry size are cut to 32 bits, where both factors are 32 bits wide, and so is every
offset that goes into a field of 32 bits.
-/
namespace Liric.Source.Object
open Lib
open Ir (CStr)

def mhMagic64 : Nat := 0xFEEDFACF
def mhObject : Nat := 1
def cpuSubtypeAll : Nat := 0
def mhSubsectionsViaSymbols : Nat := 0x2000
def lcSegment64 : Nat := 0x19
def lcSymtab : Nat := 0x02
def lcBuildVersion : Nat := 0x32
def sRegular : Nat := 0
def sAttrPureInstructions : Nat := 0x80000000
def sAttrSomeInstructions : Nat := 0x400
def nExt : Nat := 0x1
def nSect : Nat := 0xE
def nWeakDef : Nat := 0x80
def platformMacos : Nat := 1

def machoRelocArm64 (liricType : UInt8) : RelocMapped :=
  if liricType = lrRelocArm64Abs64 then
    { nativeType := 0, addend := 0, isPcrel := false }
  else if liricType = lrRelocArm64Branch26 ∨ liricType = lrRelocArm64Page21 ∨
      liricType = lrRelocArm64GotLoadPage21 then
    { nativeType := BitVec.ofNat 32 liricType.toNat, addend := 0, isPcrel := true }
  else
    { nativeType := BitVec.ofNat 32 liricType.toNat, addend := 0, isPcrel := false }

def machoRelocLength (liricType : UInt8) : BitVec 32 :=
  if liricType = lrRelocArm64Abs64 then 3 else 2

/-- The second word of a `relocation_info`; the symbol number is always an external one. -/
def machoPacked (mappedSym : BitVec 32) (mapped : RelocMapped) (length : BitVec 32) : BitVec 32 :=
  let pcrel : BitVec 32 := if mapped.isPcrel then 1 else 0
  (mappedSym &&& 0x00FFFFFF) ||| (pcrel <<< 24) ||| (length <<< 25) ||| (1#32 <<< 27) |||
    ((mapped.nativeType &&& 0xF) <<< 28)

def machoReloc (relocMapper : UInt8 → RelocMapped) (symRemap : List Nat) (r : ObjReloc) :
    List UInt8 :=
  let mappedSym := BitVec.ofNat 32 (symRemap.getD r.symbolIdx.toNat 0)
  [w32 r.offset.toNat,
    w32 (machoPacked mappedSym (relocMapper r.type) (machoRelocLength r.type)).toNat].flatten

/-- The variables of the loop that orders the symbols, definitions first. -/
structure MachoOrder where
  symRemap : List Nat
  symOrder : List Nat
  di : Nat
  ui : Nat
  deriving DecidableEq

def machoOrderLoop : List ObjSymbol → Nat → MachoOrder → MachoOrder
  | [], _, s => s
  | sym :: syms, i, s =>
    if sym.isDefined then
      machoOrderLoop syms (i + 1)
        { s with symRemap := s.symRemap ++ [s.di], symOrder := s.symOrder.set s.di i, di := s.di + 1 }
    else
      machoOrderLoop syms (i + 1)
        { s with symRemap := s.symRemap ++ [s.ui], symOrder := s.symOrder.set s.ui i, ui := s.ui + 1 }

def machoOrder (oc : ObjfileCtx) : MachoOrder :=
  let nDefined := oc.symbols.countP (·.isDefined)
  machoOrderLoop oc.symbols 0
    { symRemap := []
      symOrder := List.replicate oc.symbols.length 0
      di := 0
      ui := nDefined }

/-- The offset of each name in the string table, and the size of the table in the end. -/
def machoStrOffsetsLoop : List ObjSymbol → Nat → List Nat × Nat
  | [], strtabSize => ([], strtabSize)
  | sym :: syms, strtabSize =>
    let rest := machoStrOffsetsLoop syms (strtabSize + (1 + sym.name.length + 1))
    (strtabSize % 2 ^ 32 :: rest.1, rest.2)

/-- Every name with an underscore before it. -/
def machoStrtab (oc : ObjfileCtx) : List UInt8 :=
  [0] ++ oc.symbols.flatMap (fun sym => 0x5F :: sym.name ++ [0])

structure MachoLayout where
  numSections : Nat
  segmentCmdSize : Nat
  sizeofcmds : Nat
  textFileOff : Nat
  dataFileOff : Nat
  dataPad : Nat
  dataVmaddr : Nat
  textRelocOff : Nat
  dataRelocOff : Nat
  symtabOff : Nat
  strtabOff : Nat
  strtabSize : Nat
  totalSize : Nat
  deriving DecidableEq

def machoLayout (codeSize dataSize : Nat) (oc : ObjfileCtx) : MachoLayout :=
  let hasData := decide (dataSize > 0)
  let numSections := if hasData then 2 else 1
  let headerSize := 32
  let segmentCmdSize := 72 + 80 * numSections
  let symtabCmdSize := 24
  let buildVersionCmdSize := 24
  let sizeofcmds := segmentCmdSize + symtabCmdSize + buildVersionCmdSize
  let textFileOff := headerSize + sizeofcmds
  let dataFileOff := objAlignUp (textFileOff + codeSize) 8
  let textRelocOff := dataFileOff + (if hasData then dataSize else 0)
  let textRelocSize := oc.relocs.length * 8 % 2 ^ 32
  let dataRelocOff := textRelocOff + textRelocSize
  let dataRelocSize := oc.dataRelocs.length * 8 % 2 ^ 32
  let symtabOff := dataRelocOff + dataRelocSize
  let strtabOff := symtabOff + oc.symbols.length * 16 % 2 ^ 32
  let strtabSize := (machoStrOffsetsLoop oc.symbols 1).2
  { numSections, segmentCmdSize, sizeofcmds, textFileOff, dataFileOff
    dataPad := dataFileOff - (textFileOff + codeSize)
    dataVmaddr := if hasData then objAlignUp codeSize 8 else 0
    textRelocOff, dataRelocOff, symtabOff, strtabOff, strtabSize
    totalSize := strtabOff + strtabSize }

/-- A name copied into a zeroed field of 16 bytes. -/
def machoName (name : CStr) : List UInt8 := (name ++ wpad 16).take 16

def machoHeader (cpuType : BitVec 32) (l : MachoLayout) : List UInt8 :=
  [w32 mhMagic64, w32 cpuType.toNat, w32 cpuSubtypeAll, w32 mhObject, w32 3, w32 l.sizeofcmds,
    w32 mhSubsectionsViaSymbols, w32 0].flatten

def machoSegmentCommand (l : MachoLayout) (codeSize dataSize : Nat) (hasData : Bool) : List UInt8 :=
  [w32 lcSegment64, w32 l.segmentCmdSize, wpad 16, w64 0,
    w64 (if hasData then l.dataVmaddr + dataSize else codeSize), w64 l.textFileOff,
    w64 (codeSize + (if hasData then l.dataPad + dataSize else 0)), w32 7, w32 7, w32 l.numSections,
    w32 0].flatten

def machoSection (sectname segname : CStr) (addr size offset align reloff nreloc flags : Nat) :
    List UInt8 :=
  machoName sectname ++ machoName segname ++
    [w64 addr, w64 size, w32 offset, w32 align, w32 reloff, w32 nreloc, w32 flags, w32 0, w32 0,
      w32 0].flatten

def machoSections (l : MachoLayout) (codeSize dataSize : Nat) (hasData : Bool) (oc : ObjfileCtx) :
    List (List UInt8) :=
  [machoSection (chars ['_', '_', 't', 'e', 'x', 't']) (chars ['_', '_', 'T', 'E', 'X', 'T']) 0
    codeSize l.textFileOff 2 l.textRelocOff oc.relocs.length
    (sRegular ||| sAttrPureInstructions ||| sAttrSomeInstructions)] ++
  (if hasData then
    [machoSection (chars ['_', '_', 'd', 'a', 't', 'a']) (chars ['_', '_', 'D', 'A', 'T', 'A'])
      l.dataVmaddr dataSize l.dataFileOff 3
      (if oc.dataRelocs.length > 0 then l.dataRelocOff else 0) oc.dataRelocs.length sRegular]
  else [])

def machoSymtabCommand (l : MachoLayout) (oc : ObjfileCtx) : List UInt8 :=
  [w32 lcSymtab, w32 24, w32 l.symtabOff, w32 oc.symbols.length, w32 l.strtabOff,
    w32 l.strtabSize].flatten

def machoBuildVersionCommand : List UInt8 :=
  [w32 lcBuildVersion, w32 24, w32 platformMacos, w32 (14 <<< 16), w32 (14 <<< 16), w32 0].flatten

/-- The header and the load commands. -/
def machoCommands (l : MachoLayout) (codeSize dataSize : Nat) (oc : ObjfileCtx)
    (cpuType : BitVec 32) : List UInt8 :=
  let hasData := decide (dataSize > 0)
  machoHeader cpuType l ++ machoSegmentCommand l codeSize dataSize hasData ++
    (machoSections l codeSize dataSize hasData oc).flatten ++ machoSymtabCommand l oc ++
    machoBuildVersionCommand

def machoSymType (sym : ObjSymbol) : Nat :=
  if sym.isDefined then (if sym.isLocal then nSect else nSect ||| nExt) else nExt

def machoSymDesc (sym : ObjSymbol) : Nat :=
  if sym.isDefined && !sym.isLocal && sym.isWeak then nWeakDef else 0

def machoSymValue (dataVmaddr : Nat) (sym : ObjSymbol) : Nat :=
  if sym.isDefined then sym.offset.toNat + (if sym.sectionId == 2 then dataVmaddr else 0) else 0

/-- The `nlist_64` of a symbol. -/
def machoSym (dataVmaddr strOffset : Nat) (sym : ObjSymbol) : List UInt8 :=
  [w32 strOffset, w8 (machoSymType sym), w8 (if sym.isDefined then sym.sectionId.toNat else 0),
    w16 (machoSymDesc sym), w64 (machoSymValue dataVmaddr sym)].flatten

/-- The row of the symbol table for the `i`-th symbol of the context. -/
def machoSymRow (dataVmaddr : Nat) (strOffsets : List Nat) (oc : ObjfileCtx) (i : Nat) :
    List UInt8 :=
  machoSym dataVmaddr (strOffsets.getD i 0) (oc.symbols.getD i emptySymbol)

/-- What is copied into the buffer, in the order of the source. -/
def machoParts (code data : List UInt8) (oc : ObjfileCtx) (cpuType : BitVec 32)
    (relocMapper : UInt8 → RelocMapped) : List (Nat × List UInt8) :=
  let hasData := decide (data.length > 0)
  let order := machoOrder oc
  let strOffsets := (machoStrOffsetsLoop oc.symbols 1).1
  let l := machoLayout code.length data.length oc
  [(0, machoCommands l code.length data.length oc cpuType), (l.textFileOff, code)] ++
  (if hasData then [(l.dataFileOff, data)] else []) ++
  [(l.textRelocOff, oc.relocs.flatMap (machoReloc relocMapper order.symRemap)),
    (l.dataRelocOff, oc.dataRelocs.flatMap (machoReloc relocMapper order.symRemap)),
    (l.symtabOff, order.symOrder.flatMap (machoSymRow l.dataVmaddr strOffsets oc)),
    (l.strtabOff, machoStrtab oc)]

def writeMacho (code data : List UInt8) (oc : ObjfileCtx) (cpuType : BitVec 32)
    (relocMapper : UInt8 → RelocMapped) : List UInt8 :=
  writes (wpad (machoLayout code.length data.length oc).totalSize)
    (machoParts code data oc cpuType relocMapper)

end Liric.Source.Object
