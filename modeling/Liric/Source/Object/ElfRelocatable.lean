import Liric.Source.Object.Context

/-!
# The ELF relocatable writer

Source: src/objfile_elf.c:296-651 (`write_elf`).

The file is one zeroed buffer that the parts are copied into. Counts multiplied by
an entry size are cut to 32 bits as in the source, where both factors are 32 bits
wide; offsets are `size_t`. Allocations and the write to the file succeed.
-/
namespace Liric.Source.Object
open Lib
open Ir (CStr)

def chars (cs : List Char) : CStr := cs.map (fun c => UInt8.ofNat c.toNat)

/-- Section name strings; `.rela.data` is appended at the end. -/
def shstrtabContent : List UInt8 :=
  [0] ++ chars ['.', 't', 'e', 'x', 't'] ++ [0] ++ chars ['.', 'd', 'a', 't', 'a'] ++ [0] ++
    chars ['.', 'r', 'e', 'l', 'a', '.', 't', 'e', 'x', 't'] ++ [0] ++
    chars ['.', 's', 'y', 'm', 't', 'a', 'b'] ++ [0] ++
    chars ['.', 's', 't', 'r', 't', 'a', 'b'] ++ [0] ++
    chars ['.', 's', 'h', 's', 't', 'r', 't', 'a', 'b'] ++ [0] ++
    chars ['.', 'r', 'e', 'l', 'a', '.', 'd', 'a', 't', 'a'] ++ [0]

def shNameText : Nat := 1
def shNameData : Nat := 7
def shNameRelaText : Nat := 13
def shNameSymtab : Nat := 24
def shNameStrtab : Nat := 32
def shNameShstrtab : Nat := 40
def shNameRelaData : Nat := 50

structure ElfIndices where
  textShndx : Nat
  dataShndx : Nat
  relaTextShndx : Nat
  relaDataShndx : Nat
  symtabShndx : Nat
  strtabShndx : Nat
  shstrtabShndx : Nat
  numSections : Nat
  deriving DecidableEq

def elfIndices (hasData hasDataRelocs : Bool) : ElfIndices :=
  let relaTextShndx := if hasData then 3 else 2
  let relaDataShndx := if hasDataRelocs then relaTextShndx + 1 else 0
  let symtabShndx := (if hasDataRelocs then relaDataShndx else relaTextShndx) + 1
  { textShndx := 1
    dataShndx := if hasData then 2 else 0
    relaTextShndx
    relaDataShndx
    symtabShndx
    strtabShndx := symtabShndx + 1
    shstrtabShndx := symtabShndx + 2
    numSections := symtabShndx + 3 }

/-- The offset of each name in `.strtab`, and the size of `.strtab` in the end. -/
def strOffsetsLoop : List ObjSymbol → Nat → List Nat × Nat
  | [], strtabSize => ([], strtabSize)
  | sym :: syms, strtabSize =>
    let rest := strOffsetsLoop syms (strtabSize + sym.name.length + 1)
    (strtabSize % 2 ^ 32 :: rest.1, rest.2)

def isLocalDefinition (sym : ObjSymbol) : Bool := sym.isDefined && sym.isLocal

/-- The variables of the loop that orders the symbols, local definitions first. -/
structure SymOrder where
  elfSymIndex : List Nat
  symOrder : List Nat
  nextLocal : Nat
  nextGlobal : Nat
  localPos : Nat
  globalPos : Nat
  deriving DecidableEq

def symOrderLoop : List ObjSymbol → Nat → SymOrder → SymOrder
  | [], _, s => s
  | sym :: syms, i, s =>
    if isLocalDefinition sym then
      symOrderLoop syms (i + 1)
        { s with
          elfSymIndex := s.elfSymIndex ++ [s.nextLocal]
          symOrder := s.symOrder.set s.localPos i
          nextLocal := s.nextLocal + 1
          localPos := s.localPos + 1 }
    else
      symOrderLoop syms (i + 1)
        { s with
          elfSymIndex := s.elfSymIndex ++ [s.nextGlobal]
          symOrder := s.symOrder.set s.globalPos i
          nextGlobal := s.nextGlobal + 1
          globalPos := s.globalPos + 1 }

structure SymbolPlan where
  strOffsets : List Nat
  strtabSize : Nat
  firstGlobal : Nat
  totalSyms : Nat
  elfSymIndex : List Nat
  symOrder : List Nat
  deriving DecidableEq

def symbolPlan (hasData : Bool) (oc : ObjfileCtx) : SymbolPlan :=
  let strs := strOffsetsLoop oc.symbols 1
  let localSyms := oc.symbols.countP isLocalDefinition
  let firstLocal := 1 + (if hasData then 2 else 1)
  let firstGlobal := firstLocal + localSyms
  let order := symOrderLoop oc.symbols 0
    { elfSymIndex := []
      symOrder := List.replicate oc.symbols.length 0
      nextLocal := firstLocal
      nextGlobal := firstGlobal
      localPos := 0
      globalPos := localSyms }
  { strOffsets := strs.1
    strtabSize := strs.2
    firstGlobal
    totalSyms := firstGlobal + (oc.symbols.length - localSyms)
    elfSymIndex := order.elfSymIndex
    symOrder := order.symOrder }

structure ElfLayout where
  textOff : Nat
  dataOff : Nat
  relaTextOff : Nat
  relaTextSize : Nat
  relaDataOff : Nat
  relaDataSize : Nat
  symtabOff : Nat
  symtabSize : Nat
  strtabOff : Nat
  strtabSize : Nat
  shstrtabOff : Nat
  shdrOff : Nat
  totalSize : Nat
  deriving DecidableEq

def elfLayout (codeSize dataSize : Nat) (oc : ObjfileCtx) (plan : SymbolPlan)
    (numSections : Nat) : ElfLayout :=
  let hasData := decide (dataSize > 0)
  let hasDataRelocs := decide (oc.dataRelocs.length > 0)
  let textOff := 64
  let textEnd := textOff + codeSize
  let dataOff := if hasData then objAlignUp textEnd 8 else textEnd
  let dataEnd := dataOff + (if hasData then dataSize else 0)
  let relaTextOff := objAlignUp dataEnd 8
  let relaTextSize := oc.relocs.length * 24 % 2 ^ 32
  let relaTextEnd := relaTextOff + relaTextSize
  let relaDataOff := if hasDataRelocs then objAlignUp relaTextEnd 8 else relaTextEnd
  let relaDataSize := if hasDataRelocs then oc.dataRelocs.length * 24 % 2 ^ 32 else 0
  let relaDataEnd := relaDataOff + relaDataSize
  let symtabOff := objAlignUp relaDataEnd 8
  let symtabSize := plan.totalSyms * 24 % 2 ^ 32
  let strtabOff := symtabOff + symtabSize
  let shstrtabOff := strtabOff + plan.strtabSize
  let shdrOff := objAlignUp (shstrtabOff + shstrtabContent.length) 8
  { textOff, dataOff, relaTextOff, relaTextSize, relaDataOff, relaDataSize, symtabOff, symtabSize
    strtabOff
    strtabSize := plan.strtabSize
    shstrtabOff, shdrOff
    totalSize := shdrOff + numSections * 64 }

def elfHeader (eMachine : BitVec 16) (shdrOff numSections shstrtabShndx : Nat) : List UInt8 :=
  [w8 0x7F, w8 0x45, w8 0x4C, w8 0x46, w8 2, w8 1, w8 1, w8 0, w64 0, w16 1, w16 eMachine.toNat,
    w32 1, w64 0, w64 0, w64 shdrOff, w32 0, w16 64, w16 0, w16 0, w16 64, w16 numSections,
    w16 shstrtabShndx].flatten

/-- `ELF64_R_INFO` has the type in its low half and the symbol in its high half. -/
def elfRela (relocMapper : UInt8 → RelocMapped) (elfSymIndex : List Nat) (r : ObjReloc) :
    List UInt8 :=
  let mapped := relocMapper r.type
  let elfSym := elfSymIndex.getD r.symbolIdx.toNat 0
  [w64 r.offset.toNat, w32 mapped.nativeType.toNat, w32 elfSym, w64 mapped.addend.toNat].flatten

def elfSectionSym (shndx : Nat) : List UInt8 :=
  [w32 0, w8 (0 * 16 + 3), w8 0, w16 shndx, w64 0, w64 0].flatten

def symBind (sym : ObjSymbol) : Nat :=
  if sym.isDefined && sym.isLocal then 0 else if sym.isWeak then 2 else 1

def symType (sym : ObjSymbol) : Nat :=
  if sym.isDefined && sym.sectionId == 1 then 2 else 0

def symShndx (ix : ElfIndices) (sym : ObjSymbol) : Nat :=
  if sym.isDefined then (if sym.sectionId == 1 then ix.textShndx else ix.dataShndx) else 0

def symValue (sym : ObjSymbol) : Nat := if sym.isDefined then sym.offset.toNat else 0

def elfSym (ix : ElfIndices) (strOffset : Nat) (sym : ObjSymbol) : List UInt8 :=
  [w32 strOffset, w8 (symBind sym * 16 + symType sym), w8 0, w16 (symShndx ix sym),
    w64 (symValue sym), w64 0].flatten

def emptySymbol : ObjSymbol :=
  { name := [], hash := 0, offset := 0, sectionId := 0, isDefined := false, isLocal := false
    isWeak := false }

/-- The row of `.symtab` for the `i`-th symbol of the context. -/
def elfSymRow (ix : ElfIndices) (plan : SymbolPlan) (oc : ObjfileCtx) (i : Nat) : List UInt8 :=
  elfSym ix (plan.strOffsets.getD i 0) (oc.symbols.getD i emptySymbol)

def elfSectionHeader (name type flags offset size link info addralign entsize : Nat) : List UInt8 :=
  [w32 name, w32 type, w64 flags, w64 0, w64 offset, w64 size, w32 link, w32 info, w64 addralign,
    w64 entsize].flatten

def elfSectionHeaders (ix : ElfIndices) (l : ElfLayout) (plan : SymbolPlan)
    (codeSize dataSize : Nat) (hasData hasDataRelocs : Bool) : List (List UInt8) :=
  [elfSectionHeader shNameText 1 6 l.textOff codeSize 0 0 16 0] ++
  (if hasData then [elfSectionHeader shNameData 1 3 l.dataOff dataSize 0 0 8 0] else []) ++
  [elfSectionHeader shNameRelaText 4 0x40 l.relaTextOff l.relaTextSize ix.symtabShndx
    ix.textShndx 8 24] ++
  (if hasDataRelocs then
    [elfSectionHeader shNameRelaData 4 0x40 l.relaDataOff l.relaDataSize ix.symtabShndx
      ix.dataShndx 8 24]
  else []) ++
  [elfSectionHeader shNameSymtab 2 0 l.symtabOff l.symtabSize ix.strtabShndx plan.firstGlobal 8 24,
    elfSectionHeader shNameStrtab 3 0 l.strtabOff l.strtabSize 0 0 1 0,
    elfSectionHeader shNameShstrtab 3 0 l.shstrtabOff shstrtabContent.length 0 0 1 0]

/-- What is copied into the buffer, in the order of the source. -/
def elfParts (code data : List UInt8) (oc : ObjfileCtx) (eMachine : BitVec 16)
    (relocMapper : UInt8 → RelocMapped) : List (Nat × List UInt8) :=
  let hasData := decide (data.length > 0)
  let hasDataRelocs := decide (oc.dataRelocs.length > 0)
  let ix := elfIndices hasData hasDataRelocs
  let plan := symbolPlan hasData oc
  let l := elfLayout code.length data.length oc plan ix.numSections
  [(0, elfHeader eMachine l.shdrOff ix.numSections ix.shstrtabShndx), (l.textOff, code)] ++
  (if hasData then [(l.dataOff, data)] else []) ++
  [(l.relaTextOff, oc.relocs.flatMap (elfRela relocMapper plan.elfSymIndex))] ++
  (if hasDataRelocs then
    [(l.relaDataOff, oc.dataRelocs.flatMap (elfRela relocMapper plan.elfSymIndex))]
  else []) ++
  [(l.symtabOff + 24, elfSectionSym ix.textShndx ++
      (if hasData then elfSectionSym ix.dataShndx else []) ++
      plan.symOrder.flatMap (elfSymRow ix plan oc)),
    (l.strtabOff, [0] ++ oc.symbols.flatMap (fun sym => sym.name ++ [0])),
    (l.shstrtabOff, shstrtabContent),
    (l.shdrOff + 64,
      (elfSectionHeaders ix l plan code.length data.length hasData hasDataRelocs).flatten)]

def writeElf (code data : List UInt8) (oc : ObjfileCtx) (eMachine : BitVec 16)
    (relocMapper : UInt8 → RelocMapped) : List UInt8 :=
  let hasData := decide (data.length > 0)
  let hasDataRelocs := decide (oc.dataRelocs.length > 0)
  let ix := elfIndices hasData hasDataRelocs
  let plan := symbolPlan hasData oc
  let l := elfLayout code.length data.length oc plan ix.numSections
  writes (wpad l.totalSize) (elfParts code data oc eMachine relocMapper)

end Liric.Source.Object
