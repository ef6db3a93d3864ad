import Liric.Source.Object.ElfExecutable

/-!
# Layout of the dynamic executable

Source: src/objfile_elf.c:1012-1067 (constants of `write_elf_dynamic_executable_x86_64`),
1069-1158 (its imports), 1159-1198 (sizes of the sections), 1200-1329 (layout and virtual
addresses), 1467-1490 and 1563-1577 (addresses of symbols).

Only what the addresses of the parts depend on: the bytes of the parts are left out.
Counts are natural numbers; `.hash` alone is measured in 32 bits before it is widened.
-/
namespace Liric.Source.Object
open Lib
open Ir (CStr)

def exitName : CStr := [0x65, 0x78, 0x69, 0x74]
def fflushName : CStr := [0x66, 0x66, 0x6C, 0x75, 0x73, 0x68]

/-- The helpers of compiler-rt for complex numbers. -/
def libgccNames : List CStr :=
  ["__muldc3", "__mulsc3", "__mulxc3", "__divdc3", "__divsc3", "__divxc3"].map
    fun s => s.toList.map fun c => UInt8.ofNat c.toNat

def unwindPrefix : CStr := "_Unwind_".toList.map fun c => UInt8.ofNat c.toNat

def isUndefined (oc : ObjfileCtx) (i : Nat) : Bool :=
  oc.symbols[i]?.any fun sym => !sym.isDefined

/-- `undef_needed`: the undefined symbols that a relocation of the code refers to. -/
def undefNeeded (oc : ObjfileCtx) (i : Nat) : Bool :=
  isUndefined oc i && oc.relocs.any fun rel => rel.symbolIdx.toNat == i

def neededNames (oc : ObjfileCtx) : List CStr :=
  (List.range oc.symbols.length).filterMap fun i =>
    if undefNeeded oc i then oc.symbols[i]?.map (·.name) else none

/-- `dyn_names`: what is imported. The start code calls `exit` and `fflush`. -/
def dynNames (oc : ObjfileCtx) : List CStr :=
  neededNames oc ++ (if (neededNames oc).contains exitName then [] else [exitName]) ++
    (if (neededNames oc).contains fflushName then [] else [fflushName])

def numTextrelAbs64 (oc : ObjfileCtx) : Nat :=
  (oc.relocs.filter fun rel =>
    isUndefined oc rel.symbolIdx.toNat && rel.type == lrRelocX866464).length

def needsLibgcc (oc : ObjfileCtx) : Bool :=
  (dynNames oc).any fun name => libgccNames.contains name || unwindPrefix.isPrefixOf name

/-- The leading NUL and the names, each with its own; `libc.so.6` and `libm.so.6` have 10
bytes, `libgcc_s.so.1` has 14. -/
def dynstrSize (oc : ObjfileCtx) : Nat :=
  1 + 10 + 10 + (if needsLibgcc oc then 14 else 0) +
    ((dynNames oc).map fun name => name.length + 1).sum

/-- The slots of symbols that are defined here, by the loop over the relocations. -/
def intGotLoop (oc : ObjfileCtx) : List ObjReloc → List (Option Nat) → Nat →
    List (Option Nat) × Nat
  | [], slots, extraGotSize => (slots, extraGotSize)
  | rel :: rels, slots, extraGotSize =>
    if rel.type ≠ lrRelocX8664Gotpcrel ∨ rel.symbolIdx.toNat ≥ oc.symbols.length ∨
        isUndefined oc rel.symbolIdx.toNat ∨ (slots.getD rel.symbolIdx.toNat none).isSome then
      intGotLoop oc rels slots extraGotSize
    else
      intGotLoop oc rels (slots.set rel.symbolIdx.toNat (some extraGotSize)) (extraGotSize + 8)

def extraGotSize (oc : ObjfileCtx) : Nat :=
  (intGotLoop oc oc.relocs (List.replicate oc.symbols.length none) 0).2

/-- The start code ends in calls of `fflush` and `exit`: 22 bytes, and 13 more before them where
the entry takes the arguments of `main`. -/
def startStubSizeDynamic (entrySymbol : CStr) : Nat := if entrySymbol = mainName then 35 else 22

structure DynamicLayout where
  textOff : Nat
  codeOff : Nat
  trampOff : Nat
  dataSegOff : Nat
  gotOff : Nat
  userDataOff : Nat
  dynamicOff : Nat
  dataSegEnd : Nat
  deriving DecidableEq

def dynamicLayout (codeSize dataSize : Nat) (oc : ObjfileCtx) (entrySymbol : CStr) :
    DynamicLayout :=
  let numDynimport := (dynNames oc).length
  let interpEnd := objAlignUp (64 + 4 * 56) 1 + 28
  let dynsymCount := 1 + numDynimport
  let nbucket := if numDynimport > 0 then numDynimport else 1
  let hashEnd := objAlignUp interpEnd 4 + (2 + nbucket + dynsymCount) * 4 % 2 ^ 32
  let dynstrOff := objAlignUp hashEnd 8 + dynsymCount * 24
  let textOff := objAlignUp (dynstrOff + dynstrSize oc) 16
  let codeOff := textOff + startStubSizeDynamic entrySymbol
  let trampOff := codeOff + codeSize
  let dataSegOff := objAlignUp (trampOff + numDynimport * 6) 0x1000
  let gotOff := objAlignUp (dataSegOff + (numDynimport + numTextrelAbs64 oc) * 24) 8
  let userDataOff := objAlignUp (gotOff + numDynimport * 8 + extraGotSize oc) 8
  let dynamicOff := objAlignUp (userDataOff + dataSize) 8
  let numDynamicEntries :=
    (if numTextrelAbs64 oc > 0 then 15 else 14) + if needsLibgcc oc then 1 else 0
  { textOff, codeOff, trampOff, dataSegOff, gotOff, userDataOff, dynamicOff
    dataSegEnd := dynamicOff + numDynamicEntries * 16 }

def DynamicLayout.codeVaddr (l : DynamicLayout) : Nat := imageBase + l.codeOff
def DynamicLayout.userDataVaddr (l : DynamicLayout) : Nat := imageBase + l.userDataOff

end Liric.Source.Object
