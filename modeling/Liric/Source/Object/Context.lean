import Liric.Lib.Buffer
import Liric.Lib.Padding
import Liric.Source.Ir.Symbols

/-!
# Object contexts

Source: src/objfile.h:11-64 (relocation types, `lr_obj_reloc_t`, `lr_obj_symbol_t`,
`lr_objfile_ctx_t`), src/objfile.c:988-1076 (`lr_obj_ensure_symbol`), src/objfile.h:83-90 (mapped
relocations), 118-168 (`w8` to `obj_align_up`), src/objfile_elf.c:206-236 (`elf_reloc_x86_64`).

An object context holds the symbols and relocations that the code generators and
the builder of globals hand to the writers. A counted array is a list, the hash
index over the symbols a search by name, a file offset a natural number: no file
comes near the end of `size_t`.
-/
namespace Liric.Source.Object
open Lib
open Ir (CStr)

def lrRelocArm64Branch26 : UInt8 := 2
def lrRelocArm64Page21 : UInt8 := 3
def lrRelocArm64Pageoff12 : UInt8 := 4
def lrRelocArm64GotLoadPage21 : UInt8 := 5
def lrRelocArm64GotLoadPageoff12 : UInt8 := 6
def lrRelocArm64Abs64 : UInt8 := 7

def lrRelocX8664Pc32 : UInt8 := 20
def lrRelocX8664Plt32 : UInt8 := 21
def lrRelocX8664Gotpcrel : UInt8 := 22
def lrRelocX866464 : UInt8 := 23

def lrRelocRiscv64Jal : UInt8 := 40

structure ObjReloc where
  offset : BitVec 32
  symbolIdx : BitVec 32
  type : UInt8
  deriving DecidableEq

/-- Section 1 is the code, section 2 the data. -/
structure ObjSymbol where
  name : CStr
  hash : BitVec 32
  offset : BitVec 32
  sectionId : UInt8
  isDefined : Bool
  isLocal : Bool
  isWeak : Bool
  deriving DecidableEq

structure ObjfileCtx where
  relocs : List ObjReloc
  dataRelocs : List ObjReloc
  symbols : List ObjSymbol
  deriving DecidableEq

structure RelocMapped where
  nativeType : BitVec 32
  addend : BitVec 64
  isPcrel : Bool
  deriving DecidableEq

/-- The prefixes of names that may be defined in several objects. -/
def weakPrefixes : List CStr :=
  ["__lfortran_module_init_", "_copy_", "_deepcopy_", "_allocate_struct_", "_deallocate_struct_",
    "_Type_Info_", "_VTable_", "__module_file_common_block_", ".ffc."].map
    fun s => s.toList.map fun c => UInt8.ofNat c.toNat

def objSymbolShouldBeWeak (name : CStr) : Bool :=
  weakPrefixes.any fun p => p.isPrefixOf name

/-- The first definition of a symbol stays. -/
def defineSymbol (isDefined : Bool) (sectionId : UInt8) (offset : BitVec 32) (sym : ObjSymbol) :
    ObjSymbol :=
  let sym := if isDefined && objSymbolShouldBeWeak sym.name then { sym with isWeak := true } else sym
  if isDefined && !sym.isDefined then
    { sym with isDefined := true, sectionId := sectionId, offset := offset }
  else sym

/-- The place of the symbol with this name, which is appended if there is none.
`remap` is `remap_intrinsic`, or the identity with `preserve_symbol_names`. -/
def lrObjEnsureSymbol (remap : CStr → CStr) (oc : ObjfileCtx) (name : CStr) (isDefined : Bool)
    (sectionId : UInt8) (offset : BitVec 32) : ObjfileCtx × Nat :=
  let name := remap name
  match oc.symbols.findIdx? (fun sym => sym.name == name) with
  | some i =>
    ({ oc with symbols := oc.symbols.modify i (defineSymbol isDefined sectionId offset) }, i)
  | none =>
    ({ oc with symbols := oc.symbols ++ [{
        name := name
        hash := Ir.symbolHash name
        offset := offset
        sectionId := sectionId
        isDefined := isDefined
        isLocal := false
        isWeak := isDefined && objSymbolShouldBeWeak name }] }, oc.symbols.length)

def lrObjAddReloc (oc : ObjfileCtx) (offset : BitVec 32) (symbolIdx : Nat) (type : UInt8) :
    ObjfileCtx :=
  { oc with relocs := oc.relocs ++ [⟨offset, BitVec.ofNat 32 symbolIdx, type⟩] }

def w8 (v : Nat) : List UInt8 := leBytes 1 v
def w16 (v : Nat) : List UInt8 := leBytes 2 v
def w32 (v : Nat) : List UInt8 := leBytes 4 v
def w64 (v : Nat) : List UInt8 := leBytes 8 v
def wpad (n : Nat) : List UInt8 := List.replicate n 0

def objAlignUp (val alignment : Nat) : Nat := padUp val alignment

def elfRelocX8664 (liricType : UInt8) : RelocMapped :=
  if liricType = lrRelocX8664Pc32 then
    { nativeType := 2, addend := -4, isPcrel := true }
  else if liricType = lrRelocX8664Plt32 then
    { nativeType := 4, addend := -4, isPcrel := true }
  else if liricType = lrRelocX8664Gotpcrel then
    { nativeType := 41, addend := -4, isPcrel := true }
  else if liricType = lrRelocX866464 then
    { nativeType := 1, addend := 0, isPcrel := false }
  else
    { nativeType := 2, addend := 0, isPcrel := true }

end Liric.Source.Object
