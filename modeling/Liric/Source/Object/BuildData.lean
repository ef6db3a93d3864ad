import Liric.Source.Ir.Module
import Liric.Source.Object.Context

/-!
# Globals of an object

Source: src/objfile.c:31-87 (`obj_grow_buffer`, `obj_ensure_data_capacity`,
`obj_build_result_init`), 1370-1388 (`lr_obj_add_data_reloc`), 1554-1626 (the globals of
`obj_build_module`), 1800-1884 (the same loop in `obj_build_from_blobs`, which resolves the names
of relocations first).

`none` is the return value -1. The data buffer is the map from its offsets to its bytes, those
from `dataCap` on are not part of it. `data_pos` and the sizes and alignments of types are
`size_t` and wrap. Allocations succeed.
-/
namespace Liric.Source.Object
open Lib Ir

/-- What the data part of `lr_obj_build_result_t` holds, with the code bytes up to
`code_pos` and the context. -/
structure ObjBuildResult where
  code : List UInt8 := []
  dataBuf : Nat → UInt8 := fun _ => 0
  dataCap : Nat
  dataPos : SizeT := 0
  hasData : Bool := false
  ctx : ObjfileCtx

def objInitialDataBufCap : Nat := 64 * 1024

/-- `obj_build_result_init`. -/
def objBuildResultInit : ObjBuildResult :=
  { dataCap := objInitialDataBufCap, ctx := { relocs := [], dataRelocs := [], symbols := [] } }

/-- The data that the writers are given. -/
def ObjBuildResult.data (out : ObjBuildResult) : List UInt8 :=
  if out.hasData then (List.range out.dataPos.toNat).map out.dataBuf else []

/-- The doubling loop of `obj_grow_buffer`. A need of 32 bits is met after so many doublings. -/
def doubleCap (need : Nat) : Nat → Nat → Nat
  | 0, newCap => newCap
  | fuel + 1, newCap => if newCap < need then doubleCap need fuel (newCap * 2) else newCap

def objGrowBuffer (cap need : Nat) : Option Nat :=
  if need ≤ cap then some cap
  else if need > 2 ^ 32 - 1 then none
  else some (doubleCap need 32 (if cap > 0 then cap else 4096))

def objEnsureDataCapacity (out : ObjBuildResult) (need : SizeT) : Option ObjBuildResult := do
  let cap ← objGrowBuffer out.dataCap need.toNat
  some { out with dataCap := cap }

/-- `memcpy` into the data buffer. -/
def copyData (out : ObjBuildResult) (off : SizeT) (bs : List UInt8) : ObjBuildResult :=
  { out with dataBuf := fun i =>
      if off.toNat ≤ i ∧ i < off.toNat + bs.length then bs.getD (i - off.toNat) 0
      else out.dataBuf i }

def lrObjAddDataReloc (oc : ObjfileCtx) (offset : BitVec 32) (symbolIdx : Nat) (type : UInt8) :
    ObjfileCtx :=
  { oc with dataRelocs := oc.dataRelocs ++ [⟨offset, BitVec.ofNat 32 symbolIdx, type⟩] }

/-- `lr_type_align` of a type that may be null. -/
def typeAlign (type : Option LrType) : SizeT := (type.map lrTypeAlign).getD 1

def globalSize (g : LrGlobal) : SizeT :=
  let gsize := (g.type.map lrTypeSize).getD 0
  if gsize = 0 then 8 else gsize

/-- A global with pointer relocations is aligned as a pointer at least. -/
def globalAlign (g : LrGlobal) : SizeT :=
  let galign := typeAlign g.type
  let galign := if galign = 0 then 8 else galign
  if g.relocs ≠ [] ∧ galign < 8 then 8 else galign

section Build
-- the renaming of intrinsics, the names that relocations refer to and the target's
-- type of a relocation for 64 bits
variable (remap relocName : CStr → CStr) (abs64Reloc : UInt8)

/-- One pointer relocation of a global at `data_pos`. -/
def buildReloc (gsize : SizeT) (out : ObjBuildResult) (rel : LrReloc) : ObjBuildResult :=
  let (ctx, symIdx) := lrObjEnsureSymbol remap out.ctx (relocName rel.symbolName) false 0 0
  let off : SizeT := BitVec.ofNat 64 rel.offset
  let out := { out with ctx := ctx }
  let out := if off + 8 ≤ gsize then
      copyData out (out.dataPos + off) (leBytes 8 rel.addend.toNat)
    else out
  { out with
    ctx := lrObjAddDataReloc out.ctx ((out.dataPos + off).setWidth 32) symIdx abs64Reloc }

/-- The initial image, as much of it as the type has room for. -/
def copyInit (g : LrGlobal) (gsize : SizeT) (out : ObjBuildResult) : ObjBuildResult :=
  match g.initData with
  | none => out
  | some bytes =>
    if g.initSize = 0 then out
    else copyData out out.dataPos
      (bytes.take (if g.initSize < gsize.toNat then g.initSize else gsize.toNat))

/-- The symbol of the global, at `data_pos`. -/
def defineGlobal (g : LrGlobal) (out : ObjBuildResult) : ObjBuildResult :=
  let (ctx, gsym) := lrObjEnsureSymbol remap out.ctx g.name true 2 (out.dataPos.setWidth 32)
  { out with ctx := { ctx with symbols := ctx.symbols.modify gsym fun sym =>
      { sym with isLocal := g.isLocal, isWeak := sym.isWeak || g.isWeak } } }

/-- One turn of the loop over the globals. -/
def buildGlobal (out : ObjBuildResult) (g : LrGlobal) : Option ObjBuildResult :=
  if g.isExternal then
    some { out with ctx := (lrObjEnsureSymbol remap out.ctx g.name false 0 0).1 }
  else do
    let gsize := globalSize g
    let out := { out with dataPos := alignUp out.dataPos (globalAlign g) }
    let out ← objEnsureDataCapacity out (out.dataPos + gsize)
    let out := defineGlobal remap g (copyInit g gsize out)
    let out := g.relocs.foldl (buildReloc remap relocName abs64Reloc gsize) out
    some { out with dataPos := out.dataPos + gsize, hasData := true }

def buildGlobals (globals : List LrGlobal) (out : ObjBuildResult) : Option ObjBuildResult :=
  globals.foldlM (buildGlobal remap relocName abs64Reloc) out

end Build

end Liric.Source.Object
