import Liric.Source.Ir.Module

/-!
# The x86_64 target: the frame

Source: src/target_x86_64.c:99-168 (`align_up`, `alloc_temp_slot`, `alloc_slot`), 380-402
(`emit_store_slot`), 2472-2506 (ALLOCA with a constant count), 3322-3326 (patch of the prologue),
src/target_shared.c:4-45.

Of the context only the fields that place the frame are kept: the rest of the code reads
these offsets and never writes them. The arrays of slots and of static allocas are lists,
the last entry for a vreg first, so there is no array to grow; offset 0 is no slot.
-/
namespace Liric.Source.X8664
open Ir

/-- An entry of `stack_slots` and of `stack_slot_sizes`. -/
structure StackSlot where
  off : BitVec 32
  size : BitVec 32
  deriving DecidableEq

structure X86Frame where
  stackSize : BitVec 32 := 0
  stackSlots : List (Nat × StackSlot) := []
  staticAllocaOffsets : List (Nat × BitVec 32) := []
  deriving DecidableEq

/-- `align_up`, which divides. -/
def alignUpSize (value align : SizeT) : SizeT :=
  if align ≤ 1 then value else (value + align - 1) / align * align

def X86Frame.slot (c : X86Frame) (vreg : Nat) : StackSlot := (c.stackSlots.lookup vreg).getD ⟨0, 0⟩

/-- `lr_target_lookup_static_alloca_offset`. -/
def X86Frame.lookupStaticAllocaOffset (c : X86Frame) (vreg : Nat) : BitVec 32 :=
  (c.staticAllocaOffsets.lookup vreg).getD 0

/-- The two statements on `stack_size` that the three allocators share. -/
def X86Frame.grown (c : X86Frame) (size align : SizeT) : BitVec 32 :=
  (alignUpSize (c.stackSize.setWidth 64) align).setWidth 32 + size.setWidth 32

/-- `if (size < 8) size = 8;`. -/
def atLeast8 (size : SizeT) : SizeT := if size < 8 then 8 else size

def allocTempSlot (c : X86Frame) (size align : SizeT) : BitVec 32 × X86Frame :=
  let stackSize := c.grown (atLeast8 size) (atLeast8 align)
  (-stackSize, { c with stackSize := stackSize })

/-- A slot that is too small is replaced by a larger one. -/
def allocSlot (c : X86Frame) (vreg : Nat) (size align : SizeT) : BitVec 32 × X86Frame :=
  if (c.slot vreg).off ≠ 0 ∧ size.setWidth 32 ≤ (c.slot vreg).size then ((c.slot vreg).off, c)
  else
    let stackSize := c.grown (atLeast8 size) (atLeast8 align)
    (-stackSize, { c with
      stackSize := stackSize
      stackSlots := (vreg, ⟨-stackSize, (atLeast8 size).setWidth 32⟩) :: c.stackSlots })

/-- What ALLOCA reads of its descriptor; no count is one element. -/
structure AllocaDesc where
  dest : Nat
  type : Option LrType
  align : BitVec 32
  count : Option (BitVec 64)
  deriving DecidableEq

/-- `lr_type_align`, which is 1 for a null pointer. -/
def typeAlign (type : Option LrType) : SizeT := type.elim 1 lrTypeAlign

def AllocaDesc.elemSz (desc : AllocaDesc) : SizeT :=
  let elemSz := desc.type.elim 0 lrTypeSize
  if elemSz < 1 then 1 else elemSz

def AllocaDesc.elemAlign (desc : AllocaDesc) : SizeT :=
  let elemAlign := if desc.align ≠ 0 then desc.align.setWidth 64 else typeAlign desc.type
  if elemAlign = 0 then 1 else elemAlign

def AllocaDesc.elems (desc : AllocaDesc) : BitVec 64 :=
  let count := desc.count.getD 1
  if count.toInt < 1 then 1 else count

/-- The offset of the storage, which a vreg is given once. -/
def allocStatic (c : X86Frame) (desc : AllocaDesc) : BitVec 32 × X86Frame :=
  if c.lookupStaticAllocaOffset desc.dest ≠ 0 then (c.lookupStaticAllocaOffset desc.dest, c)
  else
    let stackSize := c.grown (desc.elemSz * desc.elems) desc.elemAlign
    (-stackSize, { c with
      stackSize := stackSize
      staticAllocaOffsets := (desc.dest, -stackSize) :: c.staticAllocaOffsets })

/-- The offset whose address becomes the value of the alloca, and the frame after
`emit_store_slot` has put it into the slot of the destination. -/
def emitStaticAlloca (c : X86Frame) (desc : AllocaDesc) : BitVec 32 × X86Frame :=
  let (off, c) := allocStatic c desc
  (off, (allocSlot c desc.dest 8 8).2)

/-- A call of one of the allocators. -/
inductive FrameCall where
  | temp (size align : SizeT)
  | slot (vreg : Nat) (size align : SizeT)
  | alloca (desc : AllocaDesc)
  deriving DecidableEq

def X86Frame.call (c : X86Frame) : FrameCall → BitVec 32 × X86Frame
  | .temp size align => allocTempSlot c size align
  | .slot vreg size align => allocSlot c vreg size align
  | .alloca desc => emitStaticAlloca c desc

/-- The immediate that `x86_64_compile_end` patches into the prologue. -/
def X86Frame.frameStackSize (c : X86Frame) : BitVec 32 := (c.stackSize + 15) &&& ~~~15

end Liric.Source.X8664
