import Liric.Source.Target.Aarch64Emit
import Liric.Source.Target.X8664Frame

/-!
# The A64 target: the frame

Source: src/target_aarch64.c:110-145 (`alloc_slot`), 1320-1332 (`a64_direct_note_vregs`),
1392-1442 (the temporaries of `a64_direct_emit_phi_copies_for_edge`), 2126-2165 (ALLOCA with a
constant count), 3095-3096 (patch of the prologue).

Instructions reach the frame by these calls alone, in any order.
-/
namespace Liric.Source.Aarch64
open Ir
open X8664 (AllocaDesc)

inductive FrameCall where
  | slot (vreg : Nat) (size : SizeT)
  /-- A new temporary for the copy of a phi. -/
  | stage (size : SizeT)
  /-- The slot of a temporary. -/
  | temp (tmpVreg : Nat) (size : SizeT)
  | alloca (desc : AllocaDesc)
  | note (vreg : Nat)
  deriving DecidableEq

/-- The alignment of an element is a word at least. -/
def staticAlign (desc : AllocaDesc) : SizeT := if desc.elemAlign < 8 then 8 else desc.elemAlign

def frameCall : FrameCall → A64M Unit
  | .slot vreg size | .temp vreg size => do let _ ← allocSlot vreg size
  | .stage size => do
    let tmpVreg := (← get).nextVreg
    modify fun c => { c with nextVreg := tmpVreg + 1 }
    let _ ← allocSlot tmpVreg (if size < 8 then 8 else size)
  | .alloca desc => do
    let _ ← allocStatic desc.dest (staticAlign desc) (desc.elemSz * desc.elems)
    let _ ← allocSlot desc.dest 8
  | .note vreg => modify fun c =>
    if vreg ≥ c.nextVreg then { c with nextVreg := vreg + 1 } else c

/-- What `aarch64_compile_end` patches into the prologue. -/
def A64Ctx.frameStackSize (c : A64Ctx) : BitVec 32 := (c.stackSize + 15) &&& ~~~15

end Liric.Source.Aarch64
