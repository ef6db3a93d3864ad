import Liric.Lib.X64
import Liric.Source.Ll.Parser
import Liric.Source.Object.Context
import Liric.Source.Target.X8664Frame

/-!
# The x86_64 target: operands

Source: src/target_x86_64.c:35-96 (`x86_compile_ctx_t`, cached registers), 380-449 (slots,
`emit_mov_imm`, `emit_add_imm`), 451-462 (`is_symbol_defined_in_module`), 590-726
(`emit_copy_from_cached_scratch`, `emit_load_operand`), 1160-1164 (`vreg_slot_size`), 2442-2451
(SELECT).

An instruction stands for the bytes that its encoder writes; the encodings of `emit_mov_imm`
for short and for long immediates are one. A relocation is kept with its instruction, as the
name of its symbol and its type, so there is no table of symbols. Allocations succeed.
-/
namespace Liric.Source.X8664
open Lib.X64 Ir Object

def x86Rax : Reg := 0
def x86Rcx : Reg := 1
def x86Rbp : Reg := 5
def x86R10 : Reg := 10
def x86R11 : Reg := 11

structure RelocRef where
  name : CStr
  type : UInt8
  deriving DecidableEq

abbrev X86Inst := Inst RelocRef

structure X86Ctx where
  code : List X86Inst := []
  frame : X86Frame := {}
  raxHoldsVreg : Nat := uint32Max
  rcxHoldsVreg : Nat := uint32Max
  deriving DecidableEq

/-- What the code takes from the process that generates it. -/
structure X86Host where
  mod : LrModule
  /-- `obj_ctx` is not null. -/
  obj : Bool
  /-- `jit` is not null. -/
  jit : Bool
  /-- `sym_defined`. -/
  symDefined : List Bool := []
  /-- `remap_intrinsic`, or the identity with `preserve_symbol_names`. -/
  remap : CStr → CStr := id
  /-- `lr_jit_get_symbol`, which is 0 for no symbol. -/
  jitGetSymbol : CStr → BitVec 64 := fun _ => 0

abbrev X86M := StateM X86Ctx

/-- `if (p) x;`. -/
def emitIf (p : Prop) [Decidable p] (x : X86M Unit) : X86M Unit := if p then x else pure ()

def setCachedRegVreg (reg : Reg) (vreg : Nat) : X86M Unit := modify fun c =>
  if reg = x86Rax then { c with raxHoldsVreg := vreg }
  else if reg = x86Rcx then { c with rcxHoldsVreg := vreg }
  else c

def invalidateCachedReg (reg : Reg) : X86M Unit := setCachedRegVreg reg uint32Max

def X86Ctx.cachedRegHoldsVreg (c : X86Ctx) (reg : Reg) (vreg : Nat) : Bool :=
  if reg = x86Rax then c.raxHoldsVreg == vreg
  else if reg = x86Rcx then c.rcxHoldsVreg == vreg
  else false

/-- The other of the two registers, if it holds the value. -/
def X86Ctx.cachedScratch (c : X86Ctx) (vreg : Nat) (dstReg : Reg) : Option Reg :=
  if dstReg = x86Rax ∧ c.cachedRegHoldsVreg x86Rcx vreg then some x86Rcx
  else if dstReg = x86Rcx ∧ c.cachedRegHoldsVreg x86Rax vreg then some x86Rax
  else none

def emitInst (inst : X86Inst) : X86M Unit := modify fun c => { c with code := c.code ++ [inst] }

def slotOf (vreg : Nat) (size align : SizeT) : X86M (BitVec 32) := fun c =>
  ((allocSlot c.frame vreg size align).1, { c with frame := (allocSlot c.frame vreg size align).2 })

/-- `vreg_slot_size`. -/
def X86Frame.vregSlotSize (c : X86Frame) (vreg : Nat) : Nat :=
  if (c.slot vreg).size = 0 then 8 else (c.slot vreg).size.toNat

/-- The address of a static alloca, which may stand in unreachable code, else the slot. -/
def emitLoadSlot (vreg : Nat) (reg : Reg) : X86M Unit := do
  let c ← get
  if c.frame.lookupStaticAllocaOffset vreg ≠ 0 then
    emitInst (.lea reg x86Rbp (c.frame.lookupStaticAllocaOffset vreg))
    setCachedRegVreg reg vreg
  else
    let off ← slotOf vreg 8 8
    emitInst (.load 8 reg x86Rbp off)
    setCachedRegVreg reg vreg

def emitStoreSlot (vreg : Nat) (reg : Reg) : X86M Unit := do
  let off ← slotOf vreg 8 8
  emitInst (.store 8 reg x86Rbp off)
  setCachedRegVreg reg vreg

def emitMovImm (dst : Reg) (imm : BitVec 64) (preserveFlags : Bool) : X86M Unit := do
  emitInst (if imm = 0 ∧ preserveFlags = false then .clear dst else .movImm dst imm)
  invalidateCachedReg dst

/-- The negation of the least 32-bit number is that number again. -/
def emitAddImm (dst : Reg) (imm : BitVec 64) : X86M Unit :=
  if imm = 0 then pure ()
  else if imm.toInt > 2 ^ 31 - 1 ∨ imm.toInt < -2 ^ 31 then do
    emitMovImm x86R11 imm false
    emitInst (.addReg dst x86R11)
    invalidateCachedReg dst
  else do
    emitInst (if 0 ≤ imm.toInt then .addImm dst (imm.setWidth 32)
      else .subImm dst ((-imm).setWidth 32))
    invalidateCachedReg dst

/-- `is_symbol_defined_in_module`. -/
def isSymbolDefinedInModule (mod : LrModule) (name : CStr) : Bool :=
  (mod.funcs.any fun f => !f.blocks.isEmpty && f.name == name) ||
    mod.globals.any fun g => !g.isExternal && g.name == name

def isFloatType : Option LrType → Bool
  | some (.scalar _ .float) => true
  | _ => false

/-- A value in a register, in the other one of the two, or in its slot. -/
def emitLoadVreg (vreg : Nat) (reg : Reg) : X86M Unit := do
  let c ← get
  if c.frame.lookupStaticAllocaOffset vreg ≠ 0 then
    emitInst (.lea reg x86Rbp (c.frame.lookupStaticAllocaOffset vreg))
    setCachedRegVreg reg vreg
  else if c.cachedRegHoldsVreg reg vreg then pure ()
  else
    match c.cachedScratch vreg reg with
    | some srcReg =>
      emitInst (.movReg reg srcReg)
      setCachedRegVreg reg vreg
    | none => emitLoadSlot vreg reg

section Host
variable (host : X86Host)

/-- The type of the relocation of an address. Code of a session may be far from its data. -/
def addressReloc (id : Nat) (symName : CStr) : UInt8 :=
  if host.jit then lrRelocX866464
  else if (host.symDefined[id]?).getD (isSymbolDefinedInModule host.mod symName) then
    lrRelocX8664Pc32
  else lrRelocX8664Gotpcrel

/-- `preserve` is set while SELECT is compiled. -/
def emitLoadGlobal (preserve : Bool) (id : Nat) (globalOffset : BitVec 64) (reg : Reg) :
    X86M Unit :=
  if host.jit && !host.obj then
    emitMovImm reg
      ((lrModuleSymbolName host.mod.symbols id).elim 0 host.jitGetSymbol + globalOffset) preserve
  else if host.obj then
    match lrModuleSymbolName host.mod.symbols id with
    | none => emitMovImm reg 0 preserve
    | some symName => do
      emitInst (.address reg ⟨host.remap symName, addressReloc host id symName⟩)
      emitAddImm reg globalOffset
      invalidateCachedReg reg
  else pure ()

def emitLoadOperand (preserve : Bool) (op : LrOperand) (reg : Reg) : X86M Unit :=
  match op.value with
  | .immI64 imm => emitMovImm reg imm preserve
  | .vreg vreg => emitLoadVreg vreg reg
  | .immF64 bits =>
    emitMovImm reg
      (if isFloatType op.type then (Ll.floatOfDouble bits).setWidth 64 else bits) preserve
  | .null | .undef => emitMovImm reg 0 preserve
  | .global id => emitLoadGlobal host preserve id op.globalOffset reg
  | .block _ => pure ()

/-- The operands are in the registers that the conditional move chooses from. -/
def selectOperands (op1 op2 : LrOperand) : X86M Unit := do
  emitLoadOperand host true op2 x86Rax
  emitLoadOperand host true op1 x86Rcx

def emitSelect (op0 op1 op2 : LrOperand) (dest : Nat) : X86M Unit := do
  emitLoadOperand host true op0 x86Rax
  emitInst (.testByte x86Rax x86Rax)
  selectOperands host op1 op2
  emitInst (.cmovne x86Rax x86Rcx)
  invalidateCachedReg x86Rax
  emitStoreSlot dest x86Rax

end Host

end Liric.Source.X8664
