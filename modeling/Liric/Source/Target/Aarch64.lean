import Liric.Lib.A64
import Liric.Source.Ir.Module
import Liric.Source.Ll.Parser
import Liric.Source.Object.Context

/-!
# The aarch64 target: slots, operands and copies

Source: src/target_aarch64.h:6-25 (register numbers), src/target_aarch64.c:30-520 (context, cache,
slots, encoders and short sequences), 752-1255 (operands, copies of memory, prologue and
epilogue), 1259-1320 (`a64_direct_ctx_t`, `a64_operand_from_desc`), src/target_shared.c:4-11,
src/target_common.c:60-94 (condition codes).

An instruction is kept as the fields that the encoders pack into a word, and places in
the code are counted in instructions. The code has no end: `aarch64_compile_end` refuses
code that is longer than its buffer. The arrays of slots, of static allocas and of the
places of blocks are lists, the last entry for a number first, so there is no array to
grow. `block_offsets` and `block_entry_offsets` are written together and are one list.
Every fixup is an unconditional branch. The two contexts are one record.
-/
namespace Liric.Source.Aarch64
open Ir Object
open Lib.A64 (Reg Inst LogicOp ShiftOp FpOp)

instance regs_neZero : NeZero 32 := ⟨by decide⟩

def a64X0 : Reg := 0
def a64X9 : Reg := 9
def a64X10 : Reg := 10
def a64X11 : Reg := 11
def a64X12 : Reg := 12
def a64X14 : Reg := 14
def a64X15 : Reg := 15
def a64X16 : Reg := 16
def a64Fp : Reg := 29
def a64Sp : Reg := 31
def a64D0 : Reg := 0
def a64D1 : Reg := 1
def fpScratch0 : Reg := a64D0
def fpScratch1 : Reg := a64D1

/-- An entry of `stack_slots` and of `stack_slot_sizes`; offset 0 is no slot. -/
structure StackSlot where
  off : BitVec 32
  size : BitVec 32
  deriving DecidableEq

structure A64Fixup where
  insnPos : Nat
  targetPosHint : Option Nat
  target : Nat
  source : Nat
  deriving DecidableEq

structure StreamPhiCopy where
  predBlockId : Nat
  succBlockId : Nat
  destVreg : Nat
  srcOp : LrOperand
  emitted : Bool
  deriving DecidableEq

/-- A terminator that waits for the copies of its edges. -/
structure DeferredTerm where
  op : Opcode
  ops : List LrOperand
  blockId : Nat
  deriving DecidableEq

/-- `a64_direct_ctx_t` and its `a64_compile_ctx_t`. -/
structure A64Ctx where
  code : List Inst := []
  stackSize : BitVec 32 := 0
  stackSlots : List (Nat × StackSlot) := []
  staticAllocaOffsets : List (Nat × BitVec 32) := []
  blockOffsets : List (Nat × Nat) := []
  fixups : List A64Fixup := []
  obj : Option ObjfileCtx := none
  mod : LrModule
  /-- `sym_defined` and `sym_funcs`, both with `sym_count` entries. -/
  symDefined : List Bool := []
  symFuncs : List (Option LrFunc) := []
  x9HoldsVreg : Nat := uint32Max
  x10HoldsVreg : Nat := uint32Max
  funcUsesFpAbi : Bool := false
  funcIsVararg : Bool := false
  varargStackStartOff : BitVec 32 := 16
  prologuePatchPos : Nat := 0
  currentBlockId : Nat := 0
  hasCurrentBlock : Bool := false
  blockOffsetPending : Bool := false
  nextVreg : Nat := 0
  retType : LrType
  phiCopies : List StreamPhiCopy := []
  deferred : Option DeferredTerm := none
  deriving DecidableEq

/-- What the code takes from the process that generates it. -/
structure A64Host where
  /-- `remap_intrinsic`. -/
  remap : CStr → CStr := id
  /-- `LIRIC_DISABLE_STATIC_ALLOCA_ADDR` is not set. -/
  staticAllocaAddr : Bool := true
  fmod : BitVec 64
  fmodf : BitVec 64

abbrev A64M := StateM A64Ctx

/-- `lr_type_size`, which is 0 for a null pointer. -/
def typeSize (type : Option LrType) : SizeT := type.elim 0 lrTypeSize

def alignUpSize (value align : SizeT) : SizeT :=
  if align ≤ 1 then value else (value + align - 1) / align * align

def isFpAbiType : Option LrType → Bool
  | some (.scalar _ .float) | some (.scalar _ .double) => true
  | _ => false

def isFloatType : Option LrType → Bool
  | some (.scalar _ .float) => true
  | _ => false

def fpAbiSize (type : Option LrType) : Nat := if isFloatType type then 4 else 8

/-- `if (p) x;`. -/
def emitIf (p : Prop) [Decidable p] (x : A64M Unit) : A64M Unit := if p then x else pure ()

def invalidateCachedReg (reg : Reg) : A64M Unit := modify fun c =>
  if reg = a64X9 then { c with x9HoldsVreg := uint32Max }
  else if reg = a64X10 then { c with x10HoldsVreg := uint32Max }
  else c

def invalidateCachedGprs : A64M Unit := modify fun c =>
  { c with x9HoldsVreg := uint32Max, x10HoldsVreg := uint32Max }

def A64Ctx.cachedRegHoldsVreg (c : A64Ctx) (reg : Reg) (vreg : Nat) : Bool :=
  if reg = a64X9 then c.x9HoldsVreg == vreg
  else if reg = a64X10 then c.x10HoldsVreg == vreg
  else false

def setCachedRegVreg (reg : Reg) (vreg : Nat) : A64M Unit := modify fun c =>
  if reg = a64X9 then { c with x9HoldsVreg := vreg }
  else if reg = a64X10 then { c with x10HoldsVreg := vreg }
  else c

def A64Ctx.slot (c : A64Ctx) (vreg : Nat) : StackSlot := (c.stackSlots.lookup vreg).getD ⟨0, 0⟩

/-- A slot that is too small is replaced by a larger one. -/
def allocSlot (vreg : Nat) (size : SizeT) : A64M (BitVec 32) := fun c =>
  if vreg > 100000 then (-8, c)
  else if (c.slot vreg).off ≠ 0 ∧ size.setWidth 32 ≤ (c.slot vreg).size then
    ((c.slot vreg).off, c)
  else
    let size := if size < 8 then 8 else size
    let stackSize := (alignUpSize (c.stackSize.setWidth 64) 8).setWidth 32 + size.setWidth 32
    (-stackSize, { c with
      stackSize := stackSize
      stackSlots := (vreg, ⟨-stackSize, size.setWidth 32⟩) :: c.stackSlots })

def A64Ctx.vregSlotSize (c : A64Ctx) (vreg : Nat) : SizeT :=
  if (c.slot vreg).size = 0 then 8 else (c.slot vreg).size.setWidth 64

/-- `lr_target_lookup_static_alloca_offset`. -/
def A64Ctx.lookupStaticAllocaOffset (c : A64Ctx) (vreg : Nat) : BitVec 32 :=
  (c.staticAllocaOffsets.lookup vreg).getD 0

def encAddImm (is64 : Bool) (rd rn : Reg) (imm12 : BitVec 32) : Inst :=
  .addImm false is64 rd rn (imm12.setWidth 12)

def encSubImm (is64 : Bool) (rd rn : Reg) (imm12 : BitVec 32) : Inst :=
  .addImm true is64 rd rn (imm12.setWidth 12)

def encAddReg := Inst.addReg false
def encSubReg := Inst.addReg true
def encLogicReg := Inst.logicReg
def encSubsReg := Inst.subsReg
def encAndsReg := Inst.andsReg
def encMul (is64 : Bool) (rd rn rm : Reg) : Inst := .madd false is64 rd rn rm 31
def encSdiv := Inst.div true
def encUdiv := Inst.div false
def encMsub := Inst.madd true
def encLslv := Inst.shiftv .lsl
def encLsrv := Inst.shiftv .lsr
def encAsrv := Inst.shiftv .asr
def encCsel := Inst.csel
def encMovz := Inst.movz
def encMovk := Inst.movk

/-- The number of bytes that `enc_ldur` and `enc_stur` encode. -/
def accessSize (size : Nat) : Nat := if size = 1 ∨ size = 2 ∨ size = 4 then size else 8

def encLdur (size : Nat) (rt rn : Reg) (imm9 : BitVec 32) : Inst :=
  .ldur (accessSize size) rt rn (imm9.setWidth 9)

def encStur (size : Nat) (rt rn : Reg) (imm9 : BitVec 32) : Inst :=
  .stur (accessSize size) rt rn (imm9.setWidth 9)

def fpAccessSize (fsize : Nat) : Nat := if fsize = 4 then 4 else 8

def encFpLdur (fsize : Nat) (ft rn : Reg) (imm9 : BitVec 32) : Inst :=
  .fpLdur (fpAccessSize fsize) ft rn (imm9.setWidth 9)

def encFpStur (fsize : Nat) (ft rn : Reg) (imm9 : BitVec 32) : Inst :=
  .fpStur (fpAccessSize fsize) ft rn (imm9.setWidth 9)

def encFpArith (op : FpOp) (fsize : Nat) : Reg → Reg → Reg → Inst := .fpArith op (fsize == 8)
def encFneg (fsize : Nat) : Reg → Reg → Inst := .fneg (fsize == 8)
def encFcmp (fsize : Nat) : Reg → Reg → Inst := .fcmp (fsize == 8)
def encScvtf (fsize : Nat) : Reg → Reg → Inst := .cvtf true (fsize == 8)
def encUcvtf (fsize : Nat) : Reg → Reg → Inst := .cvtf false (fsize == 8)
def encFcvtzs (fsize : Nat) : Reg → Reg → Inst := .fcvtz true (fsize == 8)
def encFcvtzu (fsize : Nat) : Reg → Reg → Inst := .fcvtz false (fsize == 8)
def encFcvtF32ToF64 := Inst.fcvt true
def encFcvtF64ToF32 := Inst.fcvt false
def encFmovFromGpr (fsize : Nat) : Reg → Reg → Inst := .fmovFromGpr (fsize == 8)

def emitU32 (insn : Inst) : A64M Unit := modify fun c => { c with code := c.code ++ [insn] }

def patchU32 (pos : Nat) (insn : Inst) : A64M Unit := modify fun c =>
  { c with code := c.code.set pos insn }

/-- `MOVK` for the halfwords `s` of `v` that are not zero. -/
def emitMovk (is64 : Bool) (rd : Reg) (v : BitVec 64) (s : Nat) : A64M Unit :=
  emitIf (v.extractLsb' (16 * s) 16 ≠ 0)
    (emitU32 (encMovk is64 rd (v.extractLsb' (16 * s) 16) (BitVec.ofNat 2 s)))

def emitMoveImm (rd : Reg) (imm : BitVec 64) (is64 : Bool) : A64M Unit := do
  let v := if is64 then imm else imm &&& 0xFFFFFFFF
  emitU32 (encMovz is64 rd (v.extractLsb' 0 16) 0)
  emitMovk is64 rd v 1
  emitIf (is64 = true) do
    emitMovk is64 rd v 2
    emitMovk is64 rd v 3

def emitMoveImmCtx (rd : Reg) (imm : BitVec 64) (is64 : Bool) : A64M Unit := do
  emitMoveImm rd imm is64
  invalidateCachedReg rd

/-- Steps of at most 4095 bytes. -/
def emitSpAdjust (subtract : Bool) (amount : Nat) : A64M Unit :=
  if _h : 0 < amount then do
    let chunk := if amount > 4095 then 4095 else amount
    emitU32 ((if subtract then encSubImm else encAddImm) true a64Sp a64Sp (BitVec.ofNat 32 chunk))
    emitSpAdjust subtract (amount - chunk)
  else pure ()
  termination_by amount
  decreasing_by split <;> omega

def emitAddr (rd base : Reg) (disp : BitVec 32) : A64M Unit :=
  if 0 ≤ disp.toInt ∧ disp.toInt ≤ 4095 then emitU32 (encAddImm true rd base disp)
  else if disp.toInt < 0 ∧ -4095 ≤ disp.toInt then emitU32 (encSubImm true rd base (-disp))
  else do
    emitMoveImm a64X15 (disp.signExtend 64) true
    emitU32 (encAddReg true rd base a64X15)

/-- The four ways to access memory with a displacement. -/
def emitAccess (enc : Reg → BitVec 32 → Inst) (rn : Reg) (disp : BitVec 32) : A64M Unit :=
  if -256 ≤ disp.toInt ∧ disp.toInt ≤ 255 then emitU32 (enc rn disp)
  else do
    emitAddr a64X15 rn disp
    emitU32 (enc a64X15 0)

def emitLoad (rt rn : Reg) (disp : BitVec 32) (size : Nat) : A64M Unit :=
  emitAccess (encLdur size rt) rn disp

def emitStore (rt rn : Reg) (disp : BitVec 32) (size : Nat) : A64M Unit :=
  emitAccess (encStur size rt) rn disp

def emitFpLoad (ft rn : Reg) (disp : BitVec 32) (fsize : Nat) : A64M Unit :=
  emitAccess (encFpLdur fsize ft) rn disp

def emitFpStore (ft rn : Reg) (disp : BitVec 32) (fsize : Nat) : A64M Unit :=
  emitAccess (encFpStur fsize ft) rn disp

def emitMovReg (rd rm : Reg) (is64 : Bool) : A64M Unit :=
  emitU32 (encLogicReg .orr is64 rd a64Sp rm)

def a64CondNe : BitVec 4 := 1

/-- `lr_cc_to_a64(lr_target_cc_from_icmp(pred))`. -/
def icmpCond : IcmpPred → BitVec 4
  | .eq => 0
  | .ne => 1
  | .ugt => 8
  | .uge => 2
  | .ult => 3
  | .ule => 9
  | .sgt => 12
  | .sge => 10
  | .slt => 11
  | .sle => 13

/-- `lr_fp_cc_to_a64(lr_target_cc_from_fcmp(pred))` of the predicates with one condition. -/
def fcmpCond : FcmpPred → BitVec 4
  | .ogt => 12
  | .oge => 10
  | .olt => 4
  | .ole => 9
  | .ord => 7
  | .uno => 6
  | .une => 1
  | .ugt => 8
  | .uge => 2
  | .ult => 11
  | .ule => 13
  | _ => 0

/-- `dst` is 1 if one of two conditions holds. -/
def emitSetccPair (dst : Reg) (cond₁ cond₂ : BitVec 4) : A64M Unit := do
  emitMoveImmCtx dst 0 false
  emitMoveImmCtx a64X15 1 false
  emitU32 (encCsel false dst a64X15 dst cond₁)
  emitU32 (encCsel false dst a64X15 dst cond₂)

def emitSetccCond (dst : Reg) (cond : BitVec 4) : A64M Unit := do
  emitMoveImmCtx dst 1 false
  emitU32 (encCsel false dst dst a64Sp cond)

/-- `emit_setcc_a64` after a comparison of integers. -/
def emitSetccIcmp (pred : IcmpPred) (dst : Reg) : A64M Unit := do
  emitSetccCond dst (icmpCond pred)
  invalidateCachedReg dst

def emitSetccFcmpCode (pred : FcmpPred) (dst : Reg) : A64M Unit :=
  match pred with
  | .one => emitSetccPair dst 4 12
  | .ueq => emitSetccPair dst 0 6
  | pred => emitSetccCond dst (fcmpCond pred)

/-- `emit_setcc_a64` after a comparison of floating point numbers. -/
def emitSetccFcmp (pred : FcmpPred) (dst : Reg) : A64M Unit := do
  emitSetccFcmpCode pred dst
  invalidateCachedReg dst

def emitLoadSlot (vreg : Nat) (reg : Reg) : A64M Unit := do
  let off ← allocSlot vreg 8
  emitLoad reg a64Fp off 8
  setCachedRegVreg reg vreg

def emitStoreSlot (vreg : Nat) (reg : Reg) : A64M Unit := do
  let off ← allocSlot vreg 8
  emitStore reg a64Fp off 8
  setCachedRegVreg reg vreg

def isSymbolDefinedInModule (mod : LrModule) (name : CStr) : Bool :=
  mod.funcs.any (fun f => !f.blocks.isEmpty && f.name == name) ||
    mod.globals.any fun g => !g.isExternal && g.name == name

def intTypeWidthBits (type : Option LrType) : Nat :=
  match type with
  | none => 64
  | some (.scalar _ .i1) => 1
  | some (.scalar _ .i8) => 8
  | some (.scalar _ .i16) => 16
  | some (.scalar _ .i32) => 32
  | some (.scalar _ .i64) => 64
  | some (.ptr ..) => 64
  | some type =>
    let bits := (lrTypeSize type * 8).toNat
    if bits = 0 ∨ bits > 64 then 64 else bits

def icmpPredIsSigned : IcmpPred → Bool
  | .sgt | .sge | .slt | .sle => true
  | _ => false

/-- `lr_type_size(type) > 4`. -/
def is64Type (type : Option LrType) : Bool := typeSize type > 4

/-- The other of the two cached registers if it holds the value. -/
def A64Ctx.cachedScratch (c : A64Ctx) (vreg : Nat) (dstReg : Reg) : Option Reg :=
  if dstReg = a64X9 ∧ c.cachedRegHoldsVreg a64X10 vreg then some a64X10
  else if dstReg = a64X10 ∧ c.cachedRegHoldsVreg a64X9 vreg then some a64X9
  else none

section Host
variable (host : A64Host)

def emitLoadVreg (vreg : Nat) (reg : Reg) : A64M Unit := do
  let c ← get
  let staticAllocaOff := c.lookupStaticAllocaOffset vreg
  if staticAllocaOff ≠ 0 ∧ host.staticAllocaAddr = true then
    emitAddr reg a64Fp staticAllocaOff
    setCachedRegVreg reg vreg
  else if c.cachedRegHoldsVreg reg vreg then pure ()
  else
    match c.cachedScratch vreg reg with
    | some srcReg =>
      emitMovReg reg srcReg true
      setCachedRegVreg reg vreg
    | none => emitLoadSlot vreg reg

def addReloc (pos symIdx : Nat) (type : UInt8) : A64M Unit := modify fun c =>
  { c with obj := c.obj.map fun oc => lrObjAddReloc oc (BitVec.ofNat 32 (4 * pos)) symIdx type }

def ensureSymbol (name : CStr) : A64M Nat := fun c =>
  match c.obj with
  | none => (0, c)
  | some oc =>
    let (oc, symIdx) := lrObjEnsureSymbol host.remap oc name false 0 0
    (symIdx, { c with obj := some oc })

/-- The second instruction of an address, and its relocation. -/
def emitWithReloc (insn : Inst) (symIdx : Nat) (type : UInt8) : A64M Unit := do
  let c ← get
  emitU32 insn
  addReloc c.code.length symIdx type

/-- The address of a symbol: from its page if the module defines it, else from the
global offset table. -/
def emitSymbolAddr (symName : CStr) (defined : Bool) (reg : Reg) : A64M Unit := do
  let symIdx ← ensureSymbol host symName
  if defined then
    emitWithReloc (.adrp reg) symIdx lrRelocArm64Page21
    emitWithReloc (.addLo reg reg) symIdx lrRelocArm64Pageoff12
  else
    emitWithReloc (.adrp reg) symIdx lrRelocArm64GotLoadPage21
    emitWithReloc (.ldrLo reg reg) symIdx lrRelocArm64GotLoadPageoff12

/-- A constant is added to the address of a global. -/
def emitGlobalOffset (globalOffset : BitVec 64) (reg : Reg) : A64M Unit :=
  emitIf (globalOffset ≠ 0) do
    let addReg := if reg = a64X15 then a64X14 else a64X15
    emitMoveImmCtx addReg globalOffset true
    emitU32 (encAddReg true reg reg addReg)

def emitLoadGlobal (id : Nat) (globalOffset : BitVec 64) (reg : Reg) : A64M Unit := do
  let c ← get
  if c.obj.isNone then pure ()
  else
    match lrModuleSymbolName c.mod.symbols id with
    | none => emitMoveImmCtx reg 0 true
    | some symName =>
      let defined := (c.symDefined[id]?).getD (isSymbolDefinedInModule c.mod symName)
      emitSymbolAddr host symName defined reg
      emitGlobalOffset globalOffset reg
      invalidateCachedReg reg

def emitLoadOperand (op : LrOperand) (reg : Reg) : A64M Unit :=
  match op.value with
  | .immI64 imm => emitMoveImmCtx reg imm true
  | .vreg vreg => emitLoadVreg host vreg reg
  | .immF64 bits =>
    emitMoveImmCtx reg
      (if isFloatType op.type then (Ll.floatOfDouble bits).setWidth 64 else bits) true
  | .null | .undef => emitMoveImmCtx reg 0 true
  | .global id => emitLoadGlobal host id op.globalOffset reg
  | .block _ => pure ()

/-- An aggregate of this size: its slot holds the value or points to it. -/
def emitSlotDataAddr (vreg : Nat) (logical : SizeT) (reg : Reg) : A64M Unit := do
  let slotOff ← allocSlot vreg 8
  let c ← get
  if logical > 8 ∧ c.vregSlotSize vreg = 8 then emitLoad reg a64Fp slotOff 8
  else emitAddr reg a64Fp slotOff

/-- The address of an aggregate. -/
def emitVregDataAddr (op : LrOperand) (reg : Reg) : A64M Unit :=
  match op.value with
  | .vreg vreg => do
    let c ← get
    if c.lookupStaticAllocaOffset vreg ≠ 0 then
      emitAddr reg a64Fp (c.lookupStaticAllocaOffset vreg)
      invalidateCachedReg reg
    else
      emitSlotDataAddr vreg (if op.type.isSome then typeSize op.type else 8) reg
      invalidateCachedReg reg
  | _ => emitLoadOperand host op reg

def emitLoadFpSlot (vreg : Nat) (fpreg : Reg) (fsize : Nat) : A64M Unit := do
  let off ← allocSlot vreg 8
  emitFpLoad fpreg a64Fp off fsize

def emitStoreFpSlot (vreg : Nat) (fpreg : Reg) (fsize : Nat) : A64M Unit := do
  let off ← allocSlot vreg 8
  emitFpStore fpreg a64Fp off fsize

def emitLoadFpOperand (op : LrOperand) (fpreg : Reg) (fsize : Nat) : A64M Unit :=
  match op.value with
  | .vreg vreg => emitLoadFpSlot vreg fpreg fsize
  | _ => do
    emitLoadOperand host op a64X9
    emitU32 (encFmovFromGpr fsize fpreg a64X9)

/-- The sizes of the accesses that copy or clear a number of bytes, and where they
start. -/
def accessChunks (bytes : Nat) : List (Nat × Nat) :=
  let words := (List.range (bytes / 8)).map fun i => (8 * i, 8)
  let off := bytes / 8 * 8
  let four := if bytes % 8 ≥ 4 then [(off, 4)] else []
  let off := off + 4 * four.length
  let two := if bytes - off ≥ 2 then [(off, 2)] else []
  let off := off + 2 * two.length
  let one := if bytes - off = 1 then [(off, 1)] else []
  words ++ four ++ two ++ one

def emitMemCopyBaseToBase (dstBase : Reg) (dstDisp : BitVec 32) (srcBase : Reg)
    (srcDisp : BitVec 32) (bytes : SizeT) : A64M Unit :=
  (accessChunks bytes.toNat).forM fun (off, size) => do
    emitLoad a64X11 srcBase (srcDisp + BitVec.ofNat 32 off) size
    emitStore a64X11 dstBase (dstDisp + BitVec.ofNat 32 off) size

def emitMemZeroBase (dstBase : Reg) (dstDisp : BitVec 32) (bytes : SizeT) : A64M Unit := do
  emitMoveImmCtx a64X11 0 true
  (accessChunks bytes.toNat).forM fun (off, size) =>
    emitStore a64X11 dstBase (dstDisp + BitVec.ofNat 32 off) size

def A64Ctx.usesIndirectAggregateStorage (c : A64Ctx) (vreg : Nat) (logicalSize : SizeT) : Bool :=
  logicalSize > 8 && c.lookupStaticAllocaOffset vreg == 0 && c.vregSlotSize vreg == 8

def emitCopyVregValueBytesToBase (srcVreg : Nat) (valueSz : SizeT) (dstBase : Reg)
    (dstDisp : BitVec 32) : A64M Unit :=
  if valueSz = 0 then pure ()
  else do
    let c ← get
    let allocaOff := c.lookupStaticAllocaOffset srcVreg
    if allocaOff ≠ 0 then emitMemCopyBaseToBase dstBase dstDisp a64Fp allocaOff valueSz
    else
      let srcOff ← allocSlot srcVreg 8
      let c ← get
      let srcSz := c.vregSlotSize srcVreg
      if srcSz ≥ valueSz then emitMemCopyBaseToBase dstBase dstDisp a64Fp srcOff valueSz
      else if srcSz = 8 then
        emitLoad a64X10 a64Fp srcOff 8
        emitMemCopyBaseToBase dstBase dstDisp a64X10 0 valueSz
      else
        emitMemCopyBaseToBase dstBase dstDisp a64Fp srcOff srcSz
        emitMemZeroBase dstBase (dstDisp + srcSz.setWidth 32) (valueSz - srcSz)

/-- A value of more than 8 bytes, as `emit_phi_copy_value` and the staging of copies
write it. -/
def emitAggregateValue (srcOp : LrOperand) (dstOff : BitVec 32) (dstSz : SizeT) : A64M Unit :=
  match srcOp.value with
  | .vreg vreg => emitCopyVregValueBytesToBase vreg dstSz a64Fp dstOff
  | .undef | .null => emitMemZeroBase a64Fp dstOff dstSz
  | _ => do
    emitLoadOperand host srcOp a64X9
    emitStore a64X9 a64Fp dstOff 8
    emitMemZeroBase a64Fp (dstOff + 8) (dstSz - 8)

def emitPhiCopyValue (destVreg : Nat) (srcOp : LrOperand) : A64M Unit := do
  let c ← get
  let dstSz := c.vregSlotSize destVreg
  if dstSz ≤ 8 then
    emitLoadOperand host srcOp a64X9
    emitStoreSlot destVreg a64X9
  else
    let dstOff ← allocSlot destVreg dstSz
    emitAggregateValue host srcOp dstOff dstSz

end Host

def emitSignextIndexReg (reg : Reg) (signextBytes : Nat) : A64M Unit :=
  emitIf (signextBytes ≠ 0 ∧ signextBytes < 8)
    (emitU32 (.sbfm reg reg (BitVec.ofNat 6 (signextBytes * 8 - 1))))

/-- The result is the place of the adjustment of the stack pointer. -/
def emitPrologue : A64M Nat := do
  emitU32 .stpFrame
  emitU32 (encAddImm true a64Fp a64Sp 0)
  let c ← get
  emitU32 (encMovz true a64X15 0 0)
  emitU32 (encMovk true a64X15 0 1)
  emitU32 (encAddImm true a64X14 a64Sp 0)
  emitU32 (encSubReg true a64X14 a64X14 a64X15)
  emitU32 (encAddImm true a64Sp a64X14 0)
  pure c.code.length

def emitEpilogue : A64M Unit := do
  emitU32 (encAddImm true a64Sp a64Fp 0)
  emitU32 .ldpFrame
  emitU32 .ret

def emitJmp (targetBlock source : Nat) : A64M Unit := modify fun c =>
  { c with
    fixups := c.fixups ++ [{
      insnPos := c.code.length
      targetPosHint := c.blockOffsets.lookup targetBlock
      target := targetBlock
      source := source }]
    code := c.code ++ [.b 0] }

end Liric.Source.Aarch64
