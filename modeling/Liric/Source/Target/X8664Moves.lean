import Liric.Source.Target.X8664Operands

/-!
# The x86_64 target: moves of memory

Source: src/target_x86_64.c:1062-1224 (loads, stores and copies of memory, slots of aggregates),
2524-2595 (LOAD and STORE), 2835-2961 (EXTRACTVALUE and INSERTVALUE).

Sizes of at most eight bytes are written as numbers. The number of operands is what the
opcode takes.
-/
namespace Liric.Source.X8664
open Lib.X64 Ir

/-- Three bytes are read as two. -/
def emitMovzxMem (dst base : Reg) (disp : BitVec 32) (size : Nat) : X86M Unit := do
  emitInst (.load (if size = 1 then 1 else 2) dst base disp)
  invalidateCachedReg dst

/-- `encode_mem` with 8B is 64 bits wide for a size of 8, else 32. -/
def emitMemLoadSized (dst base : Reg) (disp : BitVec 32) (size : Nat) : X86M Unit :=
  if size < 4 then emitMovzxMem dst base disp size
  else emitInst (.load (if size = 8 then 8 else 4) dst base disp)

/-- `encode_mem` with 88 or 89. -/
def emitMemStoreSized (src base : Reg) (disp : BitVec 32) (size : Nat) : X86M Unit :=
  emitInst (.store (if size = 1 then 1 else if size = 2 then 2 else if size = 8 then 8 else 4)
    src base disp)

/-- The loop over words and the shorter moves behind it, which take what is left of `bytes`. -/
def emitMoves (move : Nat → Nat → X86M Unit) (bytes : Nat) : X86M Unit := do
  (List.range (bytes / 8)).forM fun k => move (8 * k) 8
  emitIf (4 ≤ bytes % 8) (move (bytes / 8 * 8) 4)
  emitIf (2 ≤ bytes % 4) (move (bytes / 4 * 4) 2)
  emitIf (bytes % 2 = 1) (move (bytes / 2 * 2) 1)

def emitMemCopyBaseToBase (dstBase : Reg) (dstDisp : BitVec 32) (srcBase : Reg)
    (srcDisp : BitVec 32) (bytes : Nat) : X86M Unit :=
  emitMoves (fun off size => do
    emitMemLoadSized x86R11 srcBase (srcDisp + BitVec.ofNat 32 off) size
    emitMemStoreSized x86R11 dstBase (dstDisp + BitVec.ofNat 32 off) size) bytes

def emitMemZeroBase (dstBase : Reg) (dstDisp : BitVec 32) (bytes : Nat) : X86M Unit := do
  emitMovImm x86Rax 0 false
  emitMoves (fun off size =>
    emitMemStoreSized x86Rax dstBase (dstDisp + BitVec.ofNat 32 off) size) bytes

/-- The slot has the address of the aggregate. -/
def X86Frame.usesIndirectAggregateStorage (c : X86Frame) (vreg : Nat) (logicalSize : SizeT) :
    Bool :=
  !(logicalSize ≤ 8) && c.lookupStaticAllocaOffset vreg = 0 && c.vregSlotSize vreg = 8

/-- A slot that is too small is filled up with zeros. -/
def emitCopyVregValueBytesToBase (vreg : Nat) (valueSz : Nat) (dstBase : Reg)
    (dstDisp : BitVec 32) : X86M Unit := do
  let c ← get
  if valueSz = 0 then pure ()
  else if c.frame.lookupStaticAllocaOffset vreg ≠ 0 then
    emitMemCopyBaseToBase dstBase dstDisp x86Rbp (c.frame.lookupStaticAllocaOffset vreg) valueSz
  else
    let srcOff ← slotOf vreg 8 8
    let c ← get
    let srcSz := c.frame.vregSlotSize vreg
    if valueSz ≤ srcSz then emitMemCopyBaseToBase dstBase dstDisp x86Rbp srcOff valueSz
    else if srcSz = 8 then
      emitMemLoadSized x86R10 x86Rbp srcOff 8
      emitMemCopyBaseToBase dstBase dstDisp x86R10 0 valueSz
    else
      emitMemCopyBaseToBase dstBase dstDisp x86Rbp srcOff srcSz
      emitMemZeroBase dstBase (dstDisp + BitVec.ofNat 32 srcSz) (valueSz - srcSz)

/-- `lr_type_size`, which is 0 for a null pointer. -/
def typeSize (type : Option LrType) : SizeT := type.elim 0 lrTypeSize

/-- `if (size == 0) size = 8;`. -/
def sizeOr8 (size : SizeT) : SizeT := if size = 0 then 8 else size

section Host
variable (host : X86Host)

def emitLoadInst (desc : LrInst) (op0 : LrOperand) : X86M Unit := do
  emitLoadOperand host false op0 x86Rax
  let loadSz := sizeOr8 (typeSize desc.type)
  if loadSz > 8 then
    let dstOff ← slotOf desc.dest loadSz (typeAlign desc.type)
    emitMemCopyBaseToBase x86Rbp dstOff x86Rax 0 loadSz.toNat
  else
    emitMemLoadSized x86Rax x86Rax 0 loadSz.toNat
    emitStoreSlot desc.dest x86Rax

/-- A vreg of more than eight bytes. Unlike a copy into a slot, the address of its bytes goes
to RAX. -/
def emitStoreVreg (vreg : Nat) (storeSz : Nat) : X86M Unit := do
  let c ← get
  if c.frame.lookupStaticAllocaOffset vreg ≠ 0 then
    emitMemCopyBaseToBase x86Rcx 0 x86Rbp (c.frame.lookupStaticAllocaOffset vreg) storeSz
  else
    let srcOff ← slotOf vreg 8 8
    let c ← get
    let srcSz := (c.frame.slot vreg).size.toNat
    if storeSz ≤ srcSz then emitMemCopyBaseToBase x86Rcx 0 x86Rbp srcOff storeSz
    else if srcSz = 8 then
      emitInst (.load 8 x86Rax x86Rbp srcOff)
      emitMemCopyBaseToBase x86Rcx 0 x86Rax 0 storeSz
    else
      emitIf (0 < srcSz) (emitMemCopyBaseToBase x86Rcx 0 x86Rbp srcOff srcSz)
      emitMemZeroBase x86Rcx (BitVec.ofNat 32 srcSz) (storeSz - srcSz)

def emitStoreInst (op0 op1 : LrOperand) : X86M Unit := do
  emitLoadOperand host false op1 x86Rcx
  let storeSz := sizeOr8 (typeSize op0.type)
  if storeSz > 8 then
    match op0.value with
    | .vreg vreg => emitStoreVreg vreg storeSz.toNat
    | _ => emitMemZeroBase x86Rcx 0 storeSz.toNat
  else
    emitLoadOperand host false op0 x86Rax
    emitMemStoreSized x86Rax x86Rcx 0 storeSz.toNat

def instIndices (desc : LrInst) : List (BitVec 32) :=
  match desc.payload with
  | .indices indices => indices
  | _ => []

/-- A field of more than eight bytes. -/
def emitExtractLarge (dest : Nat) (dstAlign : SizeT) (vreg : Nat) (srcIndirect : Bool)
    (fieldOff fieldSz : SizeT) : X86M Unit := do
  let dstOff ← slotOf dest fieldSz dstAlign
  let srcOff ← slotOf vreg 8 8
  if srcIndirect then
    emitMemLoadSized x86R10 x86Rbp srcOff 8
    emitMemCopyBaseToBase x86Rbp dstOff x86R10 (fieldOff.setWidth 32) fieldSz.toNat
  else emitMemCopyBaseToBase x86Rbp dstOff x86Rbp (srcOff + fieldOff.setWidth 32) fieldSz.toNat

/-- A field of at most eight bytes goes to RAX. -/
def emitExtractSmall (vreg : Nat) (srcIndirect : Bool) (fieldOff fieldSz : SizeT) : X86M Unit := do
  let srcOff ← slotOf vreg 8 8
  if srcIndirect then
    emitMemLoadSized x86R10 x86Rbp srcOff 8
    emitMemLoadSized x86Rax x86R10 (fieldOff.setWidth 32) fieldSz.toNat
  else emitMemLoadSized x86Rax x86Rbp (srcOff + fieldOff.setWidth 32) fieldSz.toNat

def emitExtractvalue (desc : LrInst) (op0 : LrOperand) : X86M Unit := do
  let path := op0.type.bind fun type => lrAggregateIndexPath type (instIndices desc)
  let fieldSz := path.elim 8 fun p => sizeOr8 (lrTypeSize p.2)
  let dstAlign := atLeast8 (desc.type.elim 8 lrTypeAlign)
  match op0.value, path with
  | .vreg vreg, some (fieldOff, _) =>
    let c ← get
    let srcIndirect := c.frame.usesIndirectAggregateStorage vreg (typeSize op0.type)
    if fieldSz > 8 then emitExtractLarge desc.dest dstAlign vreg srcIndirect fieldOff fieldSz
    else
      emitExtractSmall vreg srcIndirect fieldOff fieldSz
      emitStoreSlot desc.dest x86Rax
  | .undef, _ | .null, _ =>
    if fieldSz > 8 then
      let dstOff ← slotOf desc.dest fieldSz dstAlign
      emitMemZeroBase x86Rbp dstOff fieldSz.toNat
    else
      emitMovImm x86Rax 0 false
      emitStoreSlot desc.dest x86Rax
  | _, _ =>
    emitLoadOperand host false op0 x86Rax
    emitStoreSlot desc.dest x86Rax

/-- The aggregate that a field is put into. -/
def emitInsertBase (op0 : LrOperand) (dstOff : BitVec 32) (aggSz : SizeT) : X86M Unit :=
  match op0.value with
  | .vreg vreg => emitCopyVregValueBytesToBase vreg aggSz.toNat x86Rbp dstOff
  | .undef | .null => emitMemZeroBase x86Rbp dstOff aggSz.toNat
  | _ =>
    if aggSz ≤ 8 then do
      emitLoadOperand host false op0 x86Rax
      emitMemStoreSized x86Rax x86Rbp dstOff aggSz.toNat
    else emitMemZeroBase x86Rbp dstOff aggSz.toNat

def emitInsertField (op1 : LrOperand) (off : BitVec 32) (fieldSz : SizeT) : X86M Unit :=
  if fieldSz = 0 then pure ()
  else if fieldSz > 8 then
    match op1.value with
    | .vreg vreg => emitCopyVregValueBytesToBase vreg fieldSz.toNat x86Rbp off
    | _ => emitMemZeroBase x86Rbp off fieldSz.toNat
  else do
    -- a null or undefined field is a zero in RAX, which is also how such an operand is loaded
    emitLoadOperand host false op1 x86Rax
    emitMemStoreSized x86Rax x86Rbp off fieldSz.toNat

def emitInsertvalue (desc : LrInst) (op0 op1 : LrOperand) : X86M Unit := do
  let aggSz := atLeast8 (desc.type.elim 8 lrTypeSize)
  let dstOff ← slotOf desc.dest aggSz (atLeast8 (desc.type.elim 8 lrTypeAlign))
  emitInsertBase host op0 dstOff aggSz
  match desc.type.bind fun type => lrAggregateIndexPath type (instIndices desc) with
  | some (fieldOff, fieldTy) =>
    emitInsertField host op1 (dstOff + fieldOff.setWidth 32) (lrTypeSize fieldTy)
  | none => pure ()

end Host

end Liric.Source.X8664
