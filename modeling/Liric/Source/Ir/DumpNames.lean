import Mathlib.Data.List.DropRight
import Liric.Source.Ir.Dump
import Liric.Source.Jit.Symbols

/-!
# The names of functions and globals in a dump

Source: src/ir.c:2055-2190 (`display_symbol_name` to `print_display_symbol_ref`), 2232-2242
(`global_is_i8_array_literal`), 2363-2379 and 2430-2443 (the names of operands), 2450-2468 and
2610-3067 (which operands an instruction prints), 3381-3402 (`lr_dump_func_signature`), 3433-3508
(`inst_is_terminator`, `lr_dump_func_opts`), 3656-3875 (which relocations an initializer prints),
3877-3944 (`lr_dump_global_opts`), 3950-4053 (`call_target_name_provided`,
`lr_dump_undeclared_call_targets`).

Of the text only the names behind `@` are kept, each with the symbol it is printed for. The loop
over the siblings counts modulo 2 ^ 32. A C string has room in its buffer of 4096 bytes for 4095.
-/
namespace Liric.Source.Ir
open Jit (localTag strstr)
open Ll (decimalName isDigitAscii isIdentChar spelled)

/-- `LR_DUMP_PRESERVE_SCOPED_LOCALS`. -/
def preservesScopedLocals (flags : BitVec 32) : Bool := flags &&& 1 ≠ 0

def displaySymbolName (flags : BitVec 32) (name : CStr) : CStr :=
  if preservesScopedLocals flags then name
  else
    match strstr name localTag with
    | some suffix => name.take suffix
    | none => name

/-- What stands in front of the last dot, and what behind it. -/
def displayNameLastDot (name : CStr) : Option (CStr × CStr) :=
  match name.reverse.dropWhile (· != 46) with
  | [] => none
  | _ :: base => some (base.reverse, (name.reverse.takeWhile (· != 46)).reverse)

/-- `strtoul` of digits, with ULONG_MAX for what is larger. -/
def strtoul (digits : CStr) : Nat :=
  min (digits.foldl (fun val c => val * 10 + (c - 48).toNat) 0) (2 ^ 64 - 1)

/-- A name with a number behind its last dot, and the number. -/
def numberedName (name : CStr) : Option (CStr × Nat) :=
  match displayNameLastDot name with
  | some (base, digits) =>
    if !base.isEmpty && !digits.isEmpty && digits.all isDigitAscii then some (base, strtoul digits)
    else none
  | none => none

/-- `snprintf` into 4096 bytes. -/
def snprintf4096 (text : CStr) : CStr := text.take 4095

def isSiblingData (base : CStr) (uptoSuffix : Nat) (visible : CStr) : Bool :=
  match numberedName visible with
  | some (stem, suffix) =>
    base.length + 6 < visible.length && stem == base ++ spelled "_data" && suffix ≠ 0 &&
      suffix ≤ uptoSuffix && suffix ≤ uint32Max &&
      snprintf4096 (base ++ spelled "_data." ++ decimalName suffix) == visible
  | none => false

def countSiblingDataSuffixes (flags : BitVec 32) (m : LrModule) (base : CStr) (uptoSuffix : Nat) :
    Nat :=
  let count := m.globals.countP fun g =>
    isSiblingData base uptoSuffix (displaySymbolName flags g.name)
  count % 2 ^ 32

/-- The name that `print_display_symbol_ref` prints. -/
def adjustedName (flags : BitVec 32) (m : LrModule) (name : CStr) : CStr :=
  let display := displaySymbolName flags name
  match numberedName display with
  | some (base, suffix) =>
    if 0 < suffix ∧ suffix ≤ uint32Max then
      let extra := countSiblingDataSuffixes flags m base suffix
      if 0 < extra ∧ base.length + 32 < 4096 then
        base ++ spelled "." ++ decimalName ((suffix + extra) % 2 ^ 32)
      else display
    else display
  | none => display

/-- Without quotes if each character is one of an identifier; the minus sign is not. -/
def printDisplaySymbolRef (flags : BitVec 32) (m : LrModule) (sigil : UInt8) (name : CStr) : CStr :=
  let shown := adjustedName flags m name
  sigil :: if !shown.isEmpty && shown.all isIdentChar then shown else printIrEscapedName shown

/-- A name in a dump, and the symbol it is printed for. -/
structure NameSite where
  symbol : CStr
  text : CStr
  deriving DecidableEq

section Module
variable (flags : BitVec 32) (m : LrModule)

def rawSite (name : CStr) : NameSite := ⟨name, printIrSymbolRef 64 name⟩

def displaySite (name : CStr) : NameSite := ⟨name, printDisplaySymbolRef flags m 64 name⟩

/-- `print_global_addr`, and `print_global_i8_ptr_gep`, whose global has the name of the symbol. An
id without a name is printed as `@g` and the id. -/
def operandSite (op : LrOperand) : Option NameSite :=
  match op.value with
  | .global id => (lrModuleSymbolName m.symbols id).map (displaySite flags m)
  | _ => none

def isCastOp : Opcode → Bool
  | .sext | .zext | .trunc | .bitcast | .ptrtoint | .inttoptr | .sitofp | .uitofp | .fptosi
  | .fptoui | .fpext | .fptrunc => true
  | _ => false

def isVector : LrType → Bool
  | .vector .. => true
  | _ => false

def irGepTrimmableScalarIndex (op : LrOperand) : Bool :=
  match op.value with
  | .undef | .null => true
  | .immI64 val => val == 0
  | _ => false

def LrInst.hasIndices (inst : LrInst) : Bool :=
  match inst.payload with
  | .indices (_ :: _) => true
  | _ => false

/-- The operands that `lr_dump_inst_opts` prints. -/
def dumpedOperands (inst : LrInst) : List LrOperand :=
  let ops := inst.operands
  let firstType := ops.head?.bind LrOperand.type
  match inst.op with
  | .retVoid | .unreachable => []
  | .ret | .br | .load | .alloca => ops.take 1
  | .condbr | .select => if 3 ≤ ops.length then ops.take 3 else []
  | .store => if 2 ≤ ops.length then ops.take 2 else []
  | .gep =>
    if inst.type.any LrType.isAggregate then ops
    else ops.take 2 ++ (ops.drop 2).rdropWhile irGepTrimmableScalarIndex
  | .phi => ops.take (ops.length / 2 * 2)
  | .extractvalue =>
    if inst.hasIndices then ops.take 1
    else if firstType.any isVector then ops.take 2
    else ops
  | .insertvalue =>
    if ops.length < 2 then []
    else if inst.hasIndices then ops.take 2
    else if inst.type.any isVector || firstType.any isVector then ops.take 3
    else ops
  | op => if isCastOp op then (if firstType.isSome then ops.take 1 else []) else ops

def instIsTerminator (inst : LrInst) : Bool :=
  match inst.op with
  | .ret | .retVoid | .br | .condbr | .unreachable => true
  | _ => false

/-- The first terminator comes last, and the others are left out. -/
def dumpedInsts (b : LrBlock) : List LrInst :=
  b.insts.filter (fun inst => !instIsTerminator inst) ++ (b.insts.find? instIsTerminator).toList

def funcReferences (f : LrFunc) : List NameSite :=
  if f.isDefinition then
    (f.blocks.flatMap fun b => (dumpedInsts b).flatMap dumpedOperands).filterMap
      (operandSite flags m)
  else []

def globalInitByte (g : LrGlobal) (off : SizeT) : UInt8 :=
  if g.initSize ≤ off.toNat then 0 else (g.initData.getD []).getD off.toNat 0

def globalHasRelocInRange (g : LrGlobal) (off len : SizeT) : Bool :=
  len ≠ 0 && g.relocs.any fun r => off.toNat ≤ r.offset && r.offset < (off + len).toNat

def globalRelocAt (g : LrGlobal) (off : SizeT) : Option LrReloc :=
  g.relocs.find? fun r => r.offset == off.toNat

def globalRangeAllZero (g : LrGlobal) (off len : SizeT) : Bool :=
  len == 0 || (!globalHasRelocInRange g off len &&
    (List.range len.toNat).all fun i => globalInitByte g (off + BitVec.ofNat 64 i) == 0)

mutual
/-- The relocations that `dump_global_const_expr` prints. -/
def constExprRelocs (g : LrGlobal) : LrType → SizeT → List LrReloc
  | .scalar .., _ | .func .., _ => []
  | .ptr .., off => (globalRelocAt g off).toList.filter fun r => !r.symbolName.isEmpty
  | .array _ elem count, off | .vector _ elem count, off =>
    if globalRangeAllZero g off (lrTypeSize elem * count) then []
    else
      (List.range count.toNat).flatMap fun i =>
        constExprRelocs g elem (off + BitVec.ofNat 64 i * lrTypeSize elem)
  | .struct addr fields packed name, off =>
    let st := LrType.struct addr fields packed name
    if globalRangeAllZero g off (lrTypeSize st) then [] else fieldRelocs g st fields 0 off

/-- Those of the fields from place `i` on. -/
def fieldRelocs (g : LrGlobal) (st : LrType) : List LrType → Nat → SizeT → List LrReloc
  | [], _, _ => []
  | field :: rest, i, off =>
    constExprRelocs g field (off + lrStructFieldOffset st i) ++ fieldRelocs g st rest (i + 1) off
end

def globalIsI8ArrayLiteral (g : LrGlobal) : Bool :=
  match g.type with
  | some (.array _ (.scalar _ .i8) count) =>
    g.isConst && g.relocs.isEmpty && g.initData.isSome && g.initSize == count.toNat &&
      0 < g.initSize
  | _ => false

def isFuncGlobal (g : LrGlobal) : Bool :=
  match g.type with
  | some (.func ..) => true
  | _ => false

/-- A global without a type is a pointer. -/
def globalReferences (g : LrGlobal) : List NameSite :=
  if isFuncGlobal g || g.isExternal || globalIsI8ArrayLiteral g then []
  else if (g.initData.isSome && 0 < g.initSize) || !g.relocs.isEmpty then
    (constExprRelocs g (g.type.getD (.ptr 0 none)) 0).map fun r => displaySite flags m r.symbolName
  else []

def globalDefinition (g : LrGlobal) : NameSite :=
  if isFuncGlobal g then rawSite g.name else displaySite flags m g.name

def funcDefinition (f : LrFunc) : NameSite := rawSite f.name

def callTargetNameProvided (name : CStr) : Bool :=
  m.funcs.any (fun f => f.name == name) || m.globals.any fun g => isFuncGlobal g && g.name == name

/-- The name of the global that an instruction calls. -/
def callTarget (inst : LrInst) : Option CStr :=
  if inst.op ≠ .call then none
  else
    match inst.operands with
    | ⟨.global id, _, _⟩ :: _ => lrModuleSymbolName m.symbols id
    | _ => none

/-- `lr_dump_undeclared_call_targets`, each once. -/
def undeclaredCallTargets : List CStr :=
  let insts := m.funcs.flatMap fun f => f.blocks.flatMap LrBlock.insts
  ((insts.filterMap (callTarget m)).filter fun name =>
    !name.isEmpty && !callTargetNameProvided m name).eraseDups

/-- Where `lr_module_dump_opts` defines or declares a symbol. -/
def definitionSites : List NameSite :=
  m.globals.map (globalDefinition flags m) ++
    (undeclaredCallTargets m).map (displaySite flags m) ++ m.funcs.map funcDefinition

/-- Where it refers to one. -/
def referenceSites : List NameSite :=
  m.globals.flatMap (globalReferences flags m) ++ m.funcs.flatMap (funcReferences flags m)

end Module

end Liric.Source.Ir
