import Liric.Source.Target.X8664Stream

/-!
# The x86_64 target: operands and immediates in bytes

Source: src/target_x86_64.c:204-248 (`encode_alu_rr`, `encode_mem`), 405-449 (`emit_mov_imm`,
`emit_add_imm`).

What is emitted is a list of bytes. What the target believes of its registers is left out.
-/
namespace Liric.Source.X8664
open Lib

/-- The opcode for operands of one byte. -/
def byteOpcode (opcode : UInt8) : UInt8 :=
  if opcode ∈ [0x01, 0x09, 0x21, 0x29, 0x31, 0x39, 0x85, 0x89] then opcode - 1 else opcode

/-- What stands in front of a ModRM byte. -/
def encodeOpcode (opcode reg rm : UInt8) (size : Nat) : List UInt8 :=
  (if size = 2 then [0x66] else []) ++
    ((if size = 8 ∨ reg ≥ 8 ∨ rm ≥ 8 then [rex (size == 8) (reg ≥ 8) false (rm ≥ 8)] else []) ++
      [opcode])

def encodeAluRr (opcode dst src : UInt8) (size : Nat) : List UInt8 :=
  encodeOpcode (if size = 1 then byteOpcode opcode else opcode) src dst size ++ [modrm 3 src dst]

/-- How many bytes the displacement takes. -/
def dispMod (base : UInt8) (disp : BitVec 32) : UInt8 :=
  if disp = 0 ∧ base &&& 7 ≠ 5 then 0
  else if -128 ≤ disp.toInt ∧ disp.toInt ≤ 127 then 1
  else 2

def encodeMem (opcode reg base : UInt8) (disp : BitVec 32) (size : Nat) : List UInt8 :=
  let mod := dispMod base disp
  encodeOpcode opcode reg base size ++ modrm mod reg base ::
    ((if base &&& 7 = 4 then [0x24] else []) ++
      if mod = 1 then leBytes 1 disp.toNat else if mod = 2 then leBytes 4 disp.toNat else [])

def fitsInt32 (imm : BitVec 64) : Bool := -2 ^ 31 ≤ imm.toInt && imm.toInt < 2 ^ 31

/-- `emit_mov_imm`. -/
def movImmBytes (dst : UInt8) (imm : BitVec 64) (preserveFlags : Bool) : List UInt8 :=
  if imm = 0 ∧ preserveFlags = false then
    (if dst ≥ 8 then [rex false true false true] else []) ++ [0x31, modrm 3 dst dst]
  else if fitsInt32 imm then
    rex true false false (dst ≥ 8) :: 0xC7 :: modrm 3 0 dst :: leBytes 4 imm.toNat
  else rex true false false (dst ≥ 8) :: (0xB8 + (dst &&& 7)) :: leBytes 8 imm.toNat

/-- `emit_add_imm`; R11 is the register of large constants. -/
def addImmBytes (dst : UInt8) (imm : BitVec 64) : List UInt8 :=
  if imm = 0 then []
  else if fitsInt32 imm = false then movImmBytes 11 imm false ++ encodeAluRr 0x01 dst 11 8
  else if 0 ≤ imm.toInt then
    rex true false false (dst ≥ 8) :: 0x81 :: modrm 3 0 dst :: leBytes 4 imm.toNat
  else rex true false false (dst ≥ 8) :: 0x81 :: modrm 3 5 dst :: leBytes 4 (-imm).toNat

end Liric.Source.X8664
