import Liric.Lib.Buffer

/-!
# Patching words of the code buffer

Source: src/jit.c:1787-1862 (`read_u32` to `patch_aarch64_pageoff12`).

The byte-level side of the relocations: a patch returns its status and the buffer it leaves.
`buf` is the address of the first byte. Offsets are words of 32 bits, in whose width the
indices of the four bytes are added; addresses are words of 64 bits, differences of which
wrap around.
-/
namespace Liric.Source.Jit.Patching

/-- The bytes at an address. -/
structure CodeBuf where
  buf : BitVec 64
  bytes : List UInt8
  deriving DecidableEq

def CodeBuf.buflen (code : CodeBuf) : Nat := code.bytes.length

/-- `(uintptr_t)(buf + off)` -/
def CodeBuf.place (code : CodeBuf) (off : BitVec 32) : BitVec 64 := code.buf + off.setWidth 64

def readU32 (code : CodeBuf) (off : BitVec 32) : BitVec 32 :=
  let byte (i : BitVec 32) : BitVec 32 := (code.bytes.getD i.toNat 0).toBitVec.setWidth 32
  byte off ||| byte (off + 1) <<< 8 ||| byte (off + 2) <<< 16 ||| byte (off + 3) <<< 24

def writeU32 (code : CodeBuf) (off value : BitVec 32) : Int × CodeBuf :=
  if off.toNat + 4 > code.buflen then (-1, code)
  else
    let byte (v : BitVec 32) : UInt8 := UInt8.ofBitVec (v.setWidth 8)
    (0, { code with
      bytes := (((code.bytes.set off.toNat (byte value)).set (off + 1).toNat
        (byte (value >>> 8))).set (off + 2).toNat (byte (value >>> 16))).set (off + 3).toNat
          (byte (value >>> 24)) })

/-- The eight bytes lie in one piece in a buffer of up to 4 GiB. -/
def writeU64 (code : CodeBuf) (off : BitVec 32) (value : BitVec 64) : Int × CodeBuf :=
  if off.toNat + 8 > code.buflen then (-1, code)
  else (0, { code with bytes := Lib.overwrite code.bytes off.toNat (Lib.leBytes 8 value.toNat) })

def patchX86Rel32 (code : CodeBuf) (off : BitVec 32) (target : BitVec 64) : Int × CodeBuf :=
  let disp := target - (code.place off + 4)
  if disp.toInt < -2 ^ 31 ∨ disp.toInt > 2 ^ 31 - 1 then (-1, code)
  else writeU32 code off (disp.setWidth 32)

def patchAarch64Branch26 (code : CodeBuf) (off : BitVec 32) (target : BitVec 64) : Int × CodeBuf :=
  if off.toNat + 4 > code.buflen then (-1, code)
  else
    let imm := (target - code.place off).toInt.tdiv 4
    if imm < -2 ^ 25 ∨ imm ≥ 2 ^ 25 then (-1, code)
    else
      let insn := readU32 code off
      let insn := (insn &&& 0xFC000000) ||| (BitVec.ofInt 32 imm &&& 0x03FFFFFF)
      writeU32 code off insn

def patchAarch64Page21 (code : CodeBuf) (off : BitVec 32) (target : BitVec 64) : Int × CodeBuf :=
  if off.toNat + 4 > code.buflen then (-1, code)
  else
    let targetPage := target &&& ~~~0xFFF
    let placePage := code.place off &&& ~~~0xFFF
    let pages := (targetPage - placePage).sshiftRight 12
    if pages.toInt < -2 ^ 20 ∨ pages.toInt ≥ 2 ^ 20 then (-1, code)
    else
      let insn := readU32 code off
      let insn := insn &&& ~~~((0x3#32 <<< 29) ||| (0x7FFFF#32 <<< 5))
      let insn := insn ||| ((pages.setWidth 32 &&& 0x3) <<< 29)
      let insn := insn ||| (((pages.setWidth 32 >>> 2) &&& 0x7FFFF) <<< 5)
      writeU32 code off insn

def patchAarch64Pageoff12 (code : CodeBuf) (off : BitVec 32) (target : BitVec 64)
    (gotLoad : Bool) : Int × CodeBuf :=
  if off.toNat + 4 > code.buflen then (-1, code)
  else
    let imm : BitVec 32 := (target &&& 0xFFF).setWidth 32
    if gotLoad ∧ imm &&& 0x7 ≠ 0 then (-1, code)
    else
      let imm := if gotLoad then imm >>> 3 else imm
      let insn := readU32 code off
      let insn := insn &&& ~~~(0xFFF#32 <<< 10)
      let insn := insn ||| ((imm &&& 0xFFF) <<< 10)
      writeU32 code off insn

end Liric.Source.Jit.Patching
