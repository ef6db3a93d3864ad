import Liric.Lib.Buffer
import Liric.Source.Ir.Symbols

/-!
# Runtime archives

Source: src/runtime_archive.c (`lr_runtime_archive_write`, `lr_runtime_archive_parse`).

What `fwrite` has written is a list of bytes; it writes all it is given. Lengths that are
written are cut to the widths of their fields. A pointer into the input is its offset, and
`none` is the return value -1; what a failed parse leaves in `out_info` is left out.
-/
namespace Liric.Source
open Lib Ir

/-- `"LRARCH1"` with its NUL. -/
def runtimeArchiveMagic : List UInt8 := [76, 82, 65, 82, 67, 72, 49, 0]

/-- A pointer into the input and a length. -/
structure Slice where
  off : Nat
  len : Nat
  deriving DecidableEq

def Slice.bytes (s : Slice) (data : List UInt8) : List UInt8 := bytesAt data s.off s.len

structure RuntimeArchiveInfo where
  version : BitVec 32
  backend : BitVec 32
  targetName : Slice
  irText : Slice
  blobPkg : Slice
  deriving DecidableEq

def runtimeArchiveHeader (backend : BitVec 32) (targetNameLen irLen blobPkgLen : Nat) :
    List UInt8 :=
  runtimeArchiveMagic ++ leBytes 4 2 ++ leBytes 4 backend.toNat ++ leBytes 4 targetNameLen ++
    leBytes 8 irLen ++ leBytes 8 blobPkgLen

def lrRuntimeArchiveWrite (targetName : CStr) (backend : BitVec 32) (irText blobPkg : List UInt8) :
    Option (List UInt8) :=
  let name := targetName.takeWhile (· != 0)
  if name = [] ∨ backend = 0 ∨ irText = [] ∨ blobPkg = [] then none
  else if name.length > uint32Max then none
  else some (runtimeArchiveHeader backend name.length irText.length blobPkg.length ++ name ++
    irText ++ blobPkg)

section Parse
variable (data : List UInt8)

/-- The word of `n` bytes at the cursor, and the cursor behind it. -/
def runtimeArchiveRead (n p : Nat) : Option (Nat × Nat) :=
  if data.length - p < n then none else some (leNat (bytesAt data p n), p + n)

/-- The slice of a length at the cursor, and the cursor behind it. -/
def runtimeArchiveSlice (len p : Nat) : Option (Slice × Nat) :=
  if len > data.length - p then none else some (⟨p, len⟩, p + len)

def lrRuntimeArchiveParse : Option RuntimeArchiveInfo := do
  if data.length < 32 then none
  if bytesAt data 0 8 ≠ runtimeArchiveMagic then none
  let (version, p) ← runtimeArchiveRead data 4 8
  if version ≠ 2 then none
  let (backend, p) ← runtimeArchiveRead data 4 p
  if backend = 0 then none
  let (targetNameLen, p) ← runtimeArchiveRead data 4 p
  if targetNameLen = 0 then none
  let (irLen, p) ← runtimeArchiveRead data 8 p
  let (blobLen, p) ← runtimeArchiveRead data 8 p
  if irLen = 0 ∨ blobLen = 0 then none
  let (targetName, p) ← runtimeArchiveSlice data targetNameLen p
  let (irText, p) ← runtimeArchiveSlice data irLen p
  let (blobPkg, p) ← runtimeArchiveSlice data blobLen p
  if p ≠ data.length then none
  some ⟨BitVec.ofNat 32 version, BitVec.ofNat 32 backend, targetName, irText, blobPkg⟩

end Parse

end Liric.Source
