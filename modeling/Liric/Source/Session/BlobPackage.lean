import Liric.Lib.Bytes
import Liric.Source.Ir.Symbols

/-!
# Blob packages

Source: src/objfile.h:67-81 (`lr_cached_reloc_t`, `lr_func_blob_t`), src/session.c:1005-1066
(`blob_pkg_w32` to `module_intern_name_slice`), 1233-1456 (`lr_session_export_blob_package`,
`lr_session_import_blob_package`).

A package is read from a memory of which only the first `len` bytes belong to the
caller: the length of the code is compared with the rest of the package before
the count of the relocations is read, so up to four bytes behind the end may be
copied. Allocations succeed, the array of blobs grows as needed. `none` is an
interning that does not end. A missing name is an empty one.
-/
namespace Liric.Source.Session
open Lib Ir

structure CachedReloc where
  offset : BitVec 32
  type : UInt8
  symbolName : CStr
  deriving DecidableEq

structure FuncBlob where
  name : CStr
  code : List UInt8
  relocs : List CachedReloc
  deriving DecidableEq

/-- The fields of `lr_session` a package is written from and read into. -/
structure BlobSession where
  blobs : List FuncBlob
  symbols : SymbolTable
  deriving DecidableEq

def blobPkgMagic : List UInt8 := [76, 82, 66, 76, 79, 66, 49, 0]

def w32 (v : Nat) : List UInt8 := leBytes 4 v
def w64 (v : Nat) : List UInt8 := leBytes 8 v

/-- A name behind its length; the length is cut to 32 bits. -/
def exportName (name : CStr) : List UInt8 := w32 name.length ++ name.take (name.length % 2 ^ 32)

def exportReloc (r : CachedReloc) : List UInt8 :=
  w32 r.offset.toNat ++ [r.type, 0, 0, 0] ++ exportName r.symbolName

def exportBlob (blob : FuncBlob) : List UInt8 :=
  exportName blob.name ++ w64 blob.code.length ++ w32 blob.relocs.length ++ blob.code ++
    blob.relocs.flatMap exportReloc

def relocSize (r : CachedReloc) : Nat := 4 + (1 + 3) + (4 + r.symbolName.length)

def blobSize (blob : FuncBlob) : Nat :=
  4 + blob.name.length + 8 + 4 + blob.code.length + (blob.relocs.map relocSize).sum

/-- The first blob or relocation without a name. -/
def exportError (blob : FuncBlob) : Option String :=
  if blob.name = [] then some "blob export encountered unnamed function"
  else if blob.relocs.any (fun r => r.symbolName == []) then
    some "blob export encountered relocation without symbol name"
  else none

def lrSessionExportBlobPackage (s : BlobSession) : Except String (List UInt8) :=
  match s.blobs.findSome? exportError with
  | some msg => .error msg
  | none =>
    let total := 8 + 4 + 4 + (s.blobs.map blobSize).sum
    let bytes := blobPkgMagic ++ w32 1 ++ w32 s.blobs.length ++ s.blobs.flatMap exportBlob
    if bytes.length ≠ total then .error "blob package size mismatch" else .ok bytes

structure ImportState where
  pos : Nat
  session : BlobSession
  deriving DecidableEq

/-- A step of the import; a failure keeps the state, as `goto fail` does. -/
abbrev ImportM := ExceptT String (StateT ImportState Option)

section
variable (data : Nat → UInt8) (len : Nat)

def r32 (msg : String) : ImportM (BitVec 32) := fun s =>
  if s.pos + 4 > len then some (.error msg, s)
  else some (.ok (BitVec.ofNat 32 (leNat (readBytes data s.pos 4))), { s with pos := s.pos + 4 })

def r64 (msg : String) : ImportM (BitVec 64) := do
  let lo ← r32 data len msg
  let hi ← r32 data len msg
  pure (hi.setWidth 64 <<< 32 ||| lo.setWidth 64)

def require (ok : ImportState → Bool) (msg : String) : ImportM Unit := fun s =>
  some (if ok s then .ok () else .error msg, s)

/-- The next `n` bytes, copied without a check. -/
def slice (n : Nat) : ImportM (List UInt8) := fun s =>
  some (.ok (readBytes data s.pos n), { s with pos := s.pos + n })

/-- The bytes up to the first NUL are interned, and the name is read back. -/
def moduleInternNameSlice (bytes : List UInt8) (msg : String) : ImportM CStr := fun s =>
  match lrModuleInternSymbol s.session.symbols (bytes.takeWhile (· != 0)) with
  | none => none
  | some (symbols, id) =>
    some (match lrModuleSymbolName symbols id with
      | some name => .ok name
      | none => .error msg, { s with session := { s.session with symbols := symbols } })

/-- A non-empty name behind its length. -/
def importName (parseMsg internMsg : String) : ImportM CStr := do
  let n ← r32 data len parseMsg
  require (fun s => n.toNat ≠ 0 && s.pos + n.toNat ≤ len) parseMsg
  let bytes ← slice data n.toNat
  moduleInternNameSlice bytes internMsg

def importReloc : ImportM CachedReloc := do
  let offset ← r32 data len "invalid blob relocation entry"
  require (fun s => s.pos + 4 ≤ len) "invalid blob relocation entry"
  let typeBytes ← slice data 4
  let symbolName ← importName data len "invalid blob relocation symbol"
    "failed to intern relocation symbol"
  pure { offset := offset, type := typeBytes.headD 0, symbolName := symbolName }

/-- `n` rounds of a step, with the results in order. -/
def repeatImport {α : Type} (x : ImportM α) : Nat → ImportM (List α)
  | 0 => pure []
  | n + 1 => do
    let a ← x
    let rest ← repeatImport x n
    pure (a :: rest)

def importBlob : ImportM Unit := do
  let name ← importName data len "invalid blob function name"
    "failed to intern blob function name"
  let codeLen ← r64 data len "invalid blob code payload"
  require (fun s => codeLen.toNat ≤ len - s.pos) "invalid blob code payload"
  let numRelocs ← r32 data len "invalid blob relocation header"
  let code ← slice data codeLen.toNat
  let relocs ← repeatImport (importReloc data len) numRelocs.toNat
  modify (fun s => { s with session := { s.session with
    blobs := s.session.blobs ++ [{ name := name, code := code, relocs := relocs }] } })

/-- Version, count and blobs. -/
def importBlobs : ImportM Unit := do
  let version ← r32 data len "invalid blob package header"
  let blobCount ← r32 data len "invalid blob package header"
  require (fun _ => version == 1) "unsupported blob package version"
  let _ ← repeatImport (importBlob data len) blobCount.toNat
  pure ()

/-- Magic number, blobs, and the check that nothing is left. -/
def importPackage : ImportM Unit := do
  require (fun _ => len ≠ 0) "invalid import_blob_package arguments"
  require (fun _ => len ≥ 16 && readBytes data 0 8 == blobPkgMagic) "invalid blob package magic"
  let _ ← slice data 8
  importBlobs data len
  require (fun s => s.pos == len) "blob package has trailing bytes"

/-- The return value, the error message, and the session; on failure the blobs
behind the original count are dropped. -/
def lrSessionImportBlobPackage (s : BlobSession) : Option (Int × Option String × BlobSession) :=
  match importPackage data len { pos := 0, session := s } with
  | none => none
  | some (.ok _, t) => some (0, none, t.session)
  | some (.error msg, t) =>
    some (-1, some msg, { t.session with blobs := t.session.blobs.take s.blobs.length })

end

end Liric.Source.Session
