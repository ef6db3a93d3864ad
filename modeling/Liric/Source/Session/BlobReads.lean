import Liric.Source.Session.BlobPackage

/-!
# What the import of a blob package reads

Source: src/session.c:1025-1066, 1359-1445.

The steps of the import again, each with the ranges of the package it reads: the offset of a
range and its length. The reserved bytes of a relocation are passed over unread.
-/
namespace Liric.Source.Session
open Lib Ir

/-- A step, and what it reads from a state on. -/
structure Reading (α : Type) where
  run : ImportM α
  reads : ImportState → List (Nat × Nat)

/-- What follows a step reads only if the step succeeds. -/
def readsAfter {α : Type} (x : ImportM α) (reads : α → ImportState → List (Nat × Nat))
    (s : ImportState) : List (Nat × Nat) :=
  match x s with
  | some (.ok a, t) => reads a t
  | _ => []

instance : Monad Reading where
  pure a := ⟨pure a, fun _ => []⟩
  bind x f :=
    ⟨x.run >>= fun a => (f a).run, fun s => x.reads s ++ readsAfter x.run (fun a => (f a).reads) s⟩

/-- A step that does not look at the package. -/
def unread {α : Type} (x : ImportM α) : Reading α := ⟨x, fun _ => []⟩

section
variable (data : Nat → UInt8) (len : Nat)

def r32Reading (msg : String) : Reading (BitVec 32) :=
  ⟨r32 data len msg, fun s => if s.pos + 4 > len then [] else [(s.pos, 4)]⟩

def r64Reading (msg : String) : Reading (BitVec 64) := do
  let lo ← r32Reading data len msg
  let hi ← r32Reading data len msg
  pure (hi.setWidth 64 <<< 32 ||| lo.setWidth 64)

/-- `memcpy` of the next `n` bytes. -/
def sliceReading (n : Nat) : Reading (List UInt8) := ⟨slice data n, fun s => [(s.pos, n)]⟩

def importNameReading (parseMsg internMsg : String) : Reading CStr := do
  let n ← r32Reading data len parseMsg
  unread (require (fun s => n.toNat ≠ 0 && s.pos + n.toNat ≤ len) parseMsg)
  let bytes ← sliceReading data n.toNat
  unread (moduleInternNameSlice bytes internMsg)

/-- `relocs[ri].type = *p++; p += 3` -/
def typeReading : Reading (List UInt8) := ⟨slice data 4, fun s => [(s.pos, 1)]⟩

def importRelocReading : Reading CachedReloc := do
  let offset ← r32Reading data len "invalid blob relocation entry"
  unread (require (fun s => s.pos + 4 ≤ len) "invalid blob relocation entry")
  let typeBytes ← typeReading data
  let symbolName ← importNameReading data len "invalid blob relocation symbol"
    "failed to intern relocation symbol"
  pure { offset := offset, type := typeBytes.headD 0, symbolName := symbolName }

def repeatReading {α : Type} (x : Reading α) : Nat → Reading (List α)
  | 0 => pure []
  | n + 1 => do
    let a ← x
    let rest ← repeatReading x n
    pure (a :: rest)

def importBlobReading : Reading Unit := do
  let name ← importNameReading data len "invalid blob function name"
    "failed to intern blob function name"
  let codeLen ← r64Reading data len "invalid blob code payload"
  unread (require (fun s => codeLen.toNat ≤ len - s.pos) "invalid blob code payload")
  let numRelocs ← r32Reading data len "invalid blob relocation header"
  let code ← sliceReading data codeLen.toNat
  let relocs ← repeatReading (importRelocReading data len) numRelocs.toNat
  unread (modify (fun s => { s with session := { s.session with
    blobs := s.session.blobs ++ [{ name := name, code := code, relocs := relocs }] } }))

def importBlobsReading : Reading Unit := do
  let version ← r32Reading data len "invalid blob package header"
  let blobCount ← r32Reading data len "invalid blob package header"
  unread (require (fun _ => version == 1) "unsupported blob package version")
  let _ ← repeatReading (importBlobReading data len) blobCount.toNat
  pure ()

/-- `memcmp` with the magic number. -/
def magicReading : Reading Unit :=
  ⟨require (fun _ => len ≥ 16 && readBytes data 0 8 == blobPkgMagic) "invalid blob package magic",
    fun _ => if len ≥ 16 then [(0, 8)] else []⟩

def importPackageReading : Reading Unit := do
  unread (require (fun _ => len ≠ 0) "invalid import_blob_package arguments")
  magicReading data len
  let _ ← unread (slice data 8)
  importBlobsReading data len
  unread (require (fun s => s.pos == len) "blob package has trailing bytes")

/-- The ranges `lr_session_import_blob_package` reads. -/
def lrSessionImportBlobPackageReads (s : BlobSession) : List (Nat × Nat) :=
  (importPackageReading data len).reads { pos := 0, session := s }

end

end Liric.Source.Session
