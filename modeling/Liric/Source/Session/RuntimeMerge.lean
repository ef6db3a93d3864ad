import Liric.Source.Ir.Merge
import Liric.Source.RuntimeArchive
import Liric.Source.Session.BlobPackage

/-!
# Merging the runtime archive of a session

Source: src/session.c:410-462 (`merge_runtime_archive_into_module`), 643-658
(`session_runtime_archive_backend`).

The parser of the text is a parameter, its message no longer than its buffer. The target is the
one that `session_resolve_target` finds, with an empty name if it finds none. Codes of errors
are left out, and `lr_module_merge` does not fail on modules.
-/
namespace Liric.Source.Session
open Lib Ir

/-- The default is copy and patch, 2. -/
def sessionRuntimeArchiveBackend (backend : BitVec 32) : BitVec 32 :=
  if backend = 0 then 2 else backend

/-- The memory from the archive on, and the fields of `lr_session` it is merged into. -/
structure RuntimeSession where
  memory : Nat → UInt8
  runtimeArchiveLen : Nat
  merged : Bool
  targetName : CStr
  backend : BitVec 32
  module : LrModule
  blobs : List FuncBlob

variable (lrParseLl : List UInt8 → Except String LrModule)

/-- The blobs of an archive whose text has been merged into the module `m`. -/
def importRuntimeBlobs (s : RuntimeSession) (m : LrModule) (pkg : Slice) :
    Option (Except String Unit × RuntimeSession) :=
  (lrSessionImportBlobPackage (fun i => s.memory (pkg.off + i)) pkg.len ⟨s.blobs, m.symbols⟩).map
    fun (rc, err, t) =>
      let s := { s with module := { m with symbols := t.symbols }, blobs := t.blobs }
      if rc = 0 then (.ok (), { s with merged := true }) else (.error (err.getD ""), s)

def mergeRuntimeArchiveIntoModule (s : RuntimeSession) :
    Option (Except String Unit × RuntimeSession) :=
  let data := readBytes s.memory 0 s.runtimeArchiveLen
  if s.runtimeArchiveLen = 0 ∨ s.merged then some (.ok (), s)
  else match lrRuntimeArchiveParse data with
  | none => some (.error "runtime archive parse failed", s)
  | some archive =>
    if s.targetName = [] then some (.error "runtime archive target resolution failed", s)
    else if archive.targetName.bytes data ≠ s.targetName then
      some (.error "runtime archive target mismatch", s)
    else if archive.backend ≠ sessionRuntimeArchiveBackend s.backend then
      some (.error "runtime archive backend mismatch", s)
    else match lrParseLl (archive.irText.bytes data) with
    | .error msg => some (.error ("runtime archive IR parse failed: " ++
        if msg = "" then "unknown parse error" else msg), s)
    | .ok rt =>
      (lrModuleMerge s.module rt).bind fun m => importRuntimeBlobs s m archive.blobPkg

end Liric.Source.Session
