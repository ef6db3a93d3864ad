import Liric.Guarantees.BlobRoundTrip
import Liric.Guarantees.CollisionFlag
import Liric.Guarantees.RuntimeArchive
import Liric.Source.Session.RuntimeMerge

/-!
# A runtime archive is merged once

Executables may be written any number of times, and anything else be done in between. An archive
written from the blobs of another session brings them in once.
-/
namespace Liric.Guarantees.RuntimeMerge
open Lib Source Source.Ir Source.Session BlobRoundTrip RuntimeArchive SymbolInterning List

/-- What happens to a session: the archive is merged for an executable, or something that leaves
the archive and its flag alone. -/
inductive RuntimeStep where
  | merge
  | other (change : LrModule → List FuncBlob → LrModule × List FuncBlob)

def RuntimeStep.changed (s : RuntimeSession) : RuntimeStep → RuntimeSession
  | .merge => s
  | .other change =>
    { s with module := (change s.module s.blobs).1, blobs := (change s.module s.blobs).2 }

variable (lrParseLl : List UInt8 → Except String LrModule)

def step (s : RuntimeSession) : RuntimeStep → Option RuntimeSession
  | .merge => (mergeRuntimeArchiveIntoModule lrParseLl s).map Prod.snd
  | other => some (other.changed s)

def run (steps : List RuntimeStep) (s : RuntimeSession) : Option RuntimeSession :=
  steps.foldlM (step lrParseLl) s

/-- An archive for the target and the backend of the session, of the blobs of a producer. -/
structure Written (producer : BlobSession) (irText : List UInt8) (s : RuntimeSession) where
  pkg : List UInt8
  bytes : List UInt8
  exported : lrSessionExportBlobPackage producer = .ok pkg
  written : lrRuntimeArchiveWrite s.targetName (sessionRuntimeArchiveBackend s.backend) irText pkg =
    some bytes
  holds : Holds s.memory 0 bytes
  len : s.runtimeArchiveLen = bytes.length
  name : 0 ∉ s.targetName
  irText_lt : irText.length < 2 ^ 64
  pkg_lt : pkg.length < 2 ^ 64

variable {lrParseLl} {producer : BlobSession} {irText : List UInt8} {s : RuntimeSession}
  {rt m : LrModule}

theorem run_merged (steps : List RuntimeStep) (h : s.merged = true) :
    run lrParseLl steps s = some (steps.foldl RuntimeStep.changed s) := by
  induction steps generalizing s with
  | nil => rfl
  | cons first rest ih =>
    have hstep : step lrParseLl s first = some (first.changed s) := by
      cases first with
      | merge => simp [step, mergeRuntimeArchiveIntoModule, h, RuntimeStep.changed]
      | other change => rfl
    rw [run, foldlM_cons, hstep]
    apply ih
    cases first <;> exact h

theorem Written.archive (w : Written producer irText s) : ∃ a : Archive, w.bytes = a.bytes ∧
    a.name = s.targetName ∧ a.backend = sessionRuntimeArchiveBackend s.backend ∧
      a.irText = irText ∧ a.blobPkg = w.pkg := by
  have hwritten := w.written
  rw [lrRuntimeArchiveWrite, takeWhile_of_noNul w.name] at hwritten
  obtain ⟨hargs, hwritten⟩ := Option.ite_none_left_eq_some.1 hwritten
  obtain ⟨hlong, hbytes⟩ := Option.ite_none_left_eq_some.1 hwritten
  simp only [not_or] at hargs
  have hlt : s.targetName.length < 2 ^ 32 := by
    rw [uint32Max] at hlong
    omega
  exact ⟨⟨_, _, _, _, hargs.2.1, hargs.1, hargs.2.2.1, hargs.2.2.2, hlt, w.irText_lt, w.pkg_lt⟩,
    (Option.some.inj hbytes).symm, rfl, rfl, rfl, rfl⟩

section Merge
variable (w : Written producer irText s) (hblobs : ∀ b ∈ producer.blobs, BlobOk b)
  (hcount : producer.blobs.length < 2 ^ 32) (hparse : lrParseLl irText = .ok rt)
  (hmerge : lrModuleMerge s.module rt = some m) (hsound : CollisionRuns.Sound s.module)
  (hfew : ((producer.blobs.flatMap blobNames).foldl addName m.symbols.symbolNames).length < 2 ^ 30)
  (hmerged : s.merged = false)
include w hblobs hcount hparse hmerge hsound hfew hmerged

/-- The text is merged into the module and the blobs are behind those of the session. -/
theorem merge_written :
    ∃ symbols, mergeRuntimeArchiveIntoModule lrParseLl s = some (.ok (), { s with
      module := { m with symbols := symbols }
      blobs := s.blobs ++ producer.blobs
      merged := true }) := by
  obtain ⟨a, hbytes, hname, hbackend, hir, hpkg⟩ := w.archive
  have hlen := w.len
  have hholds := w.holds
  rw [hbytes] at hlen hholds
  obtain ⟨hnameBytes, hirBytes, -⟩ := a.slices_bytes
  have hdata : readBytes s.memory 0 s.runtimeArchiveLen = a.bytes := by rw [hlen, hholds.readBytes]
  have hnonempty : ¬ (s.runtimeArchiveLen = 0 ∨ s.merged = true) := by
    rw [hlen, a.length_bytes, hmerged]
    simp
  have hexported := w.exported
  rw [lrSessionExportBlobPackage_ok producer hblobs, ← hpkg] at hexported
  have hpkgHolds : Holds (fun i => s.memory (a.info.blobPkg.off + i)) 0 a.blobPkg := by
    have happend := hholds
    rw [Archive.bytes, holds_append] at happend
    intro i hi
    simpa [Archive.info, Archive.length_header, Nat.add_assoc] using happend.2 i hi
  obtain ⟨symbols, himport⟩ := importPackage_run hblobs hcount (Except.ok.inj hexported).symm
    hpkgHolds rfl ⟨s.blobs, m.symbols⟩ (CollisionFlag.sound_merge hsound hmerge).symbols hfew
  refine ⟨symbols, ?_⟩
  simp only [mergeRuntimeArchiveIntoModule, hdata, if_neg hnonempty, a.parse_bytes, hnameBytes,
    hirBytes, ← hname, if_neg a.name_ne, ne_eq, not_true, if_false, hir, hparse, hmerge]
  rw [if_neg (by simp [Archive.info, hbackend])]
  simp only [Option.bind_some, importRuntimeBlobs, lrSessionImportBlobPackage]
  rw [show a.info.blobPkg.len = a.blobPkg.length from rfl, himport]
  simp [hname]

/-- However often executables are written, the archive comes in where the first one is. -/
theorem merged_once (after : List RuntimeStep) :
    ∃ symbols, run lrParseLl (.merge :: after) s = some (after.foldl RuntimeStep.changed { s with
      module := { m with symbols := symbols }
      blobs := s.blobs ++ producer.blobs
      merged := true }) := by
  obtain ⟨symbols, hrun⟩ := merge_written w hblobs hcount hparse hmerge hsound hfew hmerged
  refine ⟨symbols, ?_⟩
  have hstep : step lrParseLl s .merge = _ := congrArg (Option.map Prod.snd) hrun
  rw [run, foldlM_cons, hstep]
  exact run_merged after rfl

end Merge

def sampleBlob : FuncBlob := { name := [102], code := [0xC3], relocs := [] }

def samplePkg : List UInt8 := blobPkgMagic ++ (w32 1 ++ (w32 1 ++ exportBlob sampleBlob))

def sampleBytes : List UInt8 := (lrRuntimeArchiveWrite [120] 2 [65] samplePkg).getD []

/-- A session for the target `x` with the default backend. -/
def sampleRuntime : RuntimeSession where
  memory := fun i => sampleBytes.getD i 0
  runtimeArchiveLen := sampleBytes.length
  merged := false
  targetName := [120]
  backend := 0
  module := CollisionFlag.lrModuleCreate 0 0
  blobs := []

def sampleWritten : Written ⟨[sampleBlob], .empty⟩ [65] sampleRuntime where
  pkg := samplePkg
  bytes := sampleBytes
  exported := by rfl
  written := by rfl
  holds := by
    intro i hi
    simp [sampleRuntime, hi]
  len := rfl
  name := by decide
  irText_lt := by decide
  pkg_lt := by decide +kernel

def sampleParse : List UInt8 → Except String LrModule :=
  fun _ => .ok (CollisionFlag.lrModuleCreate 0 0)

theorem merged_once_twice : ∃ s', run sampleParse
    [.merge, .other fun m blobs => (m, blobs ++ [sampleBlob]), .merge] sampleRuntime = some s' ∧
      s'.blobs = [sampleBlob, sampleBlob] := by
  have hblobs : ∀ b ∈ [sampleBlob], BlobOk b := by
    rintro b hb
    obtain rfl := mem_singleton.1 hb
    exact ⟨⟨by decide, by decide, by decide⟩, nofun, by decide, by decide⟩
  have hmerge : lrModuleMerge sampleRuntime.module (CollisionFlag.lrModuleCreate 0 0) =
      some (CollisionFlag.lrModuleCreate 0 0) := rfl
  have hparse : sampleParse [65] = .ok (CollisionFlag.lrModuleCreate 0 0) := rfl
  obtain ⟨symbols, hrun⟩ := merged_once sampleWritten hblobs (by decide) hparse hmerge
    ⟨wellFormed_empty, by decide, nofun⟩ (by decide +kernel) rfl
    [.other fun m blobs => (m, blobs ++ [sampleBlob]), .merge]
  exact ⟨_, hrun, rfl⟩

end Liric.Guarantees.RuntimeMerge
