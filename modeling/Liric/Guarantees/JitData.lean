import Liric.Guarantees.LazyReady
import Liric.Lib.Runs

/-!
# The data buffer of the JIT

Globals, slots and words for local names are handed out by one cursor, so they never share a
byte. The pointers of a global are written where its name stands, as far as the type of the
global in the module at hand has room: an earlier global of the name may be smaller, and the
name may stand for something else altogether.
-/
namespace Liric.Guarantees.JitData
open Option List
open Lib (Along Apart Stacked padUp le_padUp runSteps runSteps_along)
open Source.Ir Source.Object Source.Jit JitLookup
open LazyReady (codeAt dataAt emptyHost lrJitCreate)

variable {r : DataRange} {addr : Nat} {ok : Bool}

/-- The calls that hand out data or write it, and those that change what names stand for. -/
inductive Call where
  | addModule (lazyMode : Bool) (m : LrModule)
  | materializeGlobals (m : LrModule)
  | applyRelocs (ctx : ObjfileCtx) (relocStart : Nat)
  | getSymbol (name : CStr)
  | addSymbol (name : CStr) (addr : Nat)

def step (env : Env) (j : LrJit) : Call → Option LrJit
  | .addModule lazyMode m => (lrJitAddModule env lazyMode j m).map (·.1)
  | .materializeGlobals m => (lrJitMaterializeGlobals env j m).map (·.1)
  | .applyRelocs ctx relocStart => some (applyJitRelocs env.host j ctx relocStart).1
  | .getSymbol name => (lrJitGetSymbol env j name).map (·.1)
  | .addSymbol name addr => some (lrJitAddSymbol env.host j name addr)

/-- The bytes lie in a range that was handed out for the name of the global. -/
def InRange (j : LrJit) (w : DataWrite) : Prop :=
  ∃ r ∈ j.dataRanges, w.name ∈ r.names ∧ j.dataBuf + r.off ≤ w.addr ∧
    w.addr + w.len ≤ j.dataBuf + r.off + r.size

instance (j : LrJit) (w : DataWrite) : Decidable (InRange j w) :=
  inferInstanceAs (Decidable (∃ r ∈ j.dataRanges, _))

structure DataSafe (j : LrJit) : Prop where
  apart : j.dataRanges.Pairwise fun r s => Apart r.off r.size s.off s.size
  below : ∀ r ∈ j.dataRanges, r.off + r.size ≤ j.dataCap
  inside : ∀ w ∈ j.dataWrites, InRange j w

/-- A global whose pointers are written. -/
def Relocated (g : LrGlobal) : Prop := g.relocs ≠ [] ∧ g.name ≠ []

/-- The range was handed out for the name, and the pointers that fit the type fit the range. -/
def HasRoom (r : DataRange) (g : LrGlobal) : Prop :=
  g.name ∈ r.names ∧
    ∀ rel ∈ g.relocs, (rel.offset + 8) % 2 ^ 64 ≤ globalSize g → rel.offset + 8 ≤ r.size

/-- The name of the global stands for a range of its own that has room. -/
def Bound (j : LrJit) (g : LrGlobal) : Prop :=
  ∃ r ∈ j.dataRanges, HasRoom r g ∧ findSymbolEntry j g.name = some ⟨g.name, j.dataBuf + r.off⟩

/-- The relocated globals of the modules whose functions are registered: their pointers are
written again when one of the functions is compiled. -/
def Registered (j : LrJit) (g : LrGlobal) : Prop :=
  ∃ e ∈ j.lazyFuncs, g ∈ e.module.globals ∧ Relocated g

/-- The storage that a new global gets, and what its pointers need of it. -/
def newRange (j : LrJit) (g : LrGlobal) : DataRange :=
  ⟨[g.name], padUp j.dataSize (globalAlign g), globalSize g⟩

/-- One turn of `lr_jit_materialize_globals`. No `size_t` of a new global wraps, and a global
whose pointers are written is defined here, with a name that is new or stands for a range of the
name that has room. -/
structure TurnOk (j : LrJit) (g : LrGlobal) : Prop where
  nowrap : g.isExternal = false → findSymbolEntry j g.name = none →
    padUp j.dataSize (globalAlign g) + globalSize g < 2 ^ 64
  defined : Relocated g → g.isExternal = false
  fresh : Relocated g → findSymbolEntry j g.name = none → HasRoom (newRange j g) g
  bound : Relocated g → findSymbolEntry j g.name ≠ none → Bound j g

/-- Every turn that the globals of a module get. -/
def GlobalsOk (host : Host) (j : LrJit) (globals : List LrGlobal) : Prop :=
  ∀ pre g post j', globals = pre ++ g :: post → allocateGlobals host j pre = (j', true) →
    TurnOk j' g

/-- No function that is registered has the name of a global whose pointers are written. -/
def NamesApart (funcs : CStr → Prop) (globals : LrGlobal → Prop) : Prop :=
  ∀ g name, globals g → funcs name → name ≠ g.name

def CallOk (env : Env) (j : LrJit) : Call → Prop
  | .addModule _ m =>
    GlobalsOk env.host j m.globals ∧
      NamesApart (fun name => ∃ e ∈ j.lazyFuncs, e.name = name)
        (fun g => g ∈ m.globals ∧ Relocated g) ∧
      NamesApart (fun name => ∃ f ∈ definedFuncs m, f.name = name)
        (fun g => Registered j g ∨ g ∈ m.globals ∧ Relocated g)
  | .materializeGlobals m =>
    GlobalsOk env.host j m.globals ∧
      NamesApart (fun name => ∃ e ∈ j.lazyFuncs, e.name = name)
        (fun g => g ∈ m.globals ∧ Relocated g)
  | .applyRelocs _ _ => True
  | .getSymbol _ => True
  | .addSymbol name _ => NamesApart (· = name) (Registered j)

/-- What holds between any two steps of a call. The roots are the globals whose pointers may be
written until its end. -/
structure Sound (roots : LrGlobal → Prop) (j : LrJit) : Prop where
  stacked : Stacked DataRange.off DataRange.size j.dataRanges j.dataSize
  cap : j.dataSize ≤ j.dataCap
  inside : ∀ w ∈ j.dataWrites, InRange j w
  bound : ∀ g, roots g → Bound j g
  idle : ∀ g, roots g → ∀ e ∈ j.lazyFuncs, e.name ≠ g.name
  registered : ∀ g, Registered j g → roots g
  buffer : 0 < j.dataBuf ∧ j.dataBuf + j.dataCap ≤ 2 ^ 64

theorem Sound.safe {roots : LrGlobal → Prop} {j : LrJit} (h : Sound roots j) : DataSafe j where
  apart := h.stacked.apart
  below := fun r hr => (h.stacked.below r hr).trans h.cap
  inside := h.inside

/-- What was handed out stays. -/
structure Grows (j j' : LrJit) : Prop where
  dataBuf : j'.dataBuf = j.dataBuf
  dataCap : j'.dataCap = j.dataCap
  ranges : ∀ r ∈ j.dataRanges, r ∈ j'.dataRanges

theorem Grows.refl (j : LrJit) : Grows j j := ⟨rfl, rfl, fun _ h => h⟩

theorem Grows.trans {j j' j'' : LrJit} (h : Grows j j') (h' : Grows j' j'') : Grows j j'' :=
  ⟨h'.dataBuf.trans h.dataBuf, h'.dataCap.trans h.dataCap, fun r hr => h'.ranges r (h.ranges r hr)⟩

theorem InRange.grows {j j' : LrJit} {w : DataWrite} (h : InRange j w) (hgrows : Grows j j') :
    InRange j' w := by
  obtain ⟨r, hr, hrange⟩ := h
  rw [← hgrows.dataBuf] at hrange
  exact ⟨r, hgrows.ranges r hr, hrange⟩

theorem Bound.grows {j j' : LrJit} {g : LrGlobal} (h : Bound j g) (hgrows : Grows j j')
    (hentry : findSymbolEntry j' g.name = findSymbolEntry j g.name) : Bound j' g := by
  obtain ⟨r, hr, hroom, hfind⟩ := h
  rw [← hentry, ← hgrows.dataBuf] at hfind
  exact ⟨r, hgrows.ranges r hr, hroom, hfind⟩

section Keeps
variable {roots : LrGlobal → Prop} {j j' j'' : LrJit}

/-- The step keeps what is sound. -/
def Keeps (roots : LrGlobal → Prop) (j j' : LrJit) : Prop := Sound roots j' ∧ Grows j j'

theorem Keeps.trans (h : Keeps roots j j') (h' : Keeps roots j' j'') : Keeps roots j j'' :=
  ⟨h'.1, h.2.trans h'.2⟩

theorem Sound.refl (h : Sound roots j) : Keeps roots j j := ⟨h, .refl j⟩

/-- The entries of the lazy functions keep their names and modules. -/
def SameLazy (j j' : LrJit) : Prop :=
  ∀ e' ∈ j'.lazyFuncs, ∃ e ∈ j.lazyFuncs, e.name = e'.name ∧ e.module = e'.module

theorem SameLazy.of_eq (h : j'.lazyFuncs = j.lazyFuncs) : SameLazy j j' := by
  intro e he
  rw [h] at he
  exact ⟨e, he, rfl, rfl⟩

/-- The part of the state that the data buffer is made of. -/
structure SameData (j j' : LrJit) : Prop where
  dataBuf : j'.dataBuf = j.dataBuf
  dataSize : j'.dataSize = j.dataSize
  dataCap : j'.dataCap = j.dataCap
  dataRanges : j'.dataRanges = j.dataRanges
  dataWrites : j'.dataWrites = j.dataWrites

theorem SameData.grows (h : SameData j j') : Grows j j' :=
  ⟨h.dataBuf, h.dataCap, fun r hr => by rwa [h.dataRanges]⟩

/-- A step that leaves the data and the names of the roots alone. -/
theorem Sound.of_data (h : Sound roots j) (hdata : SameData j j')
    (hentries : ∀ g, roots g → findSymbolEntry j' g.name = findSymbolEntry j g.name)
    (hidle : ∀ g, roots g → ∀ e ∈ j'.lazyFuncs, e.name ≠ g.name)
    (hregistered : ∀ g, Registered j' g → roots g) : Keeps roots j j' := by
  have hgrows := hdata.grows
  refine ⟨⟨?_, ?_, ?_, ?_, hidle, hregistered, ?_⟩, hgrows⟩
  · rw [hdata.dataRanges, hdata.dataSize]
    exact h.stacked
  · rw [hdata.dataSize, hdata.dataCap]
    exact h.cap
  · rw [hdata.dataWrites]
    exact fun w hw => (h.inside w hw).grows hgrows
  · exact fun g hg => (h.bound g hg).grows hgrows (hentries g hg)
  · rw [hdata.dataBuf, hdata.dataCap]
    exact h.buffer

/-- The same where no function is registered. -/
theorem Sound.of_same (h : Sound roots j) (hdata : SameData j j') (hlazy : SameLazy j j')
    (hentries : ∀ g, roots g → findSymbolEntry j' g.name = findSymbolEntry j g.name) :
    Keeps roots j j' := by
  apply h.of_data hdata hentries
  · intro g hg e he
    obtain ⟨e', he', hname, -⟩ := hlazy e he
    rw [← hname]
    exact h.idle g hg e' he'
  · rintro g ⟨e, he, hmem, hreloc⟩
    obtain ⟨e', he', -, hmodule⟩ := hlazy e he
    exact h.registered g ⟨e', he', hmodule ▸ hmem, hreloc⟩

/-- A range is handed out from the cursor on, and bytes are written in it under its name. -/
theorem Sound.handOut (h : Sound roots j) (r : DataRange) (writes : List DataWrite)
    (hoff : j.dataSize ≤ r.off) (hcap : r.off + r.size ≤ j.dataCap)
    (hwrites : ∀ w ∈ writes, w.name ∈ r.names ∧ w.addr = j.dataBuf + r.off ∧ w.len = r.size) :
    Keeps roots j { j with
      dataSize := r.off + r.size
      dataRanges := j.dataRanges ++ [r]
      dataWrites := j.dataWrites ++ writes } := by
  have hgrows : Grows j { j with
      dataSize := r.off + r.size
      dataRanges := j.dataRanges ++ [r]
      dataWrites := j.dataWrites ++ writes } := ⟨rfl, rfl, fun _ hr => mem_append_left _ hr⟩
  refine ⟨⟨h.stacked.push hoff, hcap, ?_, ?_, h.idle, h.registered, h.buffer⟩, hgrows⟩
  · intro w hw
    rcases mem_append.mp hw with hw | hw
    · exact (h.inside w hw).grows hgrows
    · obtain ⟨hname, haddr, hlen⟩ := hwrites w hw
      exact ⟨r, mem_append_right _ (mem_singleton_self r), hname, haddr.ge, by rw [haddr, hlen]⟩
  · exact fun g hg => (h.bound g hg).grows hgrows rfl

/-- Bytes are written inside a range of the name. -/
theorem Sound.write (h : Sound roots j) (words : List (Nat × BitVec 64)) {w : DataWrite}
    (hw : InRange j w) :
    Keeps roots j { j with globalWrites := words, dataWrites := j.dataWrites ++ [w] } := by
  refine ⟨⟨h.stacked, h.cap, ?_, h.bound, h.idle, h.registered, h.buffer⟩,
    ⟨rfl, rfl, fun _ hr => hr⟩⟩
  intro w' hw'
  rcases mem_append.mp hw' with hw' | hw'
  · exact h.inside w' hw'
  · rw [mem_singleton.mp hw']
    exact hw

/-- The address of a byte of a range is not cut. -/
theorem Sound.inRange (h : Sound roots j) {g : LrGlobal} (hr : r ∈ j.dataRanges)
    (hname : g.name ∈ r.names) {off len : Nat} (hfits : off + len ≤ r.size) (hlen : 0 < len) :
    InRange j ⟨g.name, (j.dataBuf + r.off + off) % 2 ^ 64, len⟩ := by
  have hbelow := h.stacked.below r hr
  have hcap := h.cap
  have hbuffer := h.buffer.2
  have hplace : (j.dataBuf + r.off + off) % 2 ^ 64 = j.dataBuf + r.off + off :=
    Nat.mod_eq_of_lt (by omega)
  have hend : j.dataBuf + r.off + off + len ≤ j.dataBuf + r.off + r.size := by omega
  rw [hplace]
  exact ⟨r, hr, hname, Nat.le_add_right _ _, hend⟩

end Keeps

theorem lrJitAddSymbol_data (host : Host) (j : LrJit) (name : CStr) (addr : Nat) :
    SameData j (lrJitAddSymbol host j name addr) := by
  unfold lrJitAddSymbol
  split
  · exact ⟨rfl, rfl, rfl, rfl, rfl⟩
  · split
    · split <;> exact ⟨rfl, rfl, rfl, rfl, rfl⟩
    · exact ⟨rfl, rfl, rfl, rfl, rfl⟩

theorem findLazyFuncEntry_data (j : LrJit) (name : CStr) :
    SameData j (findLazyFuncEntry j name).1 := by
  unfold findLazyFuncEntry
  split
  · exact ⟨rfl, rfl, rfl, rfl, rfl⟩
  · split
    · exact ⟨rfl, rfl, rfl, rfl, rfl⟩
    · split <;> exact ⟨rfl, rfl, rfl, rfl, rfl⟩

section Lookups
variable (host : Host) {roots : LrGlobal → Prop} {j : LrJit} {name : CStr}

/-- No root has this name. -/
def Free (roots : LrGlobal → Prop) (name : CStr) : Prop := ∀ g, roots g → g.name ≠ name

theorem Sound.addSymbol (h : Sound roots j) (hfree : Free roots name) (addr : Nat) :
    Keeps roots j (lrJitAddSymbol host j name addr) :=
  h.of_same (lrJitAddSymbol_data host j name addr)
    (.of_eq (lrJitAddSymbol_same host j name addr).lazyFuncs)
    fun g hg => findSymbolEntry_addSymbol_ne host j addr (hfree g hg)

theorem Sound.free_of_none (h : Sound roots j) (hnone : findSymbolEntry j name = none) :
    Free roots name := by
  rintro g hg rfl
  obtain ⟨r, -, -, hfind⟩ := h.bound g hg
  cases hnone.symm.trans hfind

theorem Sound.findLazy (h : Sound roots j) (name : CStr) :
    Keeps roots j (findLazyFuncEntry j name).1 := by
  obtain ⟨hsame, hsymbols, -⟩ := findLazyFuncEntry_state j name
  refine h.of_same (findLazyFuncEntry_data j name) (.of_eq hsame.lazyFuncs) fun g _ => ?_
  rw [findSymbolEntry, hsymbols, findSymbolEntry]

theorem Sound.miss (h : Sound roots j) (name : CStr) : Keeps roots j (missCacheAdd j name) := by
  unfold missCacheAdd
  split
  · exact h.refl
  · exact h.of_same ⟨rfl, rfl, rfl, rfl, rfl⟩ (.of_eq rfl) fun _ _ => rfl

theorem Sound.tables (h : Sound roots j) (name : CStr) :
    Keeps roots j (lookupSymbolTables host j name).1 := by
  unfold lookupSymbolTables
  split
  · exact h.refl
  · split
    · exact h.of_same ⟨rfl, rfl, rfl, rfl, rfl⟩ (.of_eq rfl) fun _ _ => rfl
    · next hnone =>
      split
      · exact h.refl
      · simp only
        split
        · exact h.miss name
        · exact h.addSymbol host (h.free_of_none hnone) _

theorem Sound.exact (h : Sound roots j) (name : CStr) :
    Keeps roots j (lookupSymbolHashedExact host j name).1 := by
  have hfind := h.findLazy name
  unfold lookupSymbolHashedExact
  simp only
  split
  · exact hfind.trans (hfind.1.tables host name)
  · split
    · exact hfind
    · exact hfind
    · exact hfind.trans (hfind.1.tables host name)

theorem lookupSymbolTables_entry {e : SymEntry} (hfind : findSymbolEntry j name = some e) :
    (lookupSymbolTables host j name).2 = e.addr := by
  unfold lookupSymbolTables
  split
  · next e' hlast =>
    unfold lastSymbolEntry at hlast
    split at hlast
    · cases hfind.symm.trans hlast
      rfl
    · cases hlast
  · rw [hfind]

section
variable (h : Sound roots j)
include h

/-- The name of a root stands for its range, and its lookup goes no further. -/
theorem Sound.exact_root {g : LrGlobal} (hg : roots g)
    (hfind : findSymbolEntry j g.name = some ⟨g.name, j.dataBuf + r.off⟩) :
    (lookupSymbolHashedExact host j g.name).2 = j.dataBuf + r.off := by
  obtain ⟨-, hsymbols, -⟩ := findLazyFuncEntry_state j g.name
  have hnone : (findLazyFuncEntry j g.name).2 = none := by
    rw [findLazyFuncEntry_entry]
    split
    · rfl
    · rw [List.find?_eq_none]
      intro e he
      simpa using h.idle g hg e he
  have hfind' : findSymbolEntry (findLazyFuncEntry j g.name).1 g.name =
      some ⟨g.name, j.dataBuf + r.off⟩ := by
    rw [findSymbolEntry, hsymbols]
    exact hfind
  unfold lookupSymbolHashedExact
  simp only [hnone]
  exact lookupSymbolTables_entry host hfind'

theorem Sound.exact_ne_zero {g : LrGlobal} (hg : roots g) :
    (lookupSymbolHashedExact host j g.name).2 ≠ 0 := by
  obtain ⟨r, -, -, hfind⟩ := h.bound g hg
  rw [h.exact_root host hg hfind]
  have hpos := h.buffer.1
  omega

theorem Sound.free_of_zero (hzero : (lookupSymbolHashedExact host j name).2 = 0) :
    Free roots name := by
  rintro g hg rfl
  exact h.exact_ne_zero host hg hzero

theorem Sound.alias (hfree : Free roots name) (aliasName : CStr) :
    Keeps roots j (lookupSymbolHashedAlias host j name aliasName).1 := by
  unfold lookupSymbolHashedAlias
  split
  · exact h.refl
  · have hexact := h.exact host aliasName
    simp only
    split
    · exact hexact
    · exact hexact.trans (hexact.1.addSymbol host hfree _)

theorem Sound.placeholder (hfree : Free roots name) {canonical : CStr}
    (hcanonical : Free roots canonical) :
    Keeps roots j (localPlaceholder host j name canonical).1 := by
  unfold localPlaceholder
  split
  · simp only
    split
    · next hroom =>
      have hword := h.handOut ⟨[name, canonical], padUp j.dataSize 8, 8⟩ []
        (le_padUp j.dataSize (by omega)) hroom (by simp)
      rw [append_nil] at hword
      have hnamed := hword.trans (hword.1.addSymbol host hfree
        (j.dataBuf + padUp j.dataSize 8))
      split
      · exact hnamed
      · exact hnamed.trans (hnamed.1.addSymbol host hcanonical _)
    · exact h.refl
  · exact h.refl

theorem Sound.aliases (hfree : Free roots name) {canonical : CStr}
    (hcanonical : Free roots canonical) :
    Keeps roots j (lookupSymbolAliases host j name canonical).1 := by
  unfold lookupSymbolAliases
  have hunder := h.alias host hfree (underscoreAlias canonical)
  simp only
  split
  · exact hunder
  · have hbase := hunder.trans (hunder.1.alias host hfree (localBase canonical))
    split
    · exact hbase
    · exact hbase.trans (hbase.1.placeholder host hfree hcanonical)

/-- A name that is not found is no root's, and neither is the name behind its mark. -/
theorem Sound.lookup (name : CStr) : Keeps roots j (lookupSymbolHashed host j name).1 := by
  unfold lookupSymbolHashed
  split
  · exact h.refl
  · next hname =>
    have hexact := h.exact host name
    simp only
    split
    · exact hexact
    · next hzero =>
      have hfree : Free roots name := h.free_of_zero host (not_not.mp hzero)
      have hmark := hexact.trans (hexact.1.alias host hfree (skipMark name))
      split
      · exact hmark
      · next hzero' =>
        refine hmark.trans (hmark.1.aliases host hfree ?_)
        rintro g hg hmarked
        have hother : ¬(skipMark name = [] ∨ name = skipMark name) := by
          rintro (hempty | hsame)
          · exact skipMark_ne hname hempty
          · exact hfree g hg (hmarked.trans hsame.symm)
        rw [not_not, ← hmarked] at hzero'
        rw [← hmarked] at hother
        unfold lookupSymbolHashedAlias at hzero'
        rw [if_neg hother] at hzero'
        have hfound := hexact.1.exact_ne_zero host hg
        simp only [hfound, if_false] at hzero'

theorem Sound.lookup_eq {j' : LrJit} (hrun : lookupSymbolHashed host j name = (j', addr)) :
    Keeps roots j j' := by
  have hlookup := h.lookup host name
  rwa [hrun] at hlookup

/-- The base of a root's pointers. -/
theorem Sound.lookup_root {g : LrGlobal} (hg : roots g) (hname : g.name ≠ [])
    (hfind : findSymbolEntry j g.name = some ⟨g.name, j.dataBuf + r.off⟩) :
    (lookupSymbolHashed host j g.name).2 = j.dataBuf + r.off := by
  have hne := h.exact_ne_zero host hg
  unfold lookupSymbolHashed
  simp only [if_neg hname, hne, ne_eq, not_false_eq_true, if_true]
  exact h.exact_root host hg hfind

end

end Lookups

section Relocs
variable (host : Host) {roots : LrGlobal → Prop} {j j' : LrJit}

theorem Sound.resolve (h : Sound roots j) {sym : ObjSymbol} {target : Nat}
    (hrun : resolveRelocTarget host j sym = .ok (j', target)) : Keeps roots j j' := by
  unfold resolveRelocTarget at hrun
  split at hrun
  · split at hrun
    · cases hrun
    · cases hrun
      exact h.refl
  · split at hrun
    · cases hrun
    · exact h.lookup_eq _ (Except.ok.inj hrun)

theorem Sound.target (h : Sound roots j) {scratch scratch' : RelocScratch} {idx target : Nat}
    {sym : ObjSymbol} (hrun : relocTarget host j scratch idx sym = .ok (j', scratch', target)) :
    Keeps roots j j' := by
  unfold relocTarget at hrun
  split at hrun
  · cases hrun
    exact h.refl
  · cases hresolve : resolveRelocTarget host j sym with
    | error e =>
      rw [hresolve] at hrun
      cases hrun
    | ok p =>
      rw [hresolve] at hrun
      cases hrun
      exact h.resolve host hresolve

theorem Sound.slot (h : Sound roots j) {scratch scratch' : RelocScratch} {idx : Nat}
    {type : UInt8} {slot : Option Nat}
    (hrun : relocSlot j scratch idx type = some (j', scratch', slot)) : Keeps roots j j' := by
  unfold relocSlot at hrun
  split at hrun
  · split at hrun
    · cases hrun
      exact h.refl
    · obtain ⟨p, halloc, hrest⟩ := bind_eq_some_iff.mp hrun
      cases hrest
      unfold allocGotSlot at halloc
      simp only at halloc
      obtain ⟨hroom, halloc⟩ := ite_none_left_eq_some.1 halloc
      cases halloc
      have hslot := h.handOut ⟨[], padUp j.dataSize 8, 8⟩ []
        (le_padUp j.dataSize (by omega)) (Nat.le_of_not_lt hroom) (by simp)
      rwa [append_nil] at hslot
  · cases hrun
    exact h.refl

theorem Sound.patch (h : Sound roots j) {rel : ObjReloc} {target : Nat} {slot : Option Nat}
    (hrun : writePatch j rel target slot = some j') : Keeps roots j j' := by
  unfold writePatch at hrun
  simp only at hrun
  split at hrun
  · cases hrun
    exact h.of_same ⟨rfl, rfl, rfl, rfl, rfl⟩ (.of_eq rfl) fun _ _ => rfl
  · cases hrun

theorem Sound.reloc (h : Sound roots j) (symbols : List ObjSymbol) (scratch : RelocScratch)
    (rel : ObjReloc) : Keeps roots j (applyJitReloc host symbols j scratch rel).1 := by
  unfold applyJitReloc
  simp only
  split
  · exact h.refl
  · split
    · exact h.refl
    · next htarget =>
      have hresolved := h.target host htarget
      split
      · exact hresolved
      · split
        · exact hresolved
        · next hslot =>
          have hslotted := hresolved.trans (hresolved.1.slot hslot)
          split
          · next hpatch => exact hslotted.trans (hslotted.1.patch hpatch)
          · exact hslotted

theorem Sound.relocsLoop (symbols : List ObjSymbol) (rels : List ObjReloc) :
    ∀ {j : LrJit} (_ : Sound roots j) (scratch : RelocScratch),
      Keeps roots j (applyJitRelocsLoop host symbols j scratch rels).1 := by
  induction rels with
  | nil => exact fun h _ => h.refl
  | cons rel rest ih =>
    intro j h scratch
    have hfirst := h.reloc host symbols scratch rel
    unfold applyJitRelocsLoop
    split
    · next hrun =>
      rw [hrun] at hfirst
      exact hfirst.trans (ih hfirst.1 _)
    · next hrun =>
      rw [hrun] at hfirst
      exact hfirst

theorem Sound.relocs (h : Sound roots j) (ctx : ObjfileCtx) (relocStart : Nat) :
    Keeps roots j (applyJitRelocs host j ctx relocStart).1 := by
  unfold applyJitRelocs
  split
  · exact h.refl
  · exact Sound.relocsLoop host ctx.symbols _ h {}

end Relocs

section Functions
variable {env : Env} {roots : LrGlobal → Prop} {j j' : LrJit}

theorem Sound.updateLazy (h : Sound roots j) (name : CStr) {f : LazyFuncEntry → LazyFuncEntry}
    (hname : ∀ e, (f e).name = e.name) (hmodule : ∀ e, (f e).module = e.module) :
    Keeps roots j (updateLazyEntry j name f) := by
  refine h.of_same ⟨rfl, rfl, rfl, rfl, rfl⟩ ?_ fun _ _ => rfl
  intro e he
  obtain ⟨e', he', rfl⟩ := mem_map.mp he
  refine ⟨e', he', ?_⟩
  split
  · exact ⟨(hname e').symm, (hmodule e').symm⟩
  · exact ⟨rfl, rfl⟩

theorem Sound.compileOne (h : Sound roots j) {m : LrModule} {f : LrFunc} {ctx ctx' : ObjfileCtx}
    (hrun : compileOneFunction env j m f ctx = some (j', ctx', addr)) :
    Keeps roots j j' := by
  unfold compileOneFunction at hrun
  simp only at hrun
  split at hrun
  · cases hrun
  · obtain ⟨-, hrun⟩ := ite_none_left_eq_some.1 hrun
    cases hrun
    exact h.of_same ⟨rfl, rfl, rfl, rfl, rfl⟩ (.of_eq rfl) fun _ _ => rfl

theorem Sound.compileLazy (env : Env) (h : Sound roots j) (e : LazyFuncEntry) :
    Keeps roots j (compileLazyFunction env j e).1 := by
  unfold compileLazyFunction
  split
  · exact h.refl
  · next hrun =>
    have hcompiled := h.compileOne hrun
    split
    · exact hcompiled
    · split <;> exact hcompiled

/-- What is asked of `materialize_lazy_function` where it is called. -/
def MatKeeps (roots : LrGlobal → Prop) (materialize : LrJit → CStr → Option (LrJit × Bool)) :
    Prop :=
  ∀ {j : LrJit} {name : CStr} {j' : LrJit} {ok : Bool}, Sound roots j →
    materialize j name = some (j', ok) → Keeps roots j j'

variable {materialize : LrJit → CStr → Option (LrJit × Bool)}

theorem Sound.lookupLazy (h : Sound roots j) (hmat : MatKeeps roots materialize) {name : CStr}
    (hrun : lookupSymbolMaterializingLazy env materialize j name = some (j', addr)) :
    Keeps roots j j' := by
  have hfind := h.findLazy name
  unfold lookupSymbolMaterializingLazy at hrun
  split at hrun
  · cases hrun
    exact h.refl
  · simp only at hrun
    split at hrun
    · exact hfind.trans (hfind.1.lookup_eq _ (Option.some.inj hrun))
    · split at hrun
      · cases hrun
        exact hfind
      · exact hfind.trans (hfind.1.lookup_eq _ (Option.some.inj hrun))
      · obtain ⟨p, hp, hrest⟩ := bind_eq_some_iff.mp hrun
        have hdone := hfind.trans (hmat hfind.1 hp)
        split at hrest
        · exact hdone.trans (hdone.1.lookup_eq _ (Option.some.inj hrest))
        · cases hrest
          exact hdone

/-- The pointers of a global at its base are written inside its range. -/
theorem Sound.globalRelocs (hmat : MatKeeps roots materialize) {g : LrGlobal} (hroom : HasRoom r g)
    {base : Nat} (rels : List LrReloc) :
    ∀ {j : LrJit} (_ : Sound roots j) (_ : r ∈ j.dataRanges) (_ : base = j.dataBuf + r.off)
      (_ : ∀ rel ∈ rels, rel ∈ g.relocs)
      (_ : applyGlobalRelocs env materialize g base j rels = some j'), Keeps roots j j' := by
  induction rels with
  | nil =>
    intro j h _ _ _ hrun
    cases hrun
    exact h.refl
  | cons rel rest ih =>
    intro j h hr hbase hrels hrun
    unfold applyGlobalRelocs at hrun
    obtain ⟨p, hlookup, hrest⟩ := bind_eq_some_iff.mp hrun
    have hfound := h.lookupLazy hmat hlookup
    have hr' := hfound.2.ranges r hr
    have hbase' : base = p.1.dataBuf + r.off := by rw [hbase, hfound.2.dataBuf]
    have hrels' : ∀ rel ∈ rest, rel ∈ g.relocs := fun rel hrel => hrels rel (by simp [hrel])
    simp only at hrest
    split at hrest
    · next hwritten =>
      have hfits := hroom.2 rel (hrels rel (by simp)) hwritten.2
      have hplace := hfound.1.inRange hr' hroom.1 hfits (by omega)
      rw [← hbase'] at hplace
      have hwrote := hfound.1.write (p.1.globalWrites ++
        [((base + rel.offset) % 2 ^ 64, BitVec.ofNat 64 p.2 + rel.addend)]) hplace
      exact hfound.trans (hwrote.trans (ih hwrote.1 hr' hbase' hrels' hrest))
    · exact hfound.trans (ih hfound.1 hr' hbase' hrels' hrest)

theorem Sound.moduleRelocs (hmat : MatKeeps roots materialize) (globals : List LrGlobal) :
    ∀ {j : LrJit} (_ : Sound roots j) (_ : ∀ g ∈ globals, Relocated g → roots g)
      (_ : applyModuleGlobalRelocs env materialize j globals = some j'), Keeps roots j j' := by
  induction globals with
  | nil =>
    intro j h _ hrun
    cases hrun
    exact h.refl
  | cons g rest ih =>
    intro j h hroots hrun
    have hroots' : ∀ g ∈ rest, Relocated g → roots g := fun g hg => hroots g (by simp [hg])
    unfold applyModuleGlobalRelocs at hrun
    split at hrun
    · exact ih h hroots' hrun
    · next hrelocs =>
      have hlookup : Keeps roots j (lookupSymbol env.host j g.name).1 := h.lookup _ g.name
      simp only at hrun
      split at hrun
      · exact hlookup.trans (ih hlookup.1 hroots' hrun)
      · next hbase =>
        obtain ⟨j₁, hwritten, hrest⟩ := bind_eq_some_iff.mp hrun
        have hname : g.name ≠ [] := by
          intro hempty
          exact hbase (by simp [lookupSymbol, lookupSymbolHashed, hempty])
        have hg : roots g := hroots g (by simp) ⟨by simpa using hrelocs, hname⟩
        obtain ⟨r, hr, hroom, hfind⟩ := h.bound g hg
        have hstands : (lookupSymbol env.host j g.name).2 =
            (lookupSymbol env.host j g.name).1.dataBuf + r.off := by
          rw [hlookup.2.dataBuf]
          exact h.lookup_root _ hg hname hfind
        have hone := Sound.globalRelocs hmat hroom g.relocs hlookup.1 (hlookup.2.ranges r hr)
          hstands (fun _ h => h) hwritten
        exact hlookup.trans (hone.trans (ih hone.1 hroots' hrest))

theorem Sound.dependencies (hmat : MatKeeps roots materialize) (ctx : ObjfileCtx) (turns : Nat) :
    ∀ {j : LrJit} {ok : Bool} (_ : Sound roots j)
      (_ : materializeDependencies env materialize ctx turns j = some (j', ok)),
      Keeps roots j j' := by
  induction turns with
  | zero =>
    intro j ok _ hrun
    cases hrun
  | succ turns ih =>
    intro j ok h hrun
    have hrelocs := h.relocs env.host ctx 0
    unfold materializeDependencies at hrun
    split at hrun
    · next happly =>
      rw [happly] at hrelocs
      cases hrun
      exact hrelocs
    · next happly =>
      rw [happly] at hrelocs
      cases hrun
      exact hrelocs
    · next symbol happly =>
      rw [happly] at hrelocs
      have hfind := hrelocs.trans (hrelocs.1.findLazy symbol)
      simp only at hrun
      split at hrun
      · cases hrun
        exact hfind
      · split at hrun
        · cases hrun
          exact hfind
        · cases hrun
          exact hfind
        · obtain ⟨p, hp, hrest⟩ := bind_eq_some_iff.mp hrun
          have hdone := hfind.trans (hmat hfind.1 hp)
          split at hrest
          · exact hdone.trans (ih hdone.1 hrest)
          · cases hrest
            exact hdone

theorem materializeLazyFunction_keeps (fuel : Nat) :
    MatKeeps roots (materializeLazyFunction env fuel) := by
  induction fuel with
  | zero =>
    intro j name j' ok _ hrun
    cases hrun
  | succ fuel ih =>
    intro j name j' ok h hrun
    unfold materializeLazyFunction at hrun
    split at hrun
    · cases hrun
      exact h.refl
    · next e hentry =>
      have he : e ∈ j.lazyFuncs := mem_of_find?_eq_some hentry
      have hname : e.name = name := by simpa using List.find?_some hentry
      have hfree : Free roots name := fun g hg hsame => h.idle g hg e he (hname.trans hsame.symm)
      have hroots : ∀ g ∈ e.module.globals, Relocated g → roots g :=
        fun g hg hreloc => h.registered g ⟨e, he, hg, hreloc⟩
      have hbegin : Keeps roots j (beginLazyEntry j name) :=
        h.updateLazy name (fun _ => rfl) fun _ => rfl
      have hcompile := hbegin.trans (hbegin.1.compileLazy env e)
      split at hrun
      · cases hrun
        exact h.refl
      · cases hrun
        exact h.refl
      · simp only at hrun
        split at hrun
        · next hfailed =>
          rw [hfailed] at hcompile
          cases hrun
          exact hcompile.trans (hcompile.1.updateLazy name (fun _ => rfl) fun _ => rfl)
        · next j₁ ctx addr hcompiled =>
          rw [hcompiled] at hcompile
          have hpending := hcompile.trans (hcompile.1.updateLazy name
            (f := fun e => { e with pendingAddr := addr }) (fun _ => rfl) fun _ => rfl)
          obtain ⟨p, hdeps, hrest⟩ := bind_eq_some_iff.mp hrun
          have hlinked := hpending.trans (hpending.1.dependencies ih ctx _ hdeps)
          split at hrest
          · have hsymbol := hlinked.trans
              (hlinked.1.addSymbol env.host hfree addr)
            have hready := hsymbol.trans (hsymbol.1.updateLazy name
              (f := fun e => { e with pendingAddr := 0, state := .ready })
              (fun _ => rfl) fun _ => rfl)
            obtain ⟨j₂, hglobals, hdone⟩ := bind_eq_some_iff.mp hrest
            cases hdone
            exact hready.trans (Sound.moduleRelocs ih _ hready.1 hroots hglobals)
          · cases hrest
            exact hlinked.trans (hlinked.1.updateLazy name (fun _ => rfl) fun _ => rfl)

theorem materializeTop_keeps : MatKeeps roots (materializeTop env) :=
  fun h hrun => materializeLazyFunction_keeps _ h hrun

end Functions

theorem globalAlign_pos (g : LrGlobal) : 1 ≤ globalAlign g := by
  unfold globalAlign
  simp only
  split <;> omega

theorem globalAlign_lt (g : LrGlobal) : globalAlign g < 2 ^ 64 := by
  unfold globalAlign
  cases g.type with
  | none => decide
  | some type =>
    have htype := (lrTypeAlign type).isLt
    simp only [map_some, getD_some]
    split <;> omega

theorem findSymbolEntry_addSymbol_new (host : Host) {j : LrJit} {name : CStr} (addr : Nat)
    (hname : name ≠ []) (hnone : findSymbolEntry j name = none) :
    findSymbolEntry (lrJitAddSymbol host j name addr) name = some ⟨name, addr⟩ := by
  unfold lrJitAddSymbol
  rw [if_neg hname, hnone, findSymbolEntry, findSymbolEntry_cons, if_pos rfl]

section Globals
variable (host : Host) {roots : LrGlobal → Prop} {j j' : LrJit} {g : LrGlobal}

/-- The roots and one global more. -/
def WithRoot (roots : LrGlobal → Prop) (g x : LrGlobal) : Prop := roots x ∨ x = g ∧ Relocated g

theorem Sound.addRoot (h : Sound roots j) (hbound : Relocated g → Bound j g)
    (hidle : Relocated g → ∀ e ∈ j.lazyFuncs, e.name ≠ g.name) : Sound (WithRoot roots g) j where
  stacked := h.stacked
  cap := h.cap
  inside := h.inside
  bound := by
    rintro x (hx | ⟨rfl, hreloc⟩)
    · exact h.bound x hx
    · exact hbound hreloc
  idle := by
    rintro x (hx | ⟨rfl, hreloc⟩)
    · exact h.idle x hx
    · exact hidle hreloc
  registered := fun x hx => .inl (h.registered x hx)
  buffer := h.buffer

/-- Fewer roots, as long as the registered globals are among them. -/
theorem Sound.shrink (h : Sound roots j) {fewer : LrGlobal → Prop}
    (hfewer : ∀ x, fewer x → roots x) (hregistered : ∀ x, Registered j x → fewer x) :
    Sound fewer j where
  stacked := h.stacked
  cap := h.cap
  inside := h.inside
  bound := fun x hx => h.bound x (hfewer x hx)
  idle := fun x hx => h.idle x (hfewer x hx)
  registered := hregistered
  buffer := h.buffer

theorem lookup_lazyFuncs (host : Host) (j : LrJit) (name : CStr) :
    (lookupSymbolHashed host j name).1.lazyFuncs = j.lazyFuncs := by
  have hallowed : Allowed host j fun _ => True :=
    ⟨fun _ _ => trivial, fun _ _ => trivial, fun _ _ _ => trivial⟩
  exact (lookupSymbolHashed_spec hallowed name fun _ _ _ _ => trivial).1.same.lazyFuncs

/-- A new global: its range, its image and its name. -/
theorem Sound.newGlobal (h : Sound roots j) (hname : g.name ≠ [])
    (hnone : findSymbolEntry j g.name = none)
    (hroom : padUp j.dataSize (globalAlign g) + globalSize g ≤ j.dataCap)
    (hneeds : Relocated g → HasRoom (newRange j g) g) {j' : LrJit}
    (hj' : j' = lrJitAddSymbol host
      { recordGlobal j g (padUp j.dataSize (globalAlign g)) with
        dataSize := padUp j.dataSize (globalAlign g) + globalSize g } g.name
      (j.dataBuf + padUp j.dataSize (globalAlign g))) :
    Keeps roots j j' ∧ (Relocated g → Bound j' g) := by
  have hstored := h.handOut (newRange j g)
    [⟨g.name, j.dataBuf + padUp j.dataSize (globalAlign g), globalSize g⟩]
    (le_padUp j.dataSize (globalAlign_pos g)) hroom
    (by simp [newRange])
  have hnamed := hstored.trans (hstored.1.addSymbol host (h.free_of_none hnone)
    (j.dataBuf + padUp j.dataSize (globalAlign g)))
  rw [hj']
  refine ⟨hnamed, fun hreloc => ⟨newRange j g, ?_, hneeds hreloc, ?_⟩⟩
  · rw [(lrJitAddSymbol_data _ _ _ _).dataRanges]
    exact mem_append_right _ (mem_singleton_self _)
  · rw [(lrJitAddSymbol_data _ _ _ _).dataBuf]
    exact findSymbolEntry_addSymbol_new host _ hname hnone

theorem Sound.global (h : Sound roots j) (hturn : TurnOk j g)
    (hrun : materializeGlobal host j g = some j') :
    Keeps roots j j' ∧ (Relocated g → Bound j' g) ∧ j'.lazyFuncs = j.lazyFuncs := by
  unfold materializeGlobal at hrun
  split at hrun
  · next hempty =>
    cases hrun
    exact ⟨h.refl, fun hreloc => absurd hempty hreloc.2, rfl⟩
  · next hname =>
    split at hrun
    · next hexternal =>
      have hnot : Relocated g → Bound j' g := fun hreloc =>
        absurd (hexternal.symm.trans (hturn.defined hreloc)) (by decide)
      split at hrun
      · cases hrun
        exact ⟨h.refl, hnot, rfl⟩
      · cases hrun
        exact ⟨h.lookup host g.name, hnot, lookup_lazyFuncs host j g.name⟩
    · split at hrun
      · next hfound =>
        cases hrun
        exact ⟨h.refl, fun hreloc => hturn.bound hreloc (by simp [hfound]), rfl⟩
      · next hnone =>
        simp only at hrun
        obtain ⟨hroom, hrun⟩ := ite_none_left_eq_some.1 hrun
        obtain ⟨hkeeps, hbound⟩ := h.newGlobal host hname hnone (Nat.le_of_not_lt hroom)
          (fun hreloc => hturn.fresh hreloc hnone) (Option.some.inj hrun).symm
        refine ⟨hkeeps, hbound, ?_⟩
        cases hrun
        exact (lrJitAddSymbol_same _ _ _ _).lazyFuncs

/-- A full buffer is noticed if nothing wraps. -/
theorem TurnOk.overrun (hturn : TurnOk j g) (hrun : materializeGlobal host j g = none) :
    overrunGlobal j g = j := by
  unfold materializeGlobal at hrun
  split at hrun
  · cases hrun
  · split at hrun
    · split at hrun <;> cases hrun
    · next hdefined =>
      split at hrun
      · cases hrun
      · next hnone =>
        simp only at hrun
        split at hrun
        · next hfull =>
          have hwrap := hturn.nowrap (by simpa using hdefined) hnone
          have hle := le_padUp j.dataSize (globalAlign_pos g)
          have hsize : (BitVec.ofNat 64 j.dataSize).toNat = j.dataSize := by
            rw [BitVec.toNat_ofNat, Nat.mod_eq_of_lt (by omega)]
          have halign : (BitVec.ofNat 64 (globalAlign g)).toNat = globalAlign g := by
            rw [BitVec.toNat_ofNat, Nat.mod_eq_of_lt (globalAlign_lt g)]
          have hoff : (alignUp (BitVec.ofNat 64 j.dataSize)
              (BitVec.ofNat 64 (globalAlign g))).toNat = padUp j.dataSize (globalAlign g) := by
            have hmask := Lib.toNat_mask_padUp (BitVec.ofNat 64 j.dataSize)
              (BitVec.ofNat 64 (globalAlign g)) (by rw [halign]; exact globalAlign_pos g)
              (by rw [hsize, halign]; omega)
            rwa [hsize, halign] at hmask
          unfold overrunGlobal
          simp only
          rw [if_pos]
          rw [BitVec.toNat_add, hoff, BitVec.toNat_ofNat, Nat.mod_eq_of_lt (by omega : globalSize g < _),
            Nat.mod_eq_of_lt hwrap]
          exact hfull
        · cases hrun

/-- The roots and the relocated ones of some globals. -/
def WithRoots (roots : LrGlobal → Prop) (globals : List LrGlobal) (x : LrGlobal) : Prop :=
  roots x ∨ x ∈ globals ∧ Relocated x

theorem GlobalsOk.tail {globals : List LrGlobal} (h : GlobalsOk host j (g :: globals))
    (hrun : materializeGlobal host j g = some j') : GlobalsOk host j' globals := by
  intro pre g' post j'' hsplit hpre
  apply h (g :: pre) g' post j'' (by rw [hsplit, cons_append])
  rw [allocateGlobals, hrun]
  exact hpre

/-- The first pass; if it ends well, the names of all relocated globals have room. -/
theorem Sound.allocate (globals : List LrGlobal) :
    ∀ {roots : LrGlobal → Prop} {j : LrJit} {ok : Bool} (_ : Sound roots j)
      (_ : GlobalsOk host j globals)
      (_ : ∀ g ∈ globals, Relocated g → ∀ e ∈ j.lazyFuncs, e.name ≠ g.name)
      (_ : allocateGlobals host j globals = (j', ok)),
      Sound roots j' ∧ j'.lazyFuncs = j.lazyFuncs ∧
        (ok = true → Sound (WithRoots roots globals) j') := by
  induction globals with
  | nil =>
    intro roots j ok h _ _ hrun
    cases hrun
    refine ⟨h, rfl, fun _ => h.shrink ?_ fun x hx => .inl (h.registered x hx)⟩
    rintro x (hx | ⟨hmem, -⟩)
    · exact hx
    · cases hmem
  | cons g rest ih =>
    intro roots j ok h hok hidle hrun
    have hturn : TurnOk j g := hok [] g rest j rfl rfl
    rw [allocateGlobals] at hrun
    cases hfirst : materializeGlobal host j g with
    | none =>
      rw [hfirst] at hrun
      simp only [hturn.overrun host hfirst] at hrun
      cases hrun
      exact ⟨h, rfl, fun hfalse => absurd hfalse Bool.false_ne_true⟩
    | some j₁ =>
      rw [hfirst] at hrun
      obtain ⟨hkeeps, hbound, hlazy⟩ := h.global host hturn hfirst
      have hidle₁ : ∀ x ∈ g :: rest, Relocated x → ∀ e ∈ j₁.lazyFuncs, e.name ≠ x.name := by
        rw [hlazy]
        exact hidle
      have hroot := hkeeps.1.addRoot hbound (hidle₁ g mem_cons_self)
      obtain ⟨hsound, hlazy', hdone⟩ := ih hroot (hok.tail host hfirst)
        (fun x hx => hidle₁ x (mem_cons_of_mem g hx)) hrun
      have hlazies : j'.lazyFuncs = j.lazyFuncs := hlazy'.trans hlazy
      have hregistered : ∀ x, Registered j' x → roots x := by
        intro x hx
        apply h.registered x
        unfold Registered at hx ⊢
        rwa [hlazies] at hx
      refine ⟨hsound.shrink (fun x hx => .inl hx) hregistered, hlazies, fun htrue => ?_⟩
      refine (hdone htrue).shrink ?_ fun x hx => .inl (hregistered x hx)
      rintro x (hx | ⟨hmem, hreloc⟩)
      · exact .inl (.inl hx)
      · rcases mem_cons.mp hmem with rfl | hmem
        · exact .inl (.inr ⟨rfl, hreloc⟩)
        · exact .inr ⟨hmem, hreloc⟩

end Globals

section Calls
variable {env : Env} {roots : LrGlobal → Prop} {j j' : LrJit} {m : LrModule}

theorem Sound.fold {α : Type} (f : LrJit → α → LrJit) (l : List α)
    (hf : ∀ a ∈ l, ∀ {j : LrJit}, Sound roots j → Sound roots (f j a)) :
    ∀ {j : LrJit}, Sound roots j → Sound roots (l.foldl f j) := by
  induction l with
  | nil => exact fun h => h
  | cons a l ih =>
    intro j h
    exact ih (fun a' ha' => hf a' (mem_cons_of_mem a ha')) (hf a mem_cons_self h)

theorem Sound.missing (h : Sound roots j) (name : CStr) : Sound roots (addMissingName j name) := by
  unfold addMissingName
  split
  · exact h
  · exact (h.miss name).1

/-- Other entries, whose modules' relocated globals are roots. -/
theorem Sound.entries (h : Sound roots j) {entries : List LazyFuncEntry} (last : Option CStr)
    (hidle : ∀ e ∈ entries, Free roots e.name)
    (hroots : ∀ e ∈ entries, ∀ g ∈ e.module.globals, Relocated g → roots g) :
    Sound roots { j with lazyFuncs := entries, lookupLastLazyEntry := last } where
  stacked := h.stacked
  cap := h.cap
  inside := h.inside
  bound := h.bound
  idle := fun g hg e he => (hidle e he g hg).symm
  registered := by
    rintro g ⟨e, he, hmem, hreloc⟩
    exact hroots e he g hmem hreloc
  buffer := h.buffer

/-- A function is registered. -/
theorem Sound.upsert (h : Sound roots j) {f : LrFunc} (hfree : Free roots f.name)
    (hroots : ∀ g ∈ m.globals, Relocated g → roots g) :
    Sound roots (upsertLazyFuncEntry j m f) := by
  have hfind := (h.findLazy f.name).1
  have holdFree : ∀ e ∈ (findLazyFuncEntry j f.name).1.lazyFuncs, Free roots e.name :=
    fun e he g hg => (hfind.idle g hg e he).symm
  have holdRoots : ∀ e ∈ (findLazyFuncEntry j f.name).1.lazyFuncs,
      ∀ g ∈ e.module.globals, Relocated g → roots g :=
    fun e he g hmem hreloc => hfind.registered g ⟨e, he, hmem, hreloc⟩
  unfold upsertLazyFuncEntry
  simp only
  split
  · apply hfind.entries (some f.name)
    · intro e he
      obtain ⟨e', he', rfl⟩ := mem_map.mp he
      split <;> exact holdFree e' he'
    · intro e he
      obtain ⟨e', he', rfl⟩ := mem_map.mp he
      split
      · exact hroots
      · exact holdRoots e' he'
  · apply hfind.entries (some f.name)
    · exact forall_mem_cons.2 ⟨hfree, holdFree⟩
    · exact forall_mem_cons.2 ⟨hroots, holdRoots⟩

theorem Sound.register (h : Sound roots j) (hfree : ∀ f ∈ definedFuncs m, Free roots f.name)
    (hroots : ∀ g ∈ m.globals, Relocated g → roots g) :
    Sound roots (registerLazyModuleFunctions j m) := by
  apply Sound.fold _ _ _ h
  intro f hf j h
  split
  · exact h
  · exact (h.upsert (hfree f hf) hroots).missing f.name

theorem Sound.preRegister (h : Sound roots j) : Sound roots (preRegisterNames j m) := by
  apply Sound.fold _ _ _ h
  intro f _ j h
  split
  · exact h
  · exact h.missing f.name

theorem Sound.declarations (host : Host) (h : Sound roots j) :
    Sound roots (resolveDeclarations host j m) := by
  apply Sound.fold _ _ _ h
  intro f _ j h
  split
  · exact (h.lookup host f.name).1
  · exact h

/-- The eager compilation; the addresses are those of the functions. -/
theorem Sound.compileAll (funcs : List LrFunc) :
    ∀ {j : LrJit} {ctx : ObjfileCtx} {result : Option (ObjfileCtx × List (CStr × Nat))}
      (_ : Sound roots j) (_ : compileAll env m j ctx funcs = (j', result)),
      Sound roots j' ∧ ∀ ctx' addrs, result = some (ctx', addrs) →
        ∀ p ∈ addrs, ∃ f ∈ funcs, f.name = p.1 := by
  induction funcs with
  | nil =>
    intro j ctx result h hrun
    cases hrun
    refine ⟨h, fun ctx' addrs hresult => ?_⟩
    cases hresult
    simp
  | cons f rest ih =>
    intro j ctx result h hrun
    unfold Source.Jit.compileAll at hrun
    split at hrun
    · cases hrun
      exact ⟨h, fun _ _ hresult => by cases hresult⟩
    · next hone =>
      have hcompiled := (h.compileOne hone).1
      split at hrun
      · next hrest =>
        cases hrun
        exact ⟨(ih hcompiled hrest).1, fun _ _ hresult => by cases hresult⟩
      · next hrest =>
        cases hrun
        obtain ⟨hsound, hnames⟩ := ih hcompiled hrest
        refine ⟨hsound, fun ctx' addrs hresult p hp => ?_⟩
        cases hresult
        rcases mem_cons.mp hp with rfl | hp
        · exact ⟨f, mem_cons_self, rfl⟩
        · obtain ⟨f', hf', hname⟩ := hnames _ _ rfl p hp
          exact ⟨f', mem_cons_of_mem f hf', hname⟩

theorem Sound.compileModule (h : Sound roots j) (hfree : ∀ f ∈ definedFuncs m, Free roots f.name)
    (hroots : ∀ g ∈ m.globals, Relocated g → roots g)
    (hrun : compileModule env j m = some (j', ok)) : Sound roots j' := by
  unfold Source.Jit.compileModule at hrun
  split at hrun
  · next hcompile =>
    cases hrun
    exact (Sound.compileAll _ h hcompile).1
  · next ctx addrs hcompile =>
    obtain ⟨hcompiled, hnames⟩ := Sound.compileAll _ h hcompile
    have hrelocs := (hcompiled.relocs env.host ctx 0).1
    split at hrun
    · next happly =>
      rw [happly] at hrelocs
      cases hrun
      exact hrelocs
    · next happly =>
      rw [happly] at hrelocs
      obtain ⟨j₁, hwritten, hdone⟩ := bind_eq_some_iff.mp hrun
      have hnamed : Sound roots _ := Sound.fold
        (fun j (p : CStr × Nat) => lrJitAddSymbol env.host j p.1 p.2) addrs (fun p hp j h => by
          obtain ⟨f, hf, hname⟩ := hnames ctx addrs rfl p hp
          exact (h.addSymbol env.host (hname ▸ hfree f hf) p.2).1) hrelocs
      cases hdone
      exact (Sound.moduleRelocs materializeTop_keeps _ hnamed hroots hwritten).1

/-- The globals of a module, with their pointers written if there was room for all. -/
theorem Sound.materializeGlobals (h : Sound roots j) (hok : GlobalsOk env.host j m.globals)
    (hapart : NamesApart (fun name => ∃ e ∈ j.lazyFuncs, e.name = name)
      (fun g => g ∈ m.globals ∧ Relocated g))
    (hrun : lrJitMaterializeGlobals env j m = some (j', ok)) :
    (ok = false → Sound roots j') ∧ (ok = true → Sound (WithRoots roots m.globals) j') := by
  have hidle : ∀ g ∈ m.globals, Relocated g → ∀ e ∈ j.lazyFuncs, e.name ≠ g.name :=
    fun g hg hreloc e he => hapart g e.name ⟨hg, hreloc⟩ ⟨e, he, rfl⟩
  unfold lrJitMaterializeGlobals at hrun
  split at hrun
  · next hallocate =>
    cases hrun
    exact ⟨fun _ => (Sound.allocate env.host _ h hok hidle hallocate).1,
      fun hfalse => absurd hfalse Bool.false_ne_true⟩
  · next j₁ hallocate =>
    have hall := (Sound.allocate env.host _ h hok hidle hallocate).2.2 rfl
    obtain ⟨j₂, hwritten, hresult⟩ := bind_eq_some_iff.mp hrun
    cases hresult
    exact ⟨fun htrue => absurd htrue (by decide), fun _ =>
      (Sound.moduleRelocs materializeTop_keeps _ hall (fun g hg hreloc => .inr ⟨hg, hreloc⟩)
        hwritten).1⟩

/-- Only the registered globals are roots between calls. -/
theorem Sound.between (h : Sound roots j) : Sound (Registered j) j :=
  h.shrink h.registered fun _ hx => hx

theorem Sound.addModule (h : Sound (Registered j) j) {lazyMode : Bool}
    (hok : CallOk env j (.addModule lazyMode m))
    (hrun : lrJitAddModule env lazyMode j m = some (j', ok)) : Sound (Registered j') j' := by
  obtain ⟨hglobals, hentries, hfuncs⟩ := hok
  have hfree : ∀ f ∈ definedFuncs m, Free (WithRoots (Registered j) m.globals) f.name :=
    fun f hf g hg => (hfuncs g f.name hg ⟨f, hf, rfl⟩).symm
  have hroots : ∀ g ∈ m.globals, Relocated g → WithRoots (Registered j) m.globals g :=
    fun g hg hreloc => .inr ⟨hg, hreloc⟩
  obtain ⟨p, hfirst, hrest⟩ := bind_eq_some_iff.mp hrun
  obtain ⟨hfailed, hdone⟩ := h.materializeGlobals hglobals hentries hfirst
  cases hp : p.2 with
  | false =>
    simp only [hp, Bool.not_false, if_true] at hrest
    cases hrest
    exact (hfailed hp).between
  | true =>
    have hsound := hdone hp
    simp only [hp, Bool.not_true, Bool.false_eq_true, if_false] at hrest
    split at hrest
    · obtain ⟨j₁, hwritten, hresult⟩ := bind_eq_some_iff.mp hrest
      cases hresult
      exact (Sound.moduleRelocs materializeTop_keeps _ hsound hroots hwritten).1.between
    · split at hrest
      · obtain ⟨j₁, hwritten, hresult⟩ := bind_eq_some_iff.mp hrest
        cases hresult
        have hregistered := (hsound.register hfree hroots).declarations (m := m) env.host
        exact (Sound.moduleRelocs materializeTop_keeps _ hregistered hroots hwritten).1.between
      · exact ((hsound.preRegister.declarations env.host).compileModule hfree hroots
          hrest).between

theorem Sound.getSymbol (h : Sound roots j) {name : CStr}
    (hrun : lrJitGetSymbol env j name = some (j', addr)) : Sound roots j' := by
  unfold lrJitGetSymbol at hrun
  split at hrun
  · cases hrun
    exact h
  · have hlookup := (h.lookup env.host name).1
    have hfind := (hlookup.findLazy name).1
    simp only at hrun
    split at hrun
    · cases hrun
      exact hlookup
    · split at hrun
      · exact (hfind.lookup_eq _ (Option.some.inj hrun)).1
      · split at hrun
        · exact (hfind.lookup_eq _ (Option.some.inj hrun)).1
        · obtain ⟨p, hp, hrest⟩ := bind_eq_some_iff.mp hrun
          have hdone := (materializeTop_keeps hfind hp).1
          split at hrest
          · exact (hdone.lookup_eq _ (Option.some.inj hrest)).1
          · cases hrest
            exact hdone

theorem step_sound {c : Call} (h : Sound (Registered j) j) (hok : CallOk env j c)
    (hrun : step env j c = some j') : Sound (Registered j') j' := by
  cases c with
  | addModule lazyMode m =>
    obtain ⟨p, hp, rfl⟩ := map_eq_some_iff.mp hrun
    exact h.addModule hok hp
  | materializeGlobals m =>
    obtain ⟨p, hp, rfl⟩ := map_eq_some_iff.mp hrun
    obtain ⟨hfailed, hdone⟩ := h.materializeGlobals hok.1 hok.2 hp
    cases hresult : p.2 with
    | false => exact (hfailed hresult).between
    | true => exact (hdone hresult).between
  | applyRelocs ctx relocStart =>
    cases hrun
    exact (h.relocs env.host ctx relocStart).1.between
  | getSymbol name =>
    obtain ⟨p, hp, rfl⟩ := map_eq_some_iff.mp hrun
    exact (h.getSymbol hp).between
  | addSymbol name addr =>
    cases hrun
    exact (h.addSymbol env.host (fun g hg => (hok g name hg rfl).symm) addr).1.between

end Calls

theorem sound_create {codeBuf dataBuf : Nat} (hbuffer : 0 < dataBuf)
    (hfits : dataBuf + dataPageSize ≤ 2 ^ 64) :
    Sound (Registered (lrJitCreate codeBuf dataBuf)) (lrJitCreate codeBuf dataBuf) where
  stacked := .nil _ _
  cap := Nat.zero_le _
  inside := by simp [lrJitCreate]
  bound := by
    rintro g ⟨e, he, -⟩
    cases he
  idle := by
    intro g _ e he
    cases he
  registered := fun _ hg => hg
  buffer := ⟨hbuffer, hfits⟩

/-- In every run whose calls meet the condition the data buffer is safe. -/
theorem safe_of_run (env : Env) (codeBuf dataBuf : Nat) (hbuffer : 0 < dataBuf)
    (hfits : dataBuf + dataPageSize ≤ 2 ^ 64) (calls : List Call) {j : LrJit}
    (hok : Along (step env) (CallOk env) (lrJitCreate codeBuf dataBuf) calls)
    (hrun : runSteps (step env) (lrJitCreate codeBuf dataBuf) calls = some j) : DataSafe j := by
  have hsound : Sound (Registered j) j :=
    runSteps_along (fun _ _ _ h hok hrun => step_sound h hok hrun) calls
      (sound_create hbuffer hfits) hok hrun
  exact hsound.safe

/-- `@x` of this type, with a pointer to itself at its start. -/
def pointsToItself (type : LrType) : LrGlobal :=
  { name := [0x78], type := some type, relocs := [⟨0, 0, [0x78]⟩], isConst := false, id := 0 }

def globalModule (g : LrGlobal) : LrModule :=
  { globals := [g], builtin := lrModuleCreateTypes 0, nextAddr := 11 }

def noCode : Env := ⟨emptyHost, fun _ _ _ => none⟩

/-- `@x = global ptr @x` -/
def pointerModule : LrModule := globalModule (pointsToItself (.ptr 10 none))

/-- `@x = global i8 0` -/
def byteModule : LrModule :=
  globalModule { pointsToItself (.scalar 2 .i8) with relocs := [] }

def pointerState : LrJit :=
  { lrJitCreate codeAt dataAt with
    dataSize := 8
    symbols := [⟨[0x78], dataAt⟩]
    lookupLastEntry := some [0x78]
    globalWrites := [(dataAt, BitVec.ofNat 64 dataAt)]
    dataRanges := [⟨[[0x78]], 0, 8⟩]
    dataWrites := [⟨[0x78], dataAt, 8⟩, ⟨[0x78], dataAt, 8⟩] }

theorem pointerModule_turn :
    TurnOk (lrJitCreate codeAt dataAt) (pointsToItself (.ptr 10 none)) where
  nowrap := fun _ _ => by decide
  defined := fun _ => rfl
  fresh := fun _ _ => ⟨by decide, by decide⟩
  bound := fun _ hfound => absurd rfl hfound

theorem pointerModule_ok :
    CallOk noCode (lrJitCreate codeAt dataAt) (.materializeGlobals pointerModule) := by
  refine ⟨fun pre g post j' hsplit hpre => ?_, fun g name _ hname => ?_⟩
  · cases pre with
    | nil =>
      obtain ⟨rfl, -⟩ := List.cons.inj hsplit
      cases hpre
      exact pointerModule_turn
    | cons g' pre => simp [pointerModule, globalModule] at hsplit
  · obtain ⟨e, he, -⟩ := hname
    cases he

theorem pointerModule_safe : DataSafe pointerState :=
  safe_of_run noCode codeAt dataAt (by decide) (by decide) [.materializeGlobals pointerModule]
    ⟨pointerModule_ok, by
      have hstep : step noCode (lrJitCreate codeAt dataAt) (.materializeGlobals pointerModule) =
          some pointerState := by decide
      rw [hstep]
      trivial⟩ (by decide)

/-- A byte is handed out for `x`, and a word written there. -/
def overwrittenState : LrJit :=
  { lrJitCreate codeAt dataAt with
    dataSize := 1
    symbols := [⟨[0x78], dataAt⟩]
    lookupLastEntry := some [0x78]
    globalWrites := [(dataAt, BitVec.ofNat 64 dataAt)]
    dataRanges := [⟨[[0x78]], 0, 1⟩]
    dataWrites := [⟨[0x78], dataAt, 1⟩, ⟨[0x78], dataAt, 8⟩] }

theorem redefinition_overruns :
    ¬ ∀ (env : Env) (codeBuf dataBuf : Nat) (calls : List Call) (j : LrJit), 0 < dataBuf →
      dataBuf + dataPageSize ≤ 2 ^ 64 →
      runSteps (step env) (lrJitCreate codeBuf dataBuf) calls = some j → DataSafe j := by
  intro hclaim
  have hsafe := hclaim noCode codeAt dataAt
    [.materializeGlobals byteModule, .materializeGlobals pointerModule] overwrittenState
    (by decide) (by decide) (by decide)
  have houtside : ¬ InRange overwrittenState ⟨[0x78], dataAt, 8⟩ := by decide
  exact houtside (hsafe.inside _ (by decide))

end Liric.Guarantees.JitData
