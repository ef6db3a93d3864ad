import Liric.Source.Jit.Relocs

/-!
# What a lookup of the JIT can return

A lookup may remember a name as missing, keep an answer of the host or of an alias
as a symbol, and give out a word of the data buffer. It changes nothing else of
the JIT, and every address it stores or returns was one of the symbols, of the
host, of the data buffer or of a function that is being compiled. The loop over
the relocations of a context is built from lookups, so the same holds of the
targets it writes.
-/
namespace Liric.Guarantees.JitLookup
open Source.Ir Source.Object Source.Jit List
open Lib (padUp)

variable {j' j'' : LrJit} {addr idx target : Nat} {name : CStr} {scratch : RelocScratch}

/-- Only symbols, missing names, last hits and the size of the data differ. -/
structure SameCode (j j' : LrJit) : Prop where
  codeBuf : j'.codeBuf = j.codeBuf
  codeSize : j'.codeSize = j.codeSize
  codeCap : j'.codeCap = j.codeCap
  dataBuf : j'.dataBuf = j.dataBuf
  dataCap : j'.dataCap = j.dataCap
  lazyFuncs : j'.lazyFuncs = j.lazyFuncs
  placed : j'.placed = j.placed
  patches : j'.patches = j.patches
  globalWrites : j'.globalWrites = j.globalWrites

theorem SameCode.refl (j : LrJit) : SameCode j j := by constructor <;> rfl

theorem SameCode.trans {j : LrJit} (h : SameCode j j') (h' : SameCode j' j'') :
    SameCode j j'' where
  codeBuf := h'.codeBuf.trans h.codeBuf
  codeSize := h'.codeSize.trans h.codeSize
  codeCap := h'.codeCap.trans h.codeCap
  dataBuf := h'.dataBuf.trans h.dataBuf
  dataCap := h'.dataCap.trans h.dataCap
  lazyFuncs := h'.lazyFuncs.trans h.lazyFuncs
  placed := h'.placed.trans h.placed
  patches := h'.patches.trans h.patches
  globalWrites := h'.globalWrites.trans h.globalWrites

/-- Every address the JIT can come by satisfies `P`: those of its symbols, what the
host answers, the words of the data buffer. -/
structure Allowed (host : Host) (j : LrJit) (P : Nat → Prop) : Prop where
  symbols : ∀ e ∈ j.symbols, P e.addr
  host : ∀ name, resolveSymbolFromProviders host name ≠ 0 → P (resolveSymbolFromProviders host name)
  data : ∀ a, j.dataBuf ≤ a → a < j.dataBuf + j.dataCap → P a

theorem Allowed.mono {host : Host} {j : LrJit} {P P' : Nat → Prop} (h : Allowed host j P)
    (hP : ∀ a, P a → P' a) (symbols : j'.symbols = j.symbols) (dataBuf : j'.dataBuf = j.dataBuf)
    (dataCap : j'.dataCap = j.dataCap) : Allowed host j' P' where
  symbols := by
    rw [symbols]
    exact fun e he => hP _ (h.symbols e he)
  host := fun name hne => hP _ (h.host name hne)
  data := by
    rw [dataBuf, dataCap]
    exact fun a hlo hhi => hP _ (h.data a hlo hhi)

theorem lrJitAddSymbol_same (host : Host) (j : LrJit) (name : CStr) (addr : Nat) :
    SameCode j (lrJitAddSymbol host j name addr) := by
  unfold lrJitAddSymbol
  split
  · exact .refl j
  · split
    · split
      · exact .refl j
      · constructor <;> rfl
    · constructor <;> rfl

theorem lrJitAddSymbol_allowed {host : Host} {j : LrJit} {P : Nat → Prop} (h : Allowed host j P)
    (name : CStr) (haddr : P addr) :
    Allowed host (lrJitAddSymbol host j name addr) P := by
  have hsame := lrJitAddSymbol_same host j name addr
  refine ⟨?_, h.host, ?_⟩
  · intro e he
    unfold lrJitAddSymbol at he
    split at he
    · exact h.symbols e he
    · split at he
      · split at he
        · exact h.symbols e he
        · obtain ⟨e', he', rfl⟩ := mem_map.1 he
          split
          · exact haddr
          · exact h.symbols e' he'
      · rcases mem_cons.1 he with rfl | he
        · exact haddr
        · exact h.symbols e he
  · rw [hsame.dataBuf, hsame.dataCap]
    exact h.data

theorem findSymbolEntry_cons (entries : List SymEntry) (e : SymEntry) (n : CStr) :
    (e :: entries).find? (fun e => e.name == n) =
      if n = e.name then some e else entries.find? fun e => e.name == n := by
  by_cases hn : n = e.name
  · simp [hn]
  · rw [if_neg hn, find?_cons_of_neg]
    simpa using fun heq => hn heq.symm

theorem findSymbolEntry_map (entries : List SymEntry) (name : CStr) (addr : Nat) (n : CStr) :
    (entries.map fun e => if e.name == name then { e with addr := addr } else e).find?
        (fun e => e.name == n) =
      (entries.find? fun e => e.name == n).map fun e =>
        if n = name then { e with addr := addr } else e := by
  induction entries with
  | nil => rfl
  | cons e rest ih =>
    rw [map_cons]
    by_cases he : e.name = n
    · subst he
      by_cases hname : e.name = name <;> simp [hname]
    · rw [find?_cons_of_neg (by split <;> simpa using he),
        find?_cons_of_neg (by simpa using he)]
      exact ih

/-- The other names keep their entries. -/
theorem findSymbolEntry_addSymbol_ne (host : Host) (j : LrJit) {n : CStr} (addr : Nat)
    (hne : n ≠ name) :
    findSymbolEntry (lrJitAddSymbol host j name addr) n = findSymbolEntry j n := by
  unfold lrJitAddSymbol findSymbolEntry
  split
  · rfl
  · split
    · split
      · rfl
      · rw [findSymbolEntry_map]
        simp [hne]
    · rw [findSymbolEntry_cons, if_neg hne]

/-- The address that is exposed while a function of this name is being compiled. -/
def CompilingAddr (j : LrJit) (name : CStr) (addr : Nat) : Prop :=
  ∃ e ∈ j.lazyFuncs, e.name = name ∧ e.state = .compiling ∧ addr = e.pendingAddr

theorem CompilingAddr.of_same {j : LrJit} (h : SameCode j j') :
    CompilingAddr j' name addr ↔ CompilingAddr j name addr := by
  unfold CompilingAddr
  rw [h.lazyFuncs]

theorem findLazyFuncEntry_state (j : LrJit) (name : CStr) :
    SameCode j (findLazyFuncEntry j name).1 ∧
      (findLazyFuncEntry j name).1.symbols = j.symbols ∧
      (findLazyFuncEntry j name).1.miss = j.miss := by
  unfold findLazyFuncEntry
  split
  · exact ⟨.refl j, rfl, rfl⟩
  · split
    · exact ⟨.refl j, rfl, rfl⟩
    · split
      · exact ⟨by constructor <;> rfl, rfl, rfl⟩
      · exact ⟨.refl j, rfl, rfl⟩

/-- The last hit has no influence on the entry that is found. -/
theorem findLazyFuncEntry_entry (j : LrJit) (name : CStr) :
    (findLazyFuncEntry j name).2 =
      if name = [] then none else j.lazyFuncs.find? fun e => e.name == name := by
  unfold findLazyFuncEntry
  by_cases hname : name = []
  · simp [hname]
  · simp only [hname, if_false]
    unfold lastLazyEntry
    by_cases hlast : j.lookupLastLazyEntry = some name
    · rw [if_pos hlast]
      cases j.lazyFuncs.find? fun e => e.name == name <;> simp
    · rw [if_neg hlast]
      cases j.lazyFuncs.find? fun e => e.name == name <;> simp

theorem findLazyFuncEntry_some {j : LrJit} {e : LazyFuncEntry}
    (h : (findLazyFuncEntry j name).2 = some e) : e ∈ j.lazyFuncs ∧ e.name = name := by
  rw [findLazyFuncEntry_entry] at h
  by_cases hname : name = []
  · simp [hname] at h
  · rw [if_neg hname] at h
    exact ⟨mem_of_find?_eq_some h, by simpa using find?_some h⟩

theorem findLazyFuncEntry_allowed {host : Host} {j : LrJit} {P : Nat → Prop}
    (h : Allowed host j P) (name : CStr) : Allowed host (findLazyFuncEntry j name).1 P := by
  obtain ⟨hsame, hsymbols, -⟩ := findLazyFuncEntry_state j name
  exact h.mono (fun _ => id) hsymbols hsame.dataBuf hsame.dataCap

theorem lastSymbolEntry_mem {j : LrJit} {e : SymEntry} (h : lastSymbolEntry j name = some e) :
    e ∈ j.symbols := by
  unfold lastSymbolEntry at h
  split at h
  · exact mem_of_find?_eq_some h
  · cases h

/-- What a call that may add symbols does to the state, for addresses in `P`. -/
structure LookupState (host : Host) (P : Nat → Prop) (j j' : LrJit) : Prop where
  same : SameCode j j'
  allowed : Allowed host j' P

theorem LookupState.refl {host : Host} {P : Nat → Prop} {j : LrJit} (h : Allowed host j P) :
    LookupState host P j j := ⟨.refl j, h⟩

theorem LookupState.trans {host : Host} {P : Nat → Prop} {j : LrJit} (h : LookupState host P j j')
    (h' : LookupState host P j' j'') : LookupState host P j j'' :=
  ⟨h.same.trans h'.same, h'.allowed⟩

theorem LookupState.addSymbol {host : Host} {P : Nat → Prop} {j : LrJit}
    (h : LookupState host P j j') (name : CStr) (haddr : P addr) :
    LookupState host P j (lrJitAddSymbol host j' name addr) :=
  ⟨h.same.trans (lrJitAddSymbol_same host j' name addr),
    lrJitAddSymbol_allowed h.allowed name haddr⟩

section Lookups
variable {host : Host} {j : LrJit} {P : Nat → Prop}

theorem lookupSymbolTables_spec (h : Allowed host j P) (name : CStr) :
    LookupState host P j (lookupSymbolTables host j name).1 ∧
      ((lookupSymbolTables host j name).2 = 0 ∨ P (lookupSymbolTables host j name).2) := by
  unfold lookupSymbolTables
  split
  · next e hlast => exact ⟨.refl h, .inr (h.symbols e (lastSymbolEntry_mem hlast))⟩
  · split
    · next e hfind =>
      refine ⟨⟨by constructor <;> rfl, h.mono (fun _ => id) rfl rfl rfl⟩, .inr ?_⟩
      exact h.symbols e (mem_of_find?_eq_some hfind)
    · split
      · exact ⟨.refl h, .inl rfl⟩
      · by_cases hzero : resolveSymbolFromProviders host name = 0
        · simp only [hzero, if_true]
          refine ⟨?_, .inl trivial⟩
          unfold missCacheAdd
          split
          · exact .refl h
          · exact ⟨by constructor <;> rfl, h.mono (fun _ => id) rfl rfl rfl⟩
        · simp only [hzero, if_false]
          have haddr := h.host name hzero
          exact ⟨(LookupState.refl h).addSymbol name haddr, .inr haddr⟩

theorem lookupSymbolHashedExact_spec (h : Allowed host j P) (name : CStr) :
    LookupState host P j (lookupSymbolHashedExact host j name).1 ∧
      ((lookupSymbolHashedExact host j name).2 = 0 ∨ P (lookupSymbolHashedExact host j name).2 ∨
        CompilingAddr j name (lookupSymbolHashedExact host j name).2) := by
  have hfind : LookupState host P j (findLazyFuncEntry j name).1 :=
    ⟨(findLazyFuncEntry_state j name).1, findLazyFuncEntry_allowed h name⟩
  have htables := lookupSymbolTables_spec hfind.allowed name
  unfold lookupSymbolHashedExact
  simp only
  split
  · exact ⟨hfind.trans htables.1, htables.2.imp id .inl⟩
  · next e he =>
    obtain ⟨hmem, hname⟩ := findLazyFuncEntry_some he
    split
    · next hstate => exact ⟨hfind, .inr (.inr ⟨e, hmem, hname, hstate, rfl⟩)⟩
    · exact ⟨hfind, .inl rfl⟩
    · exact ⟨hfind.trans htables.1, htables.2.imp id .inl⟩

/-- An alias binds the name for good, so what it finds has to satisfy `P`. -/
theorem lookupSymbolHashedAlias_spec (h : Allowed host j P) (name aliasName : CStr)
    (halias : aliasName ≠ name → ∀ a, CompilingAddr j aliasName a → P a) :
    LookupState host P j (lookupSymbolHashedAlias host j name aliasName).1 ∧
      ((lookupSymbolHashedAlias host j name aliasName).2 = 0 ∨
        P (lookupSymbolHashedAlias host j name aliasName).2) := by
  unfold lookupSymbolHashedAlias
  split
  · exact ⟨.refl h, .inl rfl⟩
  · next hne =>
    obtain ⟨hstate, haddr⟩ := lookupSymbolHashedExact_spec h aliasName
    simp only
    split
    · exact ⟨hstate, .inl rfl⟩
    · next hnonzero =>
      have hP : P (lookupSymbolHashedExact host j aliasName).2 := by
        rcases haddr with hzero | hP | hcompiling
        · exact absurd hzero hnonzero
        · exact hP
        · exact halias (fun heq => hne (.inr heq.symm)) _ hcompiling
      exact ⟨hstate.addSymbol name hP, .inr hP⟩

theorem localPlaceholder_spec (h : Allowed host j P) (name canonical : CStr) :
    LookupState host P j (localPlaceholder host j name canonical).1 ∧
      ((localPlaceholder host j name canonical).2 = 0 ∨
        P (localPlaceholder host j name canonical).2) := by
  unfold localPlaceholder
  split
  · simp only
    split
    · next hroom =>
      have hP : P (j.dataBuf + padUp j.dataSize 8) := h.data _ (by omega) (by omega)
      have hstate : ∀ size ranges,
          LookupState host P j { j with dataSize := size, dataRanges := ranges } :=
        fun _ _ => ⟨by constructor <;> rfl, h.mono (fun _ => id) rfl rfl rfl⟩
      refine ⟨?_, .inr hP⟩
      split
      · exact (hstate _ _).addSymbol name hP
      · exact ((hstate _ _).addSymbol name hP).addSymbol canonical hP
    · exact ⟨.refl h, .inl rfl⟩
  · exact ⟨.refl h, .inl rfl⟩

theorem skipMark_ne (hname : name ≠ []) : skipMark name ≠ [] := by
  unfold skipMark
  split
  · simp
  · exact hname

/-- The names a lookup tries after the name itself. -/
def properAliases (name : CStr) : List CStr :=
  [skipMark name, underscoreAlias (skipMark name), localBase (skipMark name)].filter (· ≠ name)

/-- Whatever is being compiled under an alias of the name has its address in `P`. -/
def AliasesAllowed (j : LrJit) (P : Nat → Prop) (name : CStr) : Prop :=
  ∀ aliasName ∈ properAliases name, ∀ a, CompilingAddr j aliasName a → P a

theorem lookupSymbolAliases_spec (h : Allowed host j P) (name : CStr)
    (halias : AliasesAllowed j P name) :
    LookupState host P j (lookupSymbolAliases host j name (skipMark name)).1 ∧
      ((lookupSymbolAliases host j name (skipMark name)).2 = 0 ∨
        P (lookupSymbolAliases host j name (skipMark name)).2) := by
  unfold lookupSymbolAliases
  obtain ⟨hstate, haddr⟩ := lookupSymbolHashedAlias_spec h name (underscoreAlias (skipMark name))
    (fun hne => halias _ (by simp [properAliases, hne]))
  simp only
  split
  · next hnonzero => exact ⟨hstate, .inr (haddr.resolve_left hnonzero)⟩
  · obtain ⟨hstate', haddr'⟩ := lookupSymbolHashedAlias_spec hstate.allowed name
      (localBase (skipMark name))
      (fun hne a ha => halias _ (by simp [properAliases, hne]) a
        ((CompilingAddr.of_same hstate.same).1 ha))
    split
    · next hnonzero => exact ⟨hstate.trans hstate', .inr (haddr'.resolve_left hnonzero)⟩
    · obtain ⟨hlocal, hlocalAddr⟩ := localPlaceholder_spec hstate'.allowed name (skipMark name)
      exact ⟨(hstate.trans hstate').trans hlocal, hlocalAddr⟩

theorem lookupSymbolHashed_spec (h : Allowed host j P) (name : CStr)
    (halias : AliasesAllowed j P name) :
    LookupState host P j (lookupSymbolHashed host j name).1 ∧
      ((lookupSymbolHashed host j name).2 = 0 ∨ P (lookupSymbolHashed host j name).2 ∨
        CompilingAddr j name (lookupSymbolHashed host j name).2) := by
  unfold lookupSymbolHashed
  split
  · exact ⟨.refl h, .inl rfl⟩
  · obtain ⟨hstate, haddr⟩ := lookupSymbolHashedExact_spec h name
    simp only
    split
    · next hnonzero => exact ⟨hstate, .inr (haddr.resolve_left hnonzero)⟩
    · have hstays : AliasesAllowed (lookupSymbolHashedExact host j name).1 P name :=
        fun aliasName hmem a ha => halias aliasName hmem a
          ((CompilingAddr.of_same hstate.same).1 ha)
      obtain ⟨hstate', haddr'⟩ := lookupSymbolHashedAlias_spec hstate.allowed name (skipMark name)
        (fun hne => hstays _ (by simp [properAliases, hne]))
      split
      · next hnonzero =>
        exact ⟨hstate.trans hstate', .inr (.inl (haddr'.resolve_left hnonzero))⟩
      · obtain ⟨hrest, hrestAddr⟩ := lookupSymbolAliases_spec hstate'.allowed name
          (fun aliasName hmem a ha => hstays aliasName hmem a
            ((CompilingAddr.of_same hstate'.same).1 ha))
        exact ⟨(hstate.trans hstate').trans hrest, hrestAddr.imp id .inl⟩

/-- With nothing in compilation there is nothing to ask of the aliases. -/
theorem aliasesAllowed_of_idle (hidle : ∀ e ∈ j.lazyFuncs, e.state ≠ .compiling) (name : CStr) :
    AliasesAllowed j P name := by
  rintro aliasName - a ⟨e, he, -, hstate, -⟩
  exact absurd hstate (hidle e he)

end Lookups

/-- A function of the context itself, whose address needs no lookup. -/
def ownSymbol (sym : ObjSymbol) : Bool := sym.isDefined && sym.sectionId == 1

/-- What the symbol at `idx` of a context can stand for. -/
def SymbolTarget (j : LrJit) (symbols : List ObjSymbol) (P : Nat → Prop) (idx addr : Nat) : Prop :=
  ∃ sym, symbols[idx]? = some sym ∧
    ((ownSymbol sym = true ∧ addr = j.codeBuf + sym.offset.toNat) ∨
      (ownSymbol sym = false ∧ (addr = 0 ∨ P addr ∨ CompilingAddr j sym.name addr)))

theorem SymbolTarget.of_same {j : LrJit} {symbols : List ObjSymbol} {P : Nat → Prop}
    (codeBuf : j'.codeBuf = j.codeBuf) (lazyFuncs : j'.lazyFuncs = j.lazyFuncs) :
    SymbolTarget j' symbols P idx addr ↔ SymbolTarget j symbols P idx addr := by
  unfold SymbolTarget CompilingAddr
  rw [codeBuf, lazyFuncs]

/-- The context is looked up and patched: `new` are the patches that were added. -/
structure Relocated (host : Host) (P : Nat → Prop) (j j' : LrJit) (new : List Patch) : Prop where
  same : SameCode { j with patches := j.patches ++ new } j'
  allowed : Allowed host j' P

theorem Relocated.patches {host : Host} {P : Nat → Prop} {j : LrJit} {new : List Patch}
    (h : Relocated host P j j' new) : j'.patches = j.patches ++ new := h.same.patches

theorem Relocated.of_lookup {host : Host} {P : Nat → Prop} {j : LrJit}
    (h : LookupState host P j j') : Relocated host P j j' [] where
  same := by simpa using h.same
  allowed := h.allowed

theorem Relocated.trans {host : Host} {P : Nat → Prop} {j : LrJit} {new new' : List Patch}
    (h : Relocated host P j j' new) (h' : Relocated host P j' j'' new') :
    Relocated host P j j'' (new ++ new') where
  same := by
    obtain ⟨same, -⟩ := h
    obtain ⟨same', -⟩ := h'
    constructor
    · exact same'.codeBuf.trans same.codeBuf
    · exact same'.codeSize.trans same.codeSize
    · exact same'.codeCap.trans same.codeCap
    · exact same'.dataBuf.trans same.dataBuf
    · exact same'.dataCap.trans same.dataCap
    · exact same'.lazyFuncs.trans same.lazyFuncs
    · exact same'.placed.trans same.placed
    · have hpatches : j''.patches = j'.patches ++ new' := same'.patches
      have hpatches' : j'.patches = j.patches ++ new := same.patches
      rw [hpatches, hpatches', append_assoc]
    · exact same'.globalWrites.trans same.globalWrites
  allowed := h'.allowed

section Relocs
variable {host : Host} {j : LrJit} {P : Nat → Prop} {symbols : List ObjSymbol}

theorem resolveRelocTarget_spec (h : Allowed host j P) {sym : ObjSymbol}
    (hsym : symbols[idx]? = some sym) (halias : ownSymbol sym = false → AliasesAllowed j P sym.name)
    (hresolve : resolveRelocTarget host j sym = .ok (j', target)) :
    LookupState host P j j' ∧ SymbolTarget j symbols P idx target := by
  unfold resolveRelocTarget at hresolve
  split at hresolve
  · next hown =>
    split at hresolve
    · cases hresolve
    · cases hresolve
      exact ⟨.refl h, sym, hsym, .inl ⟨hown, rfl⟩⟩
  · next hown =>
    have hnotOwn : ownSymbol sym = false := by simpa [ownSymbol] using hown
    split at hresolve
    · cases hresolve
    · obtain ⟨hstate, haddr⟩ := lookupSymbolHashed_spec h sym.name (halias hnotOwn)
      have heq : lookupSymbolHashed host j sym.name = (j', target) := Except.ok.inj hresolve
      rw [heq] at hstate haddr
      exact ⟨hstate, sym, hsym, .inr ⟨hnotOwn, haddr⟩⟩

/-- The targets that are remembered are those of their symbols. -/
def ScratchAllowed (j : LrJit) (symbols : List ObjSymbol) (P : Nat → Prop)
    (scratch : RelocScratch) : Prop :=
  ∀ idx target, scratch.resolved.lookup idx = some target → SymbolTarget j symbols P idx target

variable {scratch' : RelocScratch}

theorem relocTarget_spec (h : Allowed host j P) {sym : ObjSymbol} (hsym : symbols[idx]? = some sym)
    (halias : ownSymbol sym = false → AliasesAllowed j P sym.name)
    (hscratch : ScratchAllowed j symbols P scratch)
    (htarget : relocTarget host j scratch idx sym = .ok (j', scratch', target)) :
    LookupState host P j j' ∧ SymbolTarget j symbols P idx target ∧
      ScratchAllowed j symbols P scratch' := by
  unfold relocTarget at htarget
  split at htarget
  · next hfound =>
    cases htarget
    exact ⟨.refl h, hscratch idx _ hfound, hscratch⟩
  · cases hresolve : resolveRelocTarget host j sym with
    | error e => rw [hresolve] at htarget; cases htarget
    | ok p =>
      rw [hresolve] at htarget
      obtain ⟨hstate, hspec⟩ := resolveRelocTarget_spec h hsym halias
        (hresolve : resolveRelocTarget host j sym = .ok (p.1, p.2))
      have heq : (p.1, ({ scratch with resolved := (idx, p.2) :: scratch.resolved } : RelocScratch),
          p.2) = (j', scratch', target) := Except.ok.inj htarget
      cases heq
      refine ⟨hstate, hspec, fun idx' target' hlookup => ?_⟩
      rw [lookup_cons] at hlookup
      by_cases hidx : idx' = idx
      · subst hidx
        simp only [beq_self_eq_true] at hlookup
        cases hlookup
        exact hspec
      · have hbeq : (idx' == idx) = false := by simpa using hidx
        simp only [hbeq] at hlookup
        exact hscratch idx' target' hlookup

theorem allocGotSlot_spec (h : Allowed host j P) {slot : Nat}
    (halloc : allocGotSlot j = some (j', slot)) :
    LookupState host P j j' ∧ j'.symbols = j.symbols ∧ j.dataBuf ≤ slot ∧
      slot + 8 ≤ j.dataBuf + j.dataCap := by
  unfold allocGotSlot at halloc
  simp only at halloc
  split at halloc
  · cases halloc
  · cases halloc
    exact ⟨⟨by constructor <;> rfl, h.mono (fun _ => id) rfl rfl rfl⟩, rfl, by omega, by omega⟩

variable {slot : Option Nat}

theorem relocSlot_spec (h : Allowed host j P) {type : UInt8} (hslot : relocSlot j scratch idx type = some (j', scratch', slot)) :
    LookupState host P j j' ∧ j'.symbols = j.symbols ∧ scratch'.resolved = scratch.resolved := by
  unfold relocSlot at hslot
  split at hslot
  · split at hslot
    · cases hslot
      exact ⟨.refl h, rfl, rfl⟩
    · cases halloc : allocGotSlot j with
      | none => rw [halloc] at hslot; cases hslot
      | some p =>
        rw [halloc] at hslot
        obtain ⟨hstate, hsymbols, -⟩ := allocGotSlot_spec h
          (halloc : allocGotSlot j = some (p.1, p.2))
        cases hslot
        exact ⟨hstate, hsymbols, rfl⟩
  · cases hslot
    exact ⟨.refl h, rfl, rfl⟩

/-- The patches a relocation may leave. -/
def PatchOf (j : LrJit) (symbols : List ObjSymbol) (P : Nat → Prop) (rel : ObjReloc) (p : Patch) :
    Prop :=
  p.offset = rel.offset.toNat ∧ p.type = rel.type ∧ p.offset < j.codeSize ∧ p.target ≠ 0 ∧
    SymbolTarget j symbols P rel.symbolIdx.toNat p.target

theorem PatchOf.of_same {j : LrJit} {rel : ObjReloc} {p : Patch} (codeBuf : j'.codeBuf = j.codeBuf)
    (codeSize : j'.codeSize = j.codeSize) (lazyFuncs : j'.lazyFuncs = j.lazyFuncs) :
    PatchOf j' symbols P rel p ↔ PatchOf j symbols P rel p := by
  unfold PatchOf
  rw [codeSize, SymbolTarget.of_same codeBuf lazyFuncs]

theorem patchWidth_pos (type : UInt8) : 0 < patchWidth type := by
  unfold patchWidth
  split <;> omega

theorem writePatch_spec (h : Allowed host j P) {rel : ObjReloc}
    (hne : target ≠ 0) (htarget : SymbolTarget j symbols P rel.symbolIdx.toNat target)
    (hwrite : writePatch j rel target slot = some j') :
    ∃ p, PatchOf j symbols P rel p ∧ Relocated host P j j' [p] := by
  unfold writePatch at hwrite
  simp only at hwrite
  split at hwrite
  · next hfits =>
    cases hwrite
    have hpos := patchWidth_pos rel.type
    refine ⟨⟨rel.offset.toNat, rel.type, target, slot⟩, ⟨rfl, rfl, ?_, hne, htarget⟩,
      ⟨by constructor <;> rfl, h.mono (fun _ => id) rfl rfl rfl⟩⟩
    change rel.offset.toNat < j.codeSize
    omega
  · cases hwrite

/-- A relocation is written, or nothing is and a symbol of the context is blamed. -/
theorem applyJitReloc_spec (h : Allowed host j P)
    (halias : ∀ sym ∈ symbols, ownSymbol sym = false → AliasesAllowed j P sym.name)
    (hscratch : ScratchAllowed j symbols P scratch) (rel : ObjReloc) :
    (∃ j' scratch' p, applyJitReloc host symbols j scratch rel = (j', .ok scratch') ∧
        Relocated host P j j' [p] ∧ PatchOf j symbols P rel p ∧
        ScratchAllowed j symbols P scratch') ∨
      ∃ j' e, applyJitReloc host symbols j scratch rel = (j', .error e) ∧
        Relocated host P j j' [] ∧ ∀ s, e = .missing s → ∃ sym ∈ symbols, s = sym.name := by
  unfold applyJitReloc
  simp only
  cases hsym : symbols[rel.symbolIdx.toNat]? with
  | none => exact .inr ⟨_, _, rfl, .of_lookup (.refl h), by simp⟩
  | some sym =>
    have hmem := mem_of_getElem? hsym
    simp only
    cases htarget : relocTarget host j scratch rel.symbolIdx.toNat sym with
    | error e =>
      refine .inr ⟨_, _, rfl, .of_lookup (.refl h), ?_⟩
      rintro s rfl
      -- the resolution of a target fails without a name
      unfold relocTarget resolveRelocTarget at htarget
      split at htarget
      · cases htarget
      · split at htarget
        · split at htarget <;> cases htarget
        · split at htarget <;> cases htarget
    | ok r =>
      obtain ⟨j₁, scratch₁, target⟩ := r
      obtain ⟨hstate₁, hspec, hscratch₁⟩ :=
        relocTarget_spec h hsym (halias sym hmem) hscratch htarget
      simp only
      split
      · exact .inr ⟨_, _, rfl, .of_lookup hstate₁, fun s hs => ⟨sym, hmem, by cases hs; rfl⟩⟩
      · next hne =>
        cases hslot : relocSlot j₁ scratch₁ rel.symbolIdx.toNat rel.type with
        | none => exact .inr ⟨_, _, rfl, .of_lookup hstate₁, by simp⟩
        | some r =>
          obtain ⟨j₂, scratch₂, slot⟩ := r
          obtain ⟨hstate₂, -, hresolved⟩ := relocSlot_spec hstate₁.allowed hslot
          have hstate := hstate₁.trans hstate₂
          simp only
          cases hwrite : writePatch j₂ rel target slot with
          | none =>
            refine .inr ⟨_, _, rfl, .of_lookup hstate, fun s hs => ⟨sym, hmem, ?_⟩⟩
            split at hs
            · cases hs
            · cases hs; rfl
          | some j₃ =>
            have hspec₂ : SymbolTarget j₂ symbols P rel.symbolIdx.toNat target :=
              (SymbolTarget.of_same hstate.same.codeBuf hstate.same.lazyFuncs).2 hspec
            obtain ⟨p, hp, hrelocated⟩ := writePatch_spec hstate.allowed hne hspec₂ hwrite
            refine .inl ⟨j₃, scratch₂, p, rfl, ?_, ?_, ?_⟩
            · simpa using (Relocated.of_lookup hstate).trans hrelocated
            · exact (PatchOf.of_same hstate.same.codeBuf hstate.same.codeSize
                hstate.same.lazyFuncs).1 hp
            · intro idx t hlookup
              rw [hresolved] at hlookup
              exact hscratch₁ idx t hlookup

/-- Every patch comes from one of the relocations; without a failure each of them
has its patch. -/
theorem applyJitRelocsLoop_spec (rels : List ObjReloc) :
    ∀ {j : LrJit} (_ : Allowed host j P)
      (_ : ∀ sym ∈ symbols, ownSymbol sym = false → AliasesAllowed j P sym.name)
      {scratch : RelocScratch} (_ : ScratchAllowed j symbols P scratch),
    ∃ j' r new, applyJitRelocsLoop host symbols j scratch rels = (j', r) ∧
      Relocated host P j j' new ∧ (∀ p ∈ new, ∃ rel ∈ rels, PatchOf j symbols P rel p) ∧
      (r = none → ∀ rel ∈ rels, ∃ p ∈ new, PatchOf j symbols P rel p) ∧
      ∀ s, r = some (.missing s) → ∃ sym ∈ symbols, s = sym.name := by
  induction rels with
  | nil =>
    intro j h _ scratch _
    exact ⟨j, none, [], rfl, .of_lookup (.refl h), by simp, by simp, by simp⟩
  | cons rel rest ih =>
    intro j h halias scratch hscratch
    unfold applyJitRelocsLoop
    rcases applyJitReloc_spec h halias hscratch rel with
      ⟨j₁, scratch₁, p, hturn, hrelocated, hp, hscratch₁⟩ | ⟨j₁, e, hturn, hrelocated, hmissing⟩
    · rw [hturn]
      simp only
      have hbuf := hrelocated.same.codeBuf
      have hlazy := hrelocated.same.lazyFuncs
      have hsize := hrelocated.same.codeSize
      obtain ⟨j', r, new, hrest, hrelocated', hnew, hall, hmissing⟩ :=
        ih (j := j₁) hrelocated.allowed
          (fun sym hmem hown aliasName hal a ha => halias sym hmem hown aliasName hal a
            (by unfold CompilingAddr at ha ⊢; rwa [hlazy] at ha))
          (fun idx t hlookup =>
            (SymbolTarget.of_same hbuf hlazy).2 (hscratch₁ idx t hlookup))
      refine ⟨j', r, [p] ++ new, hrest, hrelocated.trans hrelocated', ?_, ?_, hmissing⟩
      · intro q hq
        rcases mem_cons.1 hq with rfl | hq
        · exact ⟨rel, by simp, hp⟩
        · obtain ⟨rel', hmem, hq⟩ := hnew q hq
          exact ⟨rel', by simp [hmem], (PatchOf.of_same hbuf hsize hlazy).1 hq⟩
      · intro hr rel' hmem
        rcases mem_cons.1 hmem with rfl | hmem
        · exact ⟨p, by simp, hp⟩
        · obtain ⟨q, hq, hspec⟩ := hall hr rel' hmem
          exact ⟨q, by simp [hq], (PatchOf.of_same hbuf hsize hlazy).1 hspec⟩
    · rw [hturn]
      refine ⟨j₁, some e, [], rfl, hrelocated, by simp, by simp, fun s hs => ?_⟩
      exact hmissing s (Option.some.inj hs)

theorem applyJitRelocs_spec (h : Allowed host j P) (ctx : ObjfileCtx)
    (halias : ∀ sym ∈ ctx.symbols, ownSymbol sym = false → AliasesAllowed j P sym.name) :
    ∃ j' r new, applyJitRelocs host j ctx 0 = (j', r) ∧ Relocated host P j j' new ∧
      (∀ p ∈ new, ∃ rel ∈ ctx.relocs, PatchOf j ctx.symbols P rel p) ∧
      (r = none → ∀ rel ∈ ctx.relocs, ∃ p ∈ new, PatchOf j ctx.symbols P rel p) ∧
      ∀ s, r = some (.missing s) → ∃ sym ∈ ctx.symbols, s = sym.name := by
  unfold applyJitRelocs
  rw [if_neg (by omega), drop_zero]
  exact applyJitRelocsLoop_spec ctx.relocs h halias (fun idx t hlookup => by simp at hlookup)

end Relocs

end Liric.Guarantees.JitLookup
