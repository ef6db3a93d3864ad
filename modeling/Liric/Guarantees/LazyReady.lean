import Liric.Guarantees.LazyMaterialize

/-!
# Runs of lazy calls

A run is any sequence of modules added in lazy mode, symbols added by the user and
lookups of names. Between calls nothing is being compiled. A call is good when it
adds no knot, redefines nothing that could be in use, and names no address inside
code that is not ready: then ready functions only reach ready functions, however
many of the others fail to link. Without the first condition they do not.
-/
namespace Liric.Guarantees.LazyReady
open Source.Ir Source.Object Source.Jit JitLookup LazyMaterialize List

variable {j' j₀ : LrJit} {m : LrModule}

inductive JitCall where
  | addModule (m : LrModule)
  | addSymbol (name : CStr) (addr : Nat)
  | getSymbol (name : CStr)

/-- The state after a call in lazy mode, whatever the call returned. -/
def stepCall (env : Env) (j : LrJit) : JitCall → Option LrJit
  | .addModule m => (lrJitAddModule env true j m).map fun r => r.1
  | .addSymbol name addr => some (lrJitAddSymbol env.host j name addr)
  | .getSymbol name => (lrJitGetSymbol env j name).map fun r => r.1

def runCalls (env : Env) : LrJit → List JitCall → Option LrJit
  | j, [] => some j
  | j, c :: rest => do
    let j ← stepCall env j c
    runCalls env j rest

/-- The state of `lr_jit_create` with its two buffers. -/
def lrJitCreate (codeBuf dataBuf : Nat) : LrJit :=
  { codeBuf := codeBuf, codeCap := codePageSize, dataBuf := dataBuf, dataCap := dataPageSize }

/-- The buffers are apart, and no symbol of the host is in the code buffer. -/
structure Buffers (host : Host) (codeBuf dataBuf : Nat) : Prop where
  host : ∀ name, resolveSymbolFromProviders host name ≠ 0 →
    resolveSymbolFromProviders host name < codeBuf ∨
      codeBuf + codePageSize ≤ resolveSymbolFromProviders host name
  apart : dataBuf + dataPageSize ≤ codeBuf ∨ codeBuf + codePageSize ≤ dataBuf

/-- The functions of a module that lazy mode registers. -/
def moduleFuncs (m : LrModule) : List (LrModule × LrFunc) := (definedFuncs m).map fun f => (m, f)

/-- The condition on a call. A name may be defined again while its function was
never looked up, unless the globals of the new module could look it up first. -/
def CallOk (env : Env) (j : LrJit) : JitCall → Prop
  | .addModule m =>
    NoKnot env (moduleFuncs m ++ registered j) ∧
      ∀ f ∈ definedFuncs m, ∀ e ∈ j.lazyFuncs, e.name = f.name →
        e.state = .pending ∧ ∀ g ∈ m.globals, g.relocs = []
  | .addSymbol _ addr => Safe j addr
  | .getSymbol _ => True

def CallsOk (env : Env) : LrJit → List JitCall → Prop
  | _, [] => True
  | j, c :: rest => CallOk env j c ∧ ∀ j', stepCall env j c = some j' → CallsOk env j' rest

structure Idle (env : Env) (j : LrJit) : Prop where
  inv : Inv env (registered j) j
  knot : NoKnot env (registered j)
  idle : ∀ e ∈ j.lazyFuncs, e.state ≠ .compiling

section Steps
variable {env : Env} {j : LrJit}

theorem Idle.of_keeps (h : Idle env j) {floor : Nat} (hinv : Inv env (registered j) j')
    (hkeeps : Keeps floor j j') : Idle env j' where
  inv := by
    rw [hinv.registered]
    exact hinv
  knot := by
    rw [hinv.registered]
    exact h.knot
  idle := fun e he hstate =>
    h.idle e ((hkeeps.grows.compiling e trivial hstate).1 he) hstate

theorem Idle.of_lookup (h : Idle env j) (hstate : LookupState env.host (Safe j) j j') :
    Idle env j' :=
  h.of_keeps (h.inv.of_lookup hstate) (show Keeps 0 j j' from .of_lookup hstate)

theorem Idle.lookup (h : Idle env j) (name : CStr) :
    Idle env (lookupSymbolHashed env.host j name).1 :=
  h.of_lookup (lookupSymbolHashed_spec h.inv.allowed name (aliasesAllowed_of_idle h.idle name)).1

/-- Lookups leave the entries as they are. -/
theorem Idle.lookup_lazyFuncs (h : Idle env j) (name : CStr) :
    (lookupSymbolHashed env.host j name).1.lazyFuncs = j.lazyFuncs :=
  (lookupSymbolHashed_spec h.inv.allowed name (aliasesAllowed_of_idle h.idle name)).1.same.lazyFuncs

theorem Idle.find (h : Idle env j) (name : CStr) : Idle env (findLazyFuncEntry j name).1 :=
  h.of_lookup ⟨(findLazyFuncEntry_state j name).1, findLazyFuncEntry_allowed h.inv.allowed name⟩

/-- The fuel of a call from outside covers what is pending. -/
theorem pendingCount_lt_fuel (j : LrJit) : pendingCount j < materializeFuel j := by
  unfold pendingCount materializeFuel
  exact Nat.lt_succ_of_le countP_le_length

theorem materializeTop_spec (hrelocs : RelocsInCode env) {regs : List (LrModule × LrFunc)}
    (hknot : NoKnot env regs) (n : Nat) : MatSpec env regs n (materializeTop env) :=
  fun j name h _ hunder => materializeLazyFunction_spec hrelocs hknot (materializeFuel j) j name h
    (pendingCount_lt_fuel j) hunder

theorem Idle.materialize (hrelocs : RelocsInCode env) (h : Idle env j) (name : CStr) :
    ∃ j' ok, materializeTop env j name = some (j', ok) ∧ Idle env j' := by
  obtain ⟨j', ok, hrun, hinv, hkeeps, -⟩ := materializeTop_spec hrelocs h.knot _ j name h.inv
    (pendingCount_lt_fuel j) (fun c hc hstate => absurd hstate (h.idle c hc))
  exact ⟨j', ok, hrun, h.of_keeps hinv hkeeps⟩

theorem Idle.globalRelocs (hrelocs : RelocsInCode env) (h : Idle env j) (m : LrModule) :
    ∃ j', applyModuleGlobalRelocs env (materializeTop env) j m.globals = some j' ∧
      Idle env j' ∧ registered j' = registered j := by
  obtain ⟨j', hrun, hinv, hkeeps⟩ := applyModuleGlobalRelocs_spec (m := m)
    (materializeTop_spec hrelocs h.knot _) m.globals h.inv (pendingCount_lt_fuel j)
    (fun c hc hstate => absurd hstate (h.idle c hc)) (fun g hg => hg)
  exact ⟨j', hrun, h.of_keeps hinv hkeeps, hinv.registered⟩

theorem registered_congr (h : j'.lazyFuncs = j.lazyFuncs) : registered j' = registered j := by
  unfold registered
  rw [h]

/-- Globals without relocations ask for nothing. -/
theorem applyModuleGlobalRelocs_none (env : Env) (j : LrJit)
    (materialize : LrJit → CStr → Option (LrJit × Bool))
    (globals : List LrGlobal) (hnone : ∀ g ∈ globals, g.relocs = []) :
    applyModuleGlobalRelocs env materialize j globals = some j := by
  induction globals with
  | nil => rfl
  | cons g rest ih =>
    unfold applyModuleGlobalRelocs
    rw [hnone g (by simp)]
    exact ih fun g' hg' => hnone g' (by simp [hg'])

theorem Idle.materializeGlobal (h : Idle env j) (g : LrGlobal)
    (hrun : materializeGlobal env.host j g = some j') :
    Idle env j' ∧ j'.lazyFuncs = j.lazyFuncs := by
  unfold Source.Jit.materializeGlobal at hrun
  split at hrun
  · cases hrun
    exact ⟨h, rfl⟩
  · split at hrun
    · split at hrun
      · cases hrun
        exact ⟨h, rfl⟩
      · cases hrun
        exact ⟨h.lookup g.name, h.lookup_lazyFuncs g.name⟩
    · split at hrun
      · cases hrun
        exact ⟨h, rfl⟩
      · simp only at hrun
        obtain ⟨hroom, hrun⟩ := Option.ite_none_left_eq_some.1 hrun
        cases hrun
        have hsize : LookupState env.host (Safe j) j
            { recordGlobal j g (Lib.padUp j.dataSize (globalAlign g)) with
              dataSize := Lib.padUp j.dataSize (globalAlign g) + globalSize g } :=
          ⟨by constructor <;> rfl, h.inv.allowed.mono (fun _ => id) rfl rfl rfl⟩
        have hpos : 0 < globalSize g := by
          unfold globalSize
          simp only
          split <;> omega
        have hadd := hsize.addSymbol g.name (h.inv.allowed.data
          (j.dataBuf + Lib.padUp j.dataSize (globalAlign g)) (by omega) (by omega))
        exact ⟨h.of_lookup hadd, hadd.same.lazyFuncs⟩

theorem Idle.overrun (h : Idle env j) (g : LrGlobal) :
    Idle env (overrunGlobal j g) ∧ (overrunGlobal j g).lazyFuncs = j.lazyFuncs := by
  rw [overrunGlobal]
  split
  · exact ⟨h, rfl⟩
  · exact ⟨h.of_lookup ⟨by constructor <;> rfl, h.inv.allowed.mono (fun _ => id) rfl rfl rfl⟩, rfl⟩

theorem Idle.allocateGlobals (globals : List LrGlobal) : ∀ {j : LrJit} (_ : Idle env j),
    Idle env (allocateGlobals env.host j globals).1 ∧
      (allocateGlobals env.host j globals).1.lazyFuncs = j.lazyFuncs := by
  induction globals with
  | nil => exact fun h => ⟨h, rfl⟩
  | cons g rest ih =>
    intro j h
    unfold Source.Jit.allocateGlobals
    split
    · exact h.overrun g
    · next hrun =>
      obtain ⟨hidle, hlazy⟩ := h.materializeGlobal g hrun
      obtain ⟨hrest, hrestLazy⟩ := ih hidle
      exact ⟨hrest, hrestLazy.trans hlazy⟩

/-- The globals of a module before its functions are registered. -/
theorem Idle.materializeGlobals (hrelocs : RelocsInCode env) (h : Idle env j) (m : LrModule) :
    ∃ j' ok, lrJitMaterializeGlobals env j m = some (j', ok) ∧ Idle env j' ∧
      registered j' = registered j ∧
      ((∀ g ∈ m.globals, g.relocs = []) → j'.lazyFuncs = j.lazyFuncs) := by
  obtain ⟨hidle, hlazy⟩ := Idle.allocateGlobals m.globals h
  have hregistered : registered (Source.Jit.allocateGlobals env.host j m.globals).1 =
      registered j := registered_congr hlazy
  unfold lrJitMaterializeGlobals
  cases hrun : Source.Jit.allocateGlobals env.host j m.globals with
  | mk j₁ ok =>
    rw [hrun] at hidle hlazy hregistered
    cases ok with
    | false => exact ⟨j₁, false, rfl, hidle, hregistered, fun _ => hlazy⟩
    | true =>
      obtain ⟨j', happly, hidle', hregistered'⟩ := hidle.globalRelocs hrelocs m
      simp only
      refine ⟨j', true, by rw [happly]; rfl, hidle', hregistered'.trans hregistered, ?_⟩
      intro hnone
      have hsame := applyModuleGlobalRelocs_none env j₁ (materializeTop env)
        m.globals hnone
      rw [hsame] at happly
      cases happly
      exact hlazy

/-- Entries that are not ready are replaced. -/
theorem Inv.replace (h : Inv env (registered j) j) (entries : List LazyFuncEntry)
    (last : Option CStr) (hnames : (entries.map fun e => e.name).Nodup)
    (hown : ∀ e ∈ entries, e.func.name = e.name ∧ e.name ≠ [])
    (hready : ∀ e : LazyFuncEntry, e.state = .ready → (e ∈ entries ↔ e ∈ j.lazyFuncs)) :
    Inv env (registered { j with lazyFuncs := entries, lookupLastLazyEntry := last })
      { j with lazyFuncs := entries, lookupLastLazyEntry := last } := by
  set j' : LrJit := { j with lazyFuncs := entries, lookupLastLazyEntry := last } with hj'
  have hblock : ∀ b, ReadyBlock j' b ↔ ReadyBlock j b := by
    intro b
    constructor
    · rintro ⟨e, he, hstate, hb⟩
      exact ⟨e, (hready e hstate).1 he, hstate, hb⟩
    · rintro ⟨e, he, hstate, hb⟩
      exact ⟨e, (hready e hstate).2 he, hstate, hb⟩
  have hsafe : Safe j' = Safe j := by
    funext a
    unfold Safe HoldsAddr
    simp only [hblock]
    rfl
  refine ⟨rfl, hnames, hown, h.fits, h.small, h.inside, h.apart, h.patchesInside, ?_, ?_, ?_, ?_⟩
  · exact fun e he hstate => h.ready e ((hready e hstate).1 he) hstate
  · exact fun b hb => h.patched b ((hblock b).1 hb)
  · intro b hb q hq hin
    rw [hsafe]
    exact h.targets b ((hblock b).1 hb) q hq hin
  · rw [hsafe]
    exact h.allowed.mono (fun _ => id) rfl rfl rfl

/-- While the functions of `m` are registered: what is ready stays, what `m` defines
is pending. -/
structure Registering (env : Env) (j₀ : LrJit) (m : LrModule) (j : LrJit) : Prop where
  inv : Inv env (registered j) j
  idle : ∀ e ∈ j.lazyFuncs, e.state ≠ .compiling
  pending : ∀ f ∈ definedFuncs m, ∀ e ∈ j.lazyFuncs, e.name = f.name → e.state = .pending
  known : ∀ p ∈ registered j, p ∈ moduleFuncs m ∨ p ∈ registered j₀

theorem Registering.of_lookup (h : Registering env j₀ m j)
    (hstate : LookupState env.host (Safe j) j j') : Registering env j₀ m j' := by
  have hinv := h.inv.of_lookup hstate
  have hlazy := hstate.same.lazyFuncs
  refine ⟨?_, ?_, ?_, ?_⟩
  · rw [hinv.registered]
    exact hinv
  · rw [hlazy]
    exact h.idle
  · rw [hlazy]
    exact h.pending
  · rw [registered_congr hlazy]
    exact h.known

theorem Registering.upsert (h : Registering env j₀ m j) {f : LrFunc} (hf : f ∈ definedFuncs m)
    (hname : f.name ≠ []) :
    Registering env j₀ m (upsertLazyFuncEntry j m f) := by
  have hfind : Registering env j₀ m (findLazyFuncEntry j f.name).1 :=
    h.of_lookup ⟨(findLazyFuncEntry_state j f.name).1, findLazyFuncEntry_allowed h.inv.allowed _⟩
  have hlazy := (findLazyFuncEntry_state j f.name).1.lazyFuncs
  have hentry := findLazyFuncEntry_entry j f.name
  rw [if_neg hname, ← hlazy] at hentry
  unfold upsertLazyFuncEntry
  generalize findLazyFuncEntry j f.name = r at hfind hentry
  obtain ⟨j₁, existing⟩ := r
  simp only at hfind hentry ⊢
  have hmodule : (m, f) ∈ moduleFuncs m := mem_map.2 ⟨f, hf, rfl⟩
  cases existing with
  | some old =>
    set change : LazyFuncEntry → LazyFuncEntry :=
      fun e => { e with module := m, func := f, pendingAddr := 0, state := .pending }
    have hmem : ∀ e' ∈ (updateLazyEntry j₁ f.name change).lazyFuncs,
        (e' ∈ j₁.lazyFuncs ∧ e'.name ≠ f.name) ∨
          (e'.name = f.name ∧ e'.module = m ∧ e'.func = f ∧ e'.state = .pending) := by
      intro e' he'
      obtain ⟨e, he, rfl⟩ := mem_updateLazyEntry.1 he'
      by_cases heq : e.name = f.name
      · rw [if_pos heq]
        exact .inr ⟨heq, rfl, rfl, rfl⟩
      · rw [if_neg heq]
        exact .inl ⟨he, heq⟩
    refine ⟨Inv.replace hfind.inv _ _ ?_ ?_ ?_, ?_, ?_, ?_⟩
    · have hsame : ((updateLazyEntry j₁ f.name change).lazyFuncs.map fun e => e.name) =
          j₁.lazyFuncs.map fun e => e.name := by
        unfold updateLazyEntry
        rw [map_map]
        refine map_congr_left fun e _ => ?_
        simp only [Function.comp]
        split <;> rfl
      rw [hsame]
      exact hfind.inv.names
    · intro e he
      rcases hmem e he with ⟨hold, -⟩ | ⟨heq, -, hfunc, -⟩
      · exact hfind.inv.own e hold
      · rw [hfunc, heq]
        exact ⟨rfl, hname⟩
    · intro e hstate
      constructor
      · intro he
        rcases hmem e he with ⟨hold, -⟩ | ⟨-, -, -, hpending⟩
        · exact hold
        · rw [hpending] at hstate
          cases hstate
      · intro he
        have hne : e.name ≠ f.name := by
          intro heq
          rw [hfind.pending f hf e he heq] at hstate
          cases hstate
        exact mem_updateLazyEntry.2 ⟨e, he, by rw [if_neg hne]⟩
    · intro e he
      rcases hmem e he with ⟨hold, -⟩ | ⟨-, -, -, hpending⟩
      · exact hfind.idle e hold
      · rw [hpending]
        simp
    · intro f' hf' e he heq
      rcases hmem e he with ⟨hold, -⟩ | ⟨-, -, -, hpending⟩
      · exact hfind.pending f' hf' e hold heq
      · exact hpending
    · intro p hp
      obtain ⟨e, he, rfl⟩ := mem_map.1 hp
      rcases hmem e he with ⟨hold, -⟩ | ⟨-, hmod, hfunc, -⟩
      · exact hfind.known _ (mem_map.2 ⟨e, hold, rfl⟩)
      · rw [hmod, hfunc]
        exact .inl hmodule
  | none =>
    have hnew : ∀ e ∈ j₁.lazyFuncs, e.name ≠ f.name := by
      intro e he
      simpa using List.find?_eq_none.1 hentry.symm e he
    refine ⟨Inv.replace hfind.inv _ _ ?_ ?_ ?_, ?_, ?_, ?_⟩
    · rw [map_cons, nodup_cons]
      refine ⟨fun hmem => ?_, hfind.inv.names⟩
      obtain ⟨e, he, heq⟩ := mem_map.1 hmem
      exact hnew e he heq
    · exact forall_mem_cons.2 ⟨⟨rfl, hname⟩, hfind.inv.own⟩
    · intro e hstate
      rw [mem_cons]
      constructor
      · rintro (rfl | he)
        · cases hstate
        · exact he
      · exact .inr
    · intro e he
      rcases mem_cons.1 he with rfl | he
      · simp
      · exact hfind.idle e he
    · intro f' hf' e he heq
      rcases mem_cons.1 he with rfl | he
      · rfl
      · exact hfind.pending f' hf' e he heq
    · intro p hp
      obtain ⟨e, he, rfl⟩ := mem_map.1 hp
      rcases mem_cons.1 he with rfl | he
      · exact .inl hmodule
      · exact hfind.known _ (mem_map.2 ⟨e, he, rfl⟩)

theorem addMissingName_state {host : Host} {P : Nat → Prop} (h : Allowed host j P) (name : CStr) :
    LookupState host P j (addMissingName j name) := by
  unfold addMissingName missCacheAdd
  split
  · exact .refl h
  · split
    · exact .refl h
    · exact ⟨by constructor <;> rfl, h.mono (fun _ => id) rfl rfl rfl⟩

/-- All functions of the module are registered. -/
theorem Registering.fold (funcs : List LrFunc) (hfuncs : ∀ f ∈ funcs, f ∈ definedFuncs m) :
    ∀ {j : LrJit} (_ : Registering env j₀ m j),
    Registering env j₀ m (funcs.foldl (fun j f =>
      if f.name = [] then j else addMissingName (upsertLazyFuncEntry j m f) f.name) j) := by
  induction funcs with
  | nil => exact fun h => h
  | cons f rest ih =>
    intro j h
    rw [foldl_cons]
    refine ih (fun f' hf' => hfuncs f' (by simp [hf'])) ?_
    split
    · exact h
    · next hname =>
      have hupsert := h.upsert (hfuncs f (by simp)) hname
      exact hupsert.of_lookup (addMissingName_state hupsert.inv.allowed f.name)

theorem Idle.register (h : Idle env j) (hregistered : registered j = registered j₀)
    (hknot : NoKnot env (moduleFuncs m ++ registered j₀))
    (hpending : ∀ f ∈ definedFuncs m, ∀ e ∈ j.lazyFuncs, e.name = f.name → e.state = .pending) :
    Idle env (registerLazyModuleFunctions j m) := by
  have hdone : Registering env j₀ m (registerLazyModuleFunctions j m) :=
    Registering.fold (definedFuncs m) (fun f hf => hf)
      ⟨h.inv, h.idle, hpending, fun p hp => .inr (hregistered ▸ hp)⟩
  refine ⟨hdone.inv, hknot.of_subset fun p hp => ?_, hdone.idle⟩
  exact mem_append.2 (hdone.known p hp)

theorem Idle.resolveDeclarations (funcs : List LrFunc) : ∀ {j : LrJit} (_ : Idle env j),
    Idle env (funcs.foldl (fun j f =>
      if f.isDecl ∧ f.name ≠ [] then (lookupSymbol env.host j f.name).1 else j) j) := by
  induction funcs with
  | nil => exact fun h => h
  | cons f rest ih =>
    intro j h
    rw [foldl_cons]
    refine ih ?_
    split
    · exact h.lookup f.name
    · exact h

theorem Idle.addModule (hrelocs : RelocsInCode env) (h : Idle env j)
    (hok : CallOk env j (.addModule m)) :
    ∃ j' ok, lrJitAddModule env true j m = some (j', ok) ∧ Idle env j' := by
  obtain ⟨hknot, hfresh⟩ := hok
  obtain ⟨j₁, ok, hglobals, hidle₁, hregistered₁, hsame⟩ := h.materializeGlobals hrelocs m
  unfold lrJitAddModule
  rw [hglobals]
  simp only [Option.bind_eq_bind, Option.bind_some]
  cases ok with
  | false => exact ⟨j₁, false, rfl, hidle₁⟩
  | true =>
    simp only [Bool.not_true, Bool.false_eq_true, if_false]
    split
    · obtain ⟨j₂, hrun, hidle₂, -⟩ := hidle₁.globalRelocs hrelocs m
      exact ⟨j₂, true, by rw [hrun]; rfl, hidle₂⟩
    · have hpending : ∀ f ∈ definedFuncs m, ∀ e ∈ j₁.lazyFuncs, e.name = f.name →
          e.state = .pending := by
        intro f hf e he hname
        -- a redefinition is only allowed where the globals have done nothing
        have hold : ∃ e₀ ∈ j.lazyFuncs, e₀.name = f.name := by
          have hmem : (e.module, e.func) ∈ registered j := by
            rw [← hregistered₁]
            exact mem_map.2 ⟨e, he, rfl⟩
          obtain ⟨e₀, he₀, heq⟩ := mem_map.1 hmem
          have hfunc : e₀.func = e.func := congrArg Prod.snd heq
          refine ⟨e₀, he₀, ?_⟩
          rw [← (h.inv.own e₀ he₀).1, hfunc, (hidle₁.inv.own e he).1, hname]
        obtain ⟨e₀, he₀, hname₀⟩ := hold
        rw [hsame (hfresh f hf e₀ he₀ hname₀).2] at he
        exact (hfresh f hf e he hname).1
      have hidle₂ := hidle₁.register hregistered₁ hknot hpending
      have hidle₃ := Idle.resolveDeclarations m.funcs hidle₂
      obtain ⟨j₄, hrun, hidle₄, -⟩ := hidle₃.globalRelocs hrelocs m
      refine ⟨j₄, true, ?_, hidle₄⟩
      unfold Source.Jit.resolveDeclarations
      simp only [if_true]
      rw [hrun]
      rfl

theorem Idle.getSymbol (hrelocs : RelocsInCode env) (h : Idle env j) (name : CStr) :
    ∃ j' addr, lrJitGetSymbol env j name = some (j', addr) ∧ Idle env j' := by
  have hlookup := h.lookup name
  unfold lrJitGetSymbol
  split
  · exact ⟨j, 0, rfl, h⟩
  · simp only
    split
    · exact ⟨_, _, rfl, hlookup⟩
    · have hfind := hlookup.find name
      split
      · exact ⟨_, _, rfl, hfind.lookup name⟩
      · split
        · exact ⟨_, _, rfl, hfind.lookup name⟩
        · obtain ⟨j', ok, hrun, hidle⟩ := hfind.materialize hrelocs name
          rw [hrun]
          cases ok with
          | true => exact ⟨_, _, rfl, hidle.lookup name⟩
          | false => exact ⟨_, _, rfl, hidle⟩

/-- A good call between calls leads to a state between calls. -/
theorem Idle.step (hrelocs : RelocsInCode env) (h : Idle env j) {c : JitCall}
    (hok : CallOk env j c) : ∃ j', stepCall env j c = some j' ∧ Idle env j' := by
  cases c with
  | addModule m =>
    obtain ⟨j', ok, hrun, hidle⟩ := h.addModule hrelocs hok
    exact ⟨j', by simp [stepCall, hrun], hidle⟩
  | addSymbol name addr =>
    exact ⟨_, rfl, h.of_lookup ((LookupState.refl h.inv.allowed).addSymbol name hok)⟩
  | getSymbol name =>
    obtain ⟨j', addr, hrun, hidle⟩ := h.getSymbol hrelocs name
    exact ⟨j', by simp [stepCall, hrun], hidle⟩

theorem Idle.run (hrelocs : RelocsInCode env) (calls : List JitCall) :
    ∀ {j : LrJit} (_ : Idle env j) (_ : CallsOk env j calls),
      ∃ j', runCalls env j calls = some j' ∧ Idle env j' := by
  induction calls with
  | nil => exact fun {j} h _ => ⟨j, rfl, h⟩
  | cons c rest ih =>
    intro j h hok
    obtain ⟨j₁, hstep, hidle⟩ := h.step hrelocs hok.1
    obtain ⟨j', hrun, hidle'⟩ := ih hidle (hok.2 j₁ hstep)
    exact ⟨j', by rw [runCalls, hstep]; exact hrun, hidle'⟩

end Steps

/-- A JIT that was just created. -/
theorem idle_create {env : Env} {codeBuf dataBuf : Nat} (h : Buffers env.host codeBuf dataBuf) :
    Idle env (lrJitCreate codeBuf dataBuf) where
  inv := by
    refine ⟨rfl, nodup_nil, by simp [lrJitCreate], Nat.zero_le _,
      by simp [lrJitCreate, codePageSize], by simp [lrJitCreate], List.Pairwise.nil, by simp [lrJitCreate], by simp [lrJitCreate],
      ?_, ?_, ⟨by simp [lrJitCreate], ?_, ?_⟩⟩
    · rintro b ⟨e, he, -⟩
      cases he
    · rintro b ⟨e, he, -⟩
      cases he
    · intro name hne
      exact (h.host name hne).imp id .inl
    · intro a hlo hhi
      have hapart := h.apart
      change dataBuf ≤ a at hlo
      change a < dataBuf + dataPageSize at hhi
      rcases hapart with hbelow | habove
      · exact .inl (show a < codeBuf by omega)
      · exact .inr (.inl (show codeBuf + codePageSize ≤ a by omega))
  knot := by
    refine ⟨fun p hp => ?_, ?_⟩
    · cases hp
    · rintro c a ⟨x, ⟨p, hp, -⟩, -⟩
      cases hp
  idle := by simp [lrJitCreate]

/-- A host without symbols. -/
def emptyHost : Host := ⟨[], ⟨fun _ => 0, fun _ => 0⟩⟩

/-- Sixteen bytes of code with calls of the given symbols. -/
def callsTo (symbols : List CStr) : Compiled :=
  ⟨16, symbols.zipIdx.map fun p => ⟨4 * p.2, lrRelocX8664Pc32, p.1⟩⟩

/-- `a` calls `d` and then `x`, which nothing defines; `d` calls what it is told to. -/
def twoFuncs (calledByD : List CStr) : Env :=
  ⟨emptyHost, fun _ f _ =>
    if f.name = [97] then some (callsTo [[100], [120]])
    else if f.name = [100] then some (callsTo (calledByD.take 1))
    else none⟩

def voidFunc (name : CStr) : LrFunc :=
  { name := name, symbolId := 0, type := .func 0 (.scalar 0 .void) [] false
    retType := .scalar 0 .void, paramTypes := [], vararg := false }

def twoModule : LrModule :=
  { funcs := [voidFunc [97], voidFunc [100]], builtin := lrModuleCreateTypes 0, nextAddr := 11 }

def codeAt : Nat := 0x10000000
def dataAt : Nat := 0x20000000

/-- The module is added and `a` is looked up, which fails. -/
def twoCalls : List JitCall := [.addModule twoModule, .getSymbol [97]]

theorem twoFuncs_relocs (calledByD : List CStr) : RelocsInCode (twoFuncs calledByD) := by
  have hcalls : ∀ symbols : List CStr, symbols.length ≤ 2 →
      ∀ r ∈ (callsTo symbols).relocs, r.offset < (callsTo symbols).codeLen := by
    intro symbols hlen r hr
    obtain ⟨q, hq, rfl⟩ := mem_map.1 hr
    have hlt := (mem_zipIdx' hq).1
    simp only [callsTo]
    omega
  intro m f free c hcompile
  simp only [twoFuncs] at hcompile
  split at hcompile
  · cases hcompile
    exact hcalls _ (by decide)
  · split at hcompile
    · cases hcompile
      exact hcalls _ ((length_take_le _ _).trans (by decide))
    · cases hcompile

theorem emptyHost_resolves (name : CStr) : resolveSymbolFromProviders emptyHost name = 0 := by
  have hlib : resolveSymbolFromLibrary ⟨fun _ => 0, fun _ => 0⟩ (skipMark name) = 0 := by
    unfold resolveSymbolFromLibrary
    simp only
    split <;> simp
  simp [resolveSymbolFromProviders, resolveSymbolFromLoadedLibraries, resolveSymbolFromProcess,
    emptyHost, hlib]

theorem twoFuncs_buffers (calledByD : List CStr) :
    Buffers (twoFuncs calledByD).host codeAt dataAt where
  host := fun name hne => absurd (emptyHost_resolves name) hne
  apart := by decide

/-- The two functions are in the code and `d` is ready. -/
def knottedState : LrJit :=
  { lrJitCreate codeAt dataAt with
    codeSize := 32
    symbols := [⟨[100], codeAt + 16⟩]
    lookupLastEntry := some [100]
    miss := [[95, 120], [120], [95, 100], [95, 97], [100], [97]]
    lazyFuncs := [⟨[100], twoModule, voidFunc [100], 0, .ready⟩,
      ⟨[97], twoModule, voidFunc [97], 0, .pending⟩]
    lookupLastLazyEntry := some [100]
    placed := [⟨[97], 0, 16, [⟨0, 1, lrRelocX8664Pc32⟩, ⟨4, 2, lrRelocX8664Pc32⟩]⟩,
      ⟨[100], 16, 16, [⟨16, 1, lrRelocX8664Pc32⟩]⟩]
    patches := [⟨16, lrRelocX8664Pc32, codeAt, none⟩, ⟨0, lrRelocX8664Pc32, codeAt + 16, none⟩] }

/-- What the two functions refer to when `d` calls nothing. -/
theorem twoFuncs_needs {p : LrModule × LrFunc} {s : CStr} (h : Needs (twoFuncs []) p s) :
    p.2.name = [97] ∧ (s = [100] ∨ s = [120]) := by
  obtain ⟨-, free, c, hcompile, r, hr, rfl⟩ := h
  simp only [twoFuncs] at hcompile
  split at hcompile
  · next hname =>
    cases hcompile
    refine ⟨hname, ?_⟩
    have hall : ∀ r ∈ (callsTo [[100], [120]]).relocs,
        r.symbolName = [100] ∨ r.symbolName = [120] := by decide
    exact hall r hr
  · split at hcompile
    · cases hcompile
      cases hr
    · cases hcompile

theorem twoFuncs_noKnot : NoKnot (twoFuncs []) (moduleFuncs twoModule) := by
  have hregistered : ∀ p ∈ moduleFuncs twoModule,
      (p.2.name = [97] ∨ p.2.name = [100]) ∧ p.1.globals = [] := by decide
  have hdescends : ∀ a b, Descends (twoFuncs []) (moduleFuncs twoModule) a b →
      a = [97] ∧ (b = [100] ∨ b = [120]) := by
    rintro a b ⟨p, hp, rfl, hneeds | htable⟩
    · exact twoFuncs_needs hneeds
    · rw [tableSymbols, (hregistered p hp).2] at htable
      cases htable
  refine ⟨?_, ?_⟩
  · intro p hp s hneeds
    obtain ⟨hname, rfl | rfl⟩ := twoFuncs_needs hneeds <;>
      · rw [hname]
        decide
  · rintro c a ⟨x, ⟨p, hp, rfl, hcalls⟩, hpath⟩ ⟨q, hq, rfl, hbinds⟩
    obtain ⟨-, hx⟩ := twoFuncs_needs hcalls
    -- nothing is materialised for `d` or `x`
    have hend : q.2.name = x := by
      cases Relation.ReflTransGen.cases_head hpath with
      | inl heq => exact heq.symm
      | inr hstep =>
        obtain ⟨y, hxy, -⟩ := hstep
        have hxa := (hdescends x y hxy).1
        rcases hx with rfl | rfl <;> simp at hxa
    rcases hbinds with ⟨s, hneeds, -⟩ | ⟨s, hs, -⟩
    · have hqa := (twoFuncs_needs hneeds).1
      rw [hend] at hqa
      rcases hx with rfl | rfl <;> simp at hqa
    · rw [tableNames, tableSymbols, (hregistered q hq).2] at hs
      cases hs

end Liric.Guarantees.LazyReady
