import Liric.Lib.Runs
import Liric.Source.Session.Direct

/-!
# Runs of a direct session

A run is any sequence of calls: functions are begun, built, suspended, resumed and
ended, symbols and globals are added, names are looked up. What building touches is
the core of a session; compiling and patching touch the rest. In every state a run
leads to, the current block and the table of blocks belong to the current function,
those of a suspended function to it, and nothing is streamed into the target.
-/
namespace Liric.Guarantees.SessionRuns
open Source.Ir Source.Object Source.Session Option List
open Lib (runSteps)

variable {name : CStr} {s' : LrSession} {r : FuncRef} {ms ms' : List LrModule}
  {out : LrSession × Bool}

inductive BuildStep where
  | setBlock (id : Nat)
  | block
  | vreg
  | emit (inst : InstDesc)
  | addPhiCopy (predBlockId : Nat) (copy : PhiCopyDesc)

inductive SessionCall where
  | funcBegin (name : CStr) (ret : Option LrType) (params : List LrType) (vararg : Bool)
  | funcBeginExisting (func : FuncRef)
  | build (step : BuildStep)
  | suspend
  | resume (suspendedIdx : Nat)
  | funcEnd
  | setModule (module : Nat)
  | addSymbol (name : CStr) (addr : Nat)
  | global (name : CStr) (type : Option LrType) (isConst : Bool) (init : List UInt8)
  | globalExtern (name : CStr) (type : Option LrType)
  | globalReloc (id offset : Nat) (sym : CStr)
  | lookup (name : CStr)

def buildStep (s : LrSession) : BuildStep → Option LrSession
  | .setBlock id => (lrSessionSetBlock s id).map fun r => r.1
  | .block => some (lrSessionBlock s).1
  | .vreg => some (lrSessionVreg s).1
  | .emit inst => (lrSessionEmit s inst).map fun r => r.1
  | .addPhiCopy predBlockId copy => (lrSessionAddPhiCopy s predBlockId copy).map fun r => r.1

/-- The state after a call, whatever the call returned. -/
def stepCall (env : SessionEnv) (s : LrSession) : SessionCall → Option LrSession
  | .funcBegin name ret params vararg =>
    (lrSessionFuncBegin env s name ret params vararg).map fun r => r.1
  | .funcBeginExisting r => (lrSessionFuncBeginExisting env s r).map fun r => r.1
  | .build step => buildStep s step
  | .suspend => some (lrSessionSuspendFunc s).1
  | .resume i => some (lrSessionResumeFunc s i).1
  | .funcEnd => (lrSessionFuncEnd env s).map fun r => r.1
  | .setModule module => some (lrSessionSetModule s module).1
  | .addSymbol name addr => some (lrSessionAddSymbol env s name addr)
  | .global name type isConst init => lrSessionGlobal env s name type isConst init
  | .globalExtern name type => lrSessionGlobalExtern env s name type
  | .globalReloc id offset sym => lrSessionGlobalReloc env s id offset sym
  | .lookup name => (lrSessionLookup env s name).map fun r => r.1

def runCalls (env : SessionEnv) : LrSession → List SessionCall → Option LrSession :=
  runSteps (stepCall env)

/-- The fields that building uses, without those of suspended functions that belong
to relocations. -/
structure Core where
  modules : List LrModule
  module : Nat
  objCtxModules : List Nat
  curFunc : Option FuncRef
  curBlock : Option BlockRef
  blocks : List (Option BlockRef)
  blockSeen : List Bool
  blockTerminated : List Bool
  blockCount : Nat
  phiCopies : List SessionPhiCopyEntry
  compileActive : Bool
  compileDeferred : Bool
  emittedCount : Nat
  suspended : List SuspendedCompile

def core (s : LrSession) : Core :=
  { modules := s.modules, module := s.module, objCtxModules := s.objCtxModules
    curFunc := s.curFunc, curBlock := s.curBlock, blocks := s.blocks
    blockSeen := s.blockSeen, blockTerminated := s.blockTerminated
    blockCount := s.blockCount, phiCopies := s.phiCopies
    compileActive := s.compileActive, compileDeferred := s.compileDeferred
    emittedCount := s.emittedCount, suspended := s.suspended }

section Core
variable (env : SessionEnv) (s : LrSession)

theorem core_patchUpTo (relocStart stop : Nat) :
    core (patchDirectRelocsUpTo env s relocStart stop).1 = core s := by
  unfold patchDirectRelocsUpTo
  split
  · rfl
  · simp only
    split <;> rfl

theorem core_patchRange (rr : DirectRelocRange) :
    core (patchDirectRelocRange env s rr).1 = core s := by
  unfold patchDirectRelocRange
  split
  · rfl
  · exact core_patchUpTo env s rr.start rr.stop

theorem core_tryPatch : core (tryPatchPendingDirectRelocs env s) = core s := by
  have hpatch := core_patchUpTo env s s.directPendingRelocStart s.directObjCtx.relocs.length
  unfold tryPatchPendingDirectRelocs patchDirectRelocs
  split
  · rfl
  · split
    · next hrun =>
      rw [hrun] at hpatch
      exact hpatch
    · next hrun =>
      rw [hrun] at hpatch
      exact hpatch

theorem core_patchPending : core (patchPending env s).1 = core s := by
  have hpatch := core_patchUpTo env s s.directPendingRelocStart s.directObjCtx.relocs.length
  unfold patchPending patchDirectRelocs
  split
  · rfl
  · split
    all_goals
      next hrun =>
        rw [hrun] at hpatch
        exact hpatch

theorem core_patchOwnRanges (ranges : List DirectRelocRange) : ∀ s : LrSession,
    core (patchOwnRanges env s ranges).1 = core s := by
  induction ranges with
  | nil => exact fun s => rfl
  | cons rr rest ih =>
    intro s
    have hpatch := core_patchRange env s rr
    unfold patchOwnRanges
    split
    all_goals
      next hrun =>
        rw [hrun] at hpatch
        first
        | exact (ih _).trans hpatch
        | exact hpatch

theorem core_appendRange (start stop : Nat) :
    core (appendDirectRelocRange s start stop) = core s := by
  unfold appendDirectRelocRange
  split <;> rfl

theorem core_closeRange : core (closeActiveDirectRelocRange s) = core s := by
  unfold closeActiveDirectRelocRange
  split
  · rfl
  · exact core_appendRange s s.directRelocActiveStart _

theorem core_captureBlob {code : List UInt8} (h : captureBlob s name code = some s') :
    core s' = core s := by
  unfold captureBlob at h
  obtain ⟨relocs, -, h⟩ := bind_eq_some_iff.1 h
  cases h
  rfl

/-- Finishing a placed function marks it as compiled or leaves the core alone. -/
theorem core_finishPlaced (r : FuncRef) (name : CStr) (code : List UInt8) :
    core (finishPlaced env s r name code).1 = core s ∨
      core (finishPlaced env s r name code).1 = core (markDecl s r) := by
  unfold finishPlaced
  simp only
  split
  · exact .inl rfl
  · split
    · refine .inl ?_
      split <;> rfl
    · next s₁ hcapture =>
      have hcore₁ : core s₁ = core s := by
        rw [core_captureBlob _ hcapture]
        split <;> rfl
      have hpatch := core_patchOwnRanges env
        (placeCode (rebaseOwnRelocs s₁ (Lib.padUp s.jit.codeSize 16)) name
          (Lib.padUp s.jit.codeSize 16) code.length).directRelocRanges
        (placeCode (rebaseOwnRelocs s₁ (Lib.padUp s.jit.codeSize 16)) name
          (Lib.padUp s.jit.codeSize 16) code.length)
      split
      · next hrun =>
        rw [hrun] at hpatch
        exact .inl (hpatch.trans hcore₁)
      · next s₂ hrun =>
        rw [hrun] at hpatch
        have hcore₂ : core s₂ = core s := hpatch.trans hcore₁
        refine .inr ?_
        rw [core_patchPending]
        have hmodules : s₂.modules = s.modules := congrArg Core.modules hcore₂
        have hrest := hcore₂
        simp only [core, Core.mk.injEq] at hrest ⊢
        simp only [markDecl, updateFuncRef, updateModule, hmodules]
        exact ⟨trivial, hrest.2⟩

theorem core_leave (b : Bool) : core (leaveCompile s b) = core (clearObjCtx s) := by
  unfold leaveCompile
  simp only
  split <;> rfl

theorem core_addSymbol (name : CStr) (addr : Nat) :
    core (lrSessionAddSymbol env s name addr) = core s := by
  unfold lrSessionAddSymbol
  split
  · rfl
  · rw [core_tryPatch]
    rfl

theorem core_globalsChanged (h : globalsChanged env s = some s') : core s' = core s := by
  unfold globalsChanged at h
  split at h
  · cases h
    rfl
  · obtain ⟨⟨j, ok⟩, -, h⟩ := bind_eq_some_iff.1 h
    cases h
    split
    · rw [core_tryPatch]
      rfl
    · rfl

theorem core_ensureReady {r : LrSession × Bool}
    (h : ensureRuntimeAndGlobalsReady env s = some r) : core r.1 = core s := by
  unfold ensureRuntimeAndGlobalsReady at h
  split at h
  · cases h
    rfl
  · split at h
    · cases h
      rfl
    · obtain ⟨⟨j, ok⟩, -, h⟩ := bind_eq_some_iff.1 h
      cases h
      rfl

theorem core_lookup {r : LrSession × Nat} (h : lrSessionLookup env s name = some r) :
    core r.1 = core s := by
  unfold lrSessionLookup at h
  split at h
  · cases h
    rfl
  · obtain ⟨⟨s₁, ok⟩, hready, h⟩ := bind_eq_some_iff.1 h
    have hcore₁ : core s₁ = core s := core_ensureReady env s hready
    have hpatch : core (if (s₁.directPendingRelocs && s₁.directObjCtxActive) = true then
        (patchPending env s₁).1 else s₁) = core s := by
      split
      · exact (core_patchPending env s₁).trans hcore₁
      · exact hcore₁
    cases ok with
    | false =>
      cases h
      exact hcore₁
    | true =>
      simp only [Bool.not_true, Bool.false_eq_true, if_false] at h
      generalize (if (s₁.directPendingRelocs && s₁.directObjCtxActive) = true then
        (patchPending env s₁).1 else s₁) = s₂ at hpatch h
      split at h
      · cases h
        exact hpatch
      · obtain ⟨⟨j, addr⟩, -, h⟩ := bind_eq_some_iff.1 h
        cases h
        exact hpatch

end Core

def moduleTypes (modules : List LrModule) (i : Nat) : Option BuiltinTypes :=
  (modules[i]?).map fun m => m.builtin

/-- The functions that were there are still the same, and so are the types. -/
structure Extends (ms ms' : List LrModule) : Prop where
  funcs : ∀ r f, findFunc ms r = some f → findFunc ms' r = some f
  types : ∀ i, moduleTypes ms' i = moduleTypes ms i

theorem Extends.refl (ms : List LrModule) : Extends ms ms := ⟨fun _ _ => id, fun _ => rfl⟩

theorem Extends.func_eq (h : Extends ms ms') (hexist : (findFunc ms r).isSome) :
    findFunc ms' r = findFunc ms r := by
  obtain ⟨f, hf⟩ := isSome_iff_exists.1 hexist
  rw [hf, h.funcs r f hf]

theorem Extends.isSome (h : Extends ms ms') (hexist : (findFunc ms r).isSome) :
    (findFunc ms' r).isSome := by
  rw [h.func_eq hexist]
  exact hexist

theorem findFunc_modify (modules : List LrModule) (i : Nat) (r : FuncRef)
    (change : LrModule → LrModule) :
    findFunc (modules.modify i change) r =
      if i = r.module then ((modules[r.module]?).map change).bind fun m => m.funcs[r.func]?
      else findFunc modules r := by
  unfold findFunc
  rw [getElem?_modify]
  split
  · rfl
  · simp

theorem moduleTypes_modify (modules : List LrModule) (i k : Nat) (change : LrModule → LrModule)
    (hbuiltin : ∀ m, (change m).builtin = m.builtin) :
    moduleTypes (modules.modify i change) k = moduleTypes modules k := by
  unfold moduleTypes
  rw [getElem?_modify]
  cases modules[k]? with
  | none => rfl
  | some m =>
    split
    · simp [hbuiltin]
    · rfl

variable {change : LrModule → LrModule}

/-- A change of a module that keeps its functions and its types. -/
theorem extends_modify (modules : List LrModule) (i : Nat)
    (hfuncs : ∀ m, (change m).funcs = m.funcs) (hbuiltin : ∀ m, (change m).builtin = m.builtin) :
    Extends modules (modules.modify i change) where
  funcs := by
    intro r f hf
    rw [findFunc_modify]
    split
    · unfold findFunc at hf
      cases hm : modules[r.module]? with
      | none =>
        rw [hm] at hf
        cases hf
      | some m =>
        rw [hm] at hf
        simpa [hfuncs] using hf
    · exact hf
  types := fun k => moduleTypes_modify modules i k change hbuiltin

variable {params : List LrType}

/-- A function is added to a module. -/
theorem extends_create {modules : List LrModule} {i : Nat} {m m' : LrModule} {f : LrFunc}
    {ret : LrType} {vararg : Bool} (hm : modules[i]? = some m)
    (h : lrFuncCreate m name ret params vararg = some (m', f)) :
    Extends modules (modules.set i m') ∧ findFunc modules ⟨i, m.funcs.length⟩ = none ∧
      findFunc (modules.set i m') ⟨i, m.funcs.length⟩ = some f := by
  obtain ⟨⟨symbols, symbolId⟩, -, h⟩ := bind_eq_some_iff.1 h
  cases h
  have hi : i < modules.length := (List.getElem?_eq_some_iff.1 hm).1
  refine ⟨⟨?_, ?_⟩, ?_, ?_⟩
  · intro r g hg
    unfold findFunc at hg ⊢
    rw [getElem?_set]
    split
    · next hmodule =>
      subst hmodule
      rw [hm] at hg
      simp only [bind_some] at hg ⊢
      rw [List.getElem?_append_left (List.getElem?_eq_some_iff.1 hg).1]
      exact hg
    · exact hg
  · intro k
    unfold moduleTypes
    rw [getElem?_set]
    split
    · next hmodule =>
      subst hmodule
      rw [hm]
      rfl
    · rfl
  · unfold findFunc
    simp [hm]
  · unfold findFunc
    simp [hi]

/-- A call that builds nothing and leaves the suspended functions alone. -/
structure Aside (s s' : LrSession) : Prop where
  modules : Extends s.modules s'.modules
  suspended : s'.suspended = s.suspended
  curFunc : s'.curFunc = s.curFunc
  building : s.curFunc ≠ none → ∃ ms, core s' = { core s with modules := ms }

/-- `r` becomes the current function and is not streamed. -/
structure Begins (r : FuncRef) (s s' : LrSession) : Prop where
  idle : s.curFunc = none
  modules : Extends s.modules s'.modules
  suspended : s'.suspended = s.suspended
  curFunc : s'.curFunc = some r
  module : s'.module = r.module
  exist : (findFunc s'.modules r).isSome
  active : s'.compileActive = true
  deferred : s'.compileDeferred = true
  objCtx : s'.module ∈ s'.objCtxModules
  curBlock : s'.curBlock = none
  blockCount : s'.blockCount = 0

/-- The current function ended: it may have been marked as compiled. -/
structure Ends (r : FuncRef) (s s' : LrSession) : Prop where
  modules : s'.modules = s.modules ∨ s'.modules = (markDecl s r).modules
  suspended : s'.suspended = s.suspended
  module : s'.module = s.module
  curFunc : s'.curFunc = none

section Calls
variable (env : SessionEnv) (s : LrSession)

theorem aside_of_core {s : LrSession} (h : core s' = core s) : Aside s s' where
  modules := by
    have hmodules : s'.modules = s.modules := congrArg Core.modules h
    rw [hmodules]
    exact .refl s.modules
  suspended := congrArg Core.suspended h
  curFunc := congrArg Core.curFunc h
  building := fun _ => ⟨s.modules, h⟩

theorem aside_of_modify {s : LrSession}
    (h : core s' = core (updateModule s s.module change)) (hfuncs : ∀ m, (change m).funcs = m.funcs)
    (hbuiltin : ∀ m, (change m).builtin = m.builtin) : Aside s s' where
  modules := by
    have hmodules : s'.modules = s.modules.modify s.module change := congrArg Core.modules h
    rw [hmodules]
    exact extends_modify s.modules s.module hfuncs hbuiltin
  suspended := congrArg Core.suspended h
  curFunc := congrArg Core.curFunc h
  building := fun _ => ⟨_, h⟩

theorem setInit_funcs (init : List UInt8) (m : LrModule) :
    (setInit init m).funcs = m.funcs ∧ (setInit init m).builtin = m.builtin := by
  unfold setInit
  split
  · exact ⟨rfl, rfl⟩
  · exact ⟨rfl, rfl⟩

variable {type : Option LrType}

theorem aside_global {isConst : Bool} {init : List UInt8}
    (h : lrSessionGlobal env s name type isConst init = some s') :
    Aside s s' :=
  aside_of_modify (core_globalsChanged env _ h) (fun _ => (setInit_funcs init _).1)
    fun _ => (setInit_funcs init _).2

theorem aside_globalExtern (h : lrSessionGlobalExtern env s name type = some s') : Aside s s' :=
  aside_of_modify (core_globalsChanged env _ h) (fun _ => rfl) fun _ => rfl

theorem aside_globalReloc {id offset : Nat} {sym : CStr}
    (h : lrSessionGlobalReloc env s id offset sym = some s') : Aside s s' := by
  unfold lrSessionGlobalReloc at h
  split at h
  · cases h
    exact aside_of_core rfl
  · exact aside_of_modify (core_globalsChanged env _ h) (fun _ => rfl) fun _ => rfl

theorem aside_setModule (module : Nat) : Aside s (lrSessionSetModule s module).1 := by
  unfold lrSessionSetModule
  split
  · exact aside_of_core rfl
  · split
    · exact aside_of_core rfl
    · next hidle =>
      have hcur : s.curFunc = none := by
        cases hcur : s.curFunc with
        | none => rfl
        | some r => simp [hcur] at hidle
      exact ⟨.refl s.modules, rfl, rfl, fun hne => absurd hcur hne⟩

theorem findFunc_markDecl (q r : FuncRef) :
    findFunc (markDecl s q).modules r =
      if q = r then (findFunc s.modules r).map fun f => { f with isDecl := true }
      else findFunc s.modules r := by
  unfold markDecl updateFuncRef updateModule
  simp only
  rw [findFunc_modify]
  unfold findFunc
  split
  · next hmodule =>
    cases hm : s.modules[r.module]? with
    | none => simp
    | some m =>
      simp only [map_some, bind_some, updateFunc, getElem?_modify]
      by_cases hfunc : q.func = r.func
      · have heq : q = r := by
          cases q
          cases r
          simp_all
        simp [heq]
      · have hne : q ≠ r := fun heq => hfunc (congrArg FuncRef.func heq)
        simp [hfunc, hne]
  · next hmodule =>
    have hne : q ≠ r := fun heq => hmodule (congrArg FuncRef.module heq)
    rw [if_neg hne]

theorem moduleTypes_markDecl (q : FuncRef) (i : Nat) :
    moduleTypes (markDecl s q).modules i = moduleTypes s.modules i :=
  moduleTypes_modify s.modules q.module i _ fun _ => rfl

/-- What a failed beginning leaves. -/
theorem core_finish :
    core (finishFunctionState s) =
      { core s with
        objCtxModules := s.objCtxModules.filter (· ≠ s.module)
        curFunc := none, curBlock := none
        blockSeen := replicate (min s.blockCount s.blockSeen.length) false ++
          s.blockSeen.drop s.blockCount
        blockTerminated := replicate (min s.blockCount s.blockTerminated.length) false ++
          s.blockTerminated.drop s.blockCount
        blockCount := 0, phiCopies := [], compileActive := false, compileDeferred := false
        emittedCount := 0 } := by
  unfold finishFunctionState
  simp only
  split <;> rfl

def coreSet (c : Core) : Core :=
  { c with objCtxModules := c.module :: c.objCtxModules.filter (· ≠ c.module) }

def coreClear (c : Core) : Core :=
  { c with objCtxModules := c.objCtxModules.filter (· ≠ c.module) }

theorem core_initDirectObjCtx : core (initDirectObjCtx s) = core s := by
  unfold initDirectObjCtx
  split <;> rfl

/-- With room for code the current function begins to compile. -/
theorem core_beginDirectCompile (hcur : s.curFunc = some r) :
    (beginDirectCompile s).2 = true ∧ core (beginDirectCompile s).1 =
        { core (setObjCtx s) with compileActive := true, compileDeferred := true } ∨
      (beginDirectCompile s).2 = false ∧
        core (beginDirectCompile s).1 = core (clearObjCtx (setObjCtx s)) := by
  have hinit : core (initDirectObjCtx s) = core s := core_initDirectObjCtx s
  have hset : core (setObjCtx (initDirectObjCtx s)) = core (setObjCtx s) := congrArg coreSet hinit
  have hclear : core (clearObjCtx (setObjCtx (initDirectObjCtx s))) =
      core (clearObjCtx (setObjCtx s)) := congrArg (fun c => coreClear (coreSet c)) hinit
  unfold beginDirectCompile
  simp only [hcur]
  split
  · exact .inr ⟨rfl, hclear⟩
  · refine .inl ⟨rfl, ?_⟩
    rw [← hset]
    split <;> split <;> rfl

variable {onError : LrSession → LrSession}

/-- The reset is followed by a compilation that begins, or by its end. -/
theorem startCompile_cases (hcur : s.curFunc = some r) (h : startCompile env s onError = some out) :
    core out.1 = { core (setObjCtx s) with compileActive := true, compileDeferred := true } ∨
      ∃ s₁, (core s₁ = core s ∨ core s₁ = core (clearObjCtx (setObjCtx s))) ∧
        out.1 = finishFunctionState (onError s₁) := by
  obtain ⟨⟨s₁, ok⟩, hready, h⟩ := bind_eq_some_iff.1 h
  have hcore₁ : core s₁ = core s := core_ensureReady env s hready
  cases ok with
  | false =>
    cases h
    exact .inr ⟨s₁, .inl hcore₁, rfl⟩
  | true =>
    have hcur₁ : s₁.curFunc = some r := (congrArg Core.curFunc hcore₁).trans hcur
    have hset : core (setObjCtx s₁) = core (setObjCtx s) := congrArg coreSet hcore₁
    have hclear : core (clearObjCtx (setObjCtx s₁)) = core (clearObjCtx (setObjCtx s)) :=
      congrArg (fun c => coreClear (coreSet c)) hcore₁
    simp only [Bool.not_true, Bool.false_eq_true, if_false] at h
    obtain ⟨hok, hcore⟩ | ⟨hok, hcore⟩ := core_beginDirectCompile s₁ hcur₁
    · rw [if_pos hok] at h
      cases h
      exact .inl (hset ▸ hcore)
    · rw [if_neg (by simp [hok])] at h
      cases h
      exact .inr ⟨_, .inr (hcore.trans hclear), rfl⟩

/-- A failed beginning leaves the functions that were there. -/
theorem aside_finish {s s₂ : LrSession} (s₁ : LrSession)
    (r : FuncRef) (hidle : s.curFunc = none) (hmodules : Extends s.modules s₁.modules)
    (hsuspended : s₁.suspended = s.suspended)
    (hnew : onError = (fun s => markDecl s r) ∧ findFunc s.modules r = none ∨ onError = id)
    (hcore : core s₂ = core s₁ ∨ core s₂ = core (clearObjCtx (setObjCtx s₁)))
    (h : s' = finishFunctionState (onError s₂)) : Aside s s' := by
  have hmodules₂ : s₂.modules = s₁.modules := by
    obtain hcore | hcore := hcore <;> exact congrArg Core.modules hcore
  have hsuspended₂ : s₂.suspended = s₁.suspended := by
    obtain hcore | hcore := hcore <;> exact congrArg Core.suspended hcore
  have hfinish := core_finish (onError s₂)
  rw [← h] at hfinish
  have hfinishModules : s'.modules = (onError s₂).modules := congrArg Core.modules hfinish
  have hfinishSuspended : s'.suspended = (onError s₂).suspended := congrArg Core.suspended hfinish
  have hcur : s'.curFunc = none := congrArg Core.curFunc hfinish
  obtain ⟨rfl, hnone⟩ | rfl := hnew
  · refine ⟨⟨?_, ?_⟩, ?_, hcur.trans hidle.symm, fun hne => absurd hidle hne⟩
    · intro q f hf
      have hq : r ≠ q := by
        rintro rfl
        rw [hnone] at hf
        cases hf
      rw [hfinishModules, findFunc_markDecl, if_neg hq, hmodules₂]
      exact hmodules.funcs q f hf
    · intro i
      rw [hfinishModules, moduleTypes_markDecl, hmodules₂]
      exact hmodules.types i
    · exact hfinishSuspended.trans (hsuspended₂.trans hsuspended)
  · refine ⟨?_, ?_, hcur.trans hidle.symm, fun hne => absurd hidle hne⟩
    · rw [hfinishModules]
      exact hmodules₂ ▸ hmodules
    · exact hfinishSuspended.trans (hsuspended₂.trans hsuspended)

/-- A function that begins is where the compilation starts. -/
theorem begins_of_core {s : LrSession} (s₁ : LrSession) (hidle : s.curFunc = none)
    (hmodules : Extends s.modules s₁.modules) (hsuspended : s₁.suspended = s.suspended)
    (hmodule : s₁.module = r.module) (hexist : (findFunc s₁.modules r).isSome)
    (h : core s' = { core (setObjCtx (resetBuild s₁ r)) with
      compileActive := true, compileDeferred := true }) : Begins r s s' := by
  have hmodules' : s'.modules = s₁.modules := congrArg Core.modules h
  have hmodule' : s'.module = s₁.module := congrArg Core.module h
  have hobj : s'.objCtxModules = s₁.module :: s₁.objCtxModules.filter (· ≠ s₁.module) :=
    congrArg Core.objCtxModules h
  refine
    { idle := hidle
      modules := hmodules' ▸ hmodules
      suspended := (congrArg Core.suspended h).trans hsuspended
      curFunc := congrArg Core.curFunc h
      module := hmodule'.trans hmodule
      exist := by rw [hmodules']; exact hexist
      active := congrArg Core.compileActive h
      deferred := congrArg Core.compileDeferred h
      objCtx := ?_
      curBlock := congrArg Core.curBlock h
      blockCount := congrArg Core.blockCount h }
  rw [hobj, hmodule']
  exact mem_cons_self

/-- A new function begins, or nothing that was there changes. -/
theorem funcBegin_cases {ret : Option LrType} {vararg : Bool}
    (h : lrSessionFuncBegin env s name ret params vararg = some out) :
    Aside s out.1 ∨ ∃ r, findFunc s.modules r = none ∧ Begins r s out.1 := by
  unfold lrSessionFuncBegin at h
  split at h
  · cases h
    exact .inl (aside_of_core rfl)
  · split at h
    · cases h
      exact .inl (aside_of_core rfl)
    · next hcur =>
      have hidle : s.curFunc = none := by simpa using hcur
      split at h
      · cases h
        exact .inl (aside_of_core rfl)
      · next m hm =>
        obtain ⟨⟨m', f⟩, hcreate, h⟩ := bind_eq_some_iff.1 h
        obtain ⟨hext, hnew, hexist⟩ := extends_create hm hcreate
        obtain hcore | ⟨s₁, hcore, hout⟩ := startCompile_cases env _ rfl h
        · refine .inr ⟨⟨s.module, m.funcs.length⟩, hnew, ?_⟩
          exact begins_of_core { s with modules := s.modules.set s.module m' } hidle hext rfl
            rfl (by rw [hexist]; rfl) hcore
        · exact .inl (aside_finish
            (resetBuild { s with modules := s.modules.set s.module m' }
              ⟨s.module, m.funcs.length⟩)
            ⟨s.module, m.funcs.length⟩ hidle hext rfl (.inl ⟨rfl, hnew⟩) hcore hout)

theorem funcBeginExisting_cases (h : lrSessionFuncBeginExisting env s r = some out) :
    Aside s out.1 ∨ Begins r s out.1 := by
  unfold lrSessionFuncBeginExisting at h
  split at h
  · cases h
    exact .inl (aside_of_core rfl)
  · next f hf =>
    split at h
    · cases h
      exact .inl (aside_of_core rfl)
    · next hcur =>
      have hidle : s.curFunc = none := by simpa using hcur
      obtain hcore | ⟨s₁, hcore, hout⟩ := startCompile_cases env _ rfl h
      · exact .inr (begins_of_core { s with module := r.module } hidle (.refl s.modules)
          rfl rfl (by rw [hf]; rfl) hcore)
      · exact .inl (aside_finish (resetBuild { s with module := r.module } r) r hidle
          (.refl s.modules) rfl (.inr rfl) hcore hout)

/-- Compiling a function may mark it as compiled, and builds nothing. -/
theorem core_finishDirectCompile (hcur : s.curFunc = some r) :
    ∃ ms objs active deferred, (ms = s.modules ∨ ms = (markDecl s r).modules) ∧
      core (finishDirectCompile env s).1 = { core s with
        modules := ms, objCtxModules := objs, compileActive := active
        compileDeferred := deferred } := by
  let cleared := s.objCtxModules.filter (· ≠ s.module)
  unfold finishDirectCompile
  simp only [hcur]
  split
  · next m f hm hf =>
    generalize hopened : (if s.updateActive = true then s
      else { s with curFunc := some r, updateActive := true, compileOpenedUpdate := true }) = s₁
    have hcore₁ : core s₁ = core s := by
      rw [← hopened]
      split
      · rfl
      · simp only [core, hcur]
    split
    · exact ⟨s.modules, cleared, s.compileActive, s.compileDeferred, .inl rfl,
        (core_leave _ _).trans (congrArg coreClear hcore₁)⟩
    · next code hcode =>
      generalize hclosed : closeActiveDirectRelocRange _ = s₂
      have hcore₂ : core s₂ =
          { core s with compileDeferred := false, compileActive := false } := by
        rw [← hclosed, core_closeRange, ← hcore₁]
        rfl
      obtain hplaced | hplaced := core_finishPlaced env s₂ r f.name code
      · exact ⟨s.modules, cleared, false, false, .inl rfl,
          (core_leave _ _).trans (congrArg coreClear (hplaced.trans hcore₂))⟩
      · have hmodules₂ : s₂.modules = s.modules := congrArg Core.modules hcore₂
        have hmarked : (markDecl s₂ r).modules = (markDecl s r).modules := by
          simp only [markDecl, updateFuncRef, updateModule, hmodules₂]
        have hcoreMarked : core (markDecl s₂ r) =
            { core s₂ with modules := (markDecl s r).modules } := by
          rw [← hmarked]
          rfl
        rw [hcore₂] at hcoreMarked
        exact ⟨(markDecl s r).modules, cleared, false, false, .inr rfl,
          (core_leave _ _).trans (congrArg coreClear (hplaced.trans hcoreMarked))⟩
  · exact ⟨s.modules, s.objCtxModules, s.compileActive, s.compileDeferred, .inl rfl, by
      simp only [core, hcur]⟩

/-- The end of a function whose blocks are terminated. -/
theorem ends_of_validated (hcur : s.curFunc = some r) :
    Ends r s (finishFunctionState (finishDirectCompile env s).1) := by
  obtain ⟨ms, objs, active, deferred, hms, hcore⟩ := core_finishDirectCompile env s hcur
  have hmodules : (finishDirectCompile env s).1.modules = ms := congrArg Core.modules hcore
  have hsuspended := congrArg Core.suspended hcore
  have hmodule := congrArg Core.module hcore
  have hfinish := core_finish (finishDirectCompile env s).1
  have hfinishModules := congrArg Core.modules hfinish
  refine ⟨?_, (congrArg Core.suspended hfinish).trans hsuspended,
    (congrArg Core.module hfinish).trans hmodule, congrArg Core.curFunc hfinish⟩
  obtain rfl | rfl := hms
  · exact .inl (hfinishModules.trans hmodules)
  · exact .inr (hfinishModules.trans hmodules)

theorem Ends.isSome {q : FuncRef} {s : LrSession} (h : Ends q s s')
    (hexist : (findFunc s.modules r).isSome) : (findFunc s'.modules r).isSome := by
  obtain hmodules | hmodules := h.modules
  · rw [hmodules]
    exact hexist
  · rw [hmodules, findFunc_markDecl]
    split
    · rw [isSome_map]
      exact hexist
    · exact hexist

end Calls

end Liric.Guarantees.SessionRuns
