import Liric.Guarantees.SessionBuilding

/-!
# Interleaved functions

Functions of one session are built by turns: a function is suspended, another one is
resumed. Whatever the order, a step of a function does what it does when its steps are
alone, if the function is resumed while its own module is the module of the session.
Otherwise the types that an instruction takes by default are those of another module.
-/
namespace Liric.Guarantees.SessionInterleaving
open Source.Ir Source.Object Source.Session SessionRuns SessionBuilding List Option
open Lib (runSteps runSteps_concat runSteps_invariant runSteps_own Along ownSteps)
open Source.Jit (LrJit)

variable {q : FuncRef} {slot : SuspendedCompile}

/-- The current function and the suspended ones. -/
def building (s : LrSession) : List FuncRef :=
  s.curFunc.toList ++ s.suspended.map fun slot => slot.func

/-- Every function that is being built exists, is not streamed, and has its own blocks. -/
structure Separate (s : LrSession) : Prop where
  cur : ∀ r, s.curFunc = some r → Here (OwnedBy r) r s
  slot : ∀ slot ∈ s.suspended, slot.compileActive = true ∧ slot.compileDeferred = true ∧
    OwnedBy slot.func (saved slot)
  exist : ∀ r ∈ building s, (findFunc s.modules r).isSome

/-- What a step that is not `r`'s own keeps of `r`. -/
structure Keeps (r : FuncRef) (s s' : LrSession) : Prop where
  func : findFunc s'.modules r = findFunc s.modules r
  types : moduleTypes s'.modules r.module = moduleTypes s.modules r.module
  state : stateOf s' r = stateOf s r
  count : (building s').count r = (building s).count r
  here : (s.curFunc = some r → s.module = r.module) → s'.curFunc = some r → s'.module = r.module

section Slots
variable {r : FuncRef} {s s' : LrSession}

/-- Taking a slot out of the list. -/
theorem exists_slot {α : Type} {xs : List α} {i : Nat} {x : α} (h : xs[i]? = some x) :
    ∃ pre post, xs = pre ++ x :: post ∧ xs.eraseIdx i = pre ++ post := by
  obtain ⟨hi, hx⟩ := List.getElem?_eq_some_iff.1 h
  refine ⟨xs.take i, xs.drop (i + 1), ?_, eraseIdx_eq_take_drop_succ xs i⟩
  rw [← hx, cons_getElem_drop_succ, take_append_drop]

theorem stateOf_of_ne (h : s.curFunc ≠ some r) :
    stateOf s r = (s.suspended.find? fun slot => slot.func = r).map saved := by
  rw [stateOf, if_neg h]

theorem stateOf_cur (h : s.curFunc = some r) : stateOf s r = some (current s) := by
  rw [stateOf, if_pos h]

/-- A step of another function. -/
theorem keeps_of_same (hfunc : findFunc s'.modules r = findFunc s.modules r)
    (htypes : moduleTypes s'.modules r.module = moduleTypes s.modules r.module)
    (hsuspended : s'.suspended = s.suspended) (hcur : s.curFunc ≠ some r)
    (hcur' : s'.curFunc ≠ some r) : Keeps r s s' where
  func := hfunc
  types := htypes
  state := by rw [stateOf_of_ne hcur, stateOf_of_ne hcur', hsuspended]
  count := by
    have hcount : ∀ o : Option FuncRef, o ≠ some r → o.toList.count r = 0 := by
      rintro (_ | q) hq
      · rfl
      · exact count_eq_zero.2 (by simpa using fun h => hq (by rw [h]))
    rw [building, building, hsuspended, count_append, count_append, hcount _ hcur, hcount _ hcur']
  here := fun _ h => absurd h hcur'

theorem keeps_of_aside (hexist : (findFunc s.modules r).isSome) (h : Aside s s') :
    Keeps r s s' := by
  by_cases hcur : s.curFunc = some r
  · obtain ⟨ms, hcore⟩ := h.building (by rw [hcur]; exact some_ne_none r)
    have hcurrent : current s' = current s := by
      exact congrArg (fun c : Core => (⟨c.curBlock, c.blocks, c.blockSeen, c.blockTerminated,
        c.blockCount, c.phiCopies, c.emittedCount⟩ : BuildState)) hcore
    exact
      { func := h.modules.func_eq hexist
        types := h.modules.types r.module
        state := by rw [stateOf_cur hcur, stateOf_cur (h.curFunc.trans hcur), hcurrent]
        count := by rw [building, building, h.curFunc, h.suspended]
        here := fun hmodule _ => (congrArg Core.module hcore).trans (hmodule hcur) }
  · exact keeps_of_same (h.modules.func_eq hexist) (h.modules.types r.module) h.suspended
      hcur (by rw [h.curFunc]; exact hcur)

/-- Without a current function there is nothing to build. -/
theorem buildStep_idle (h : s.curFunc = none) (step : BuildStep) : buildStep s step = some s := by
  cases step with
  | setBlock id => simp only [buildStep, lrSessionSetBlock, h, map_some]
  | block => simp only [buildStep, lrSessionBlock, h]
  | vreg => simp only [buildStep, lrSessionVreg, h]
  | emit inst => simp only [buildStep, lrSessionEmit, h, map_some]
  | addPhiCopy predBlockId copy =>
    simp only [buildStep, lrSessionAddPhiCopy, h, map_some]

theorem touches_buildStep (hs : Here (OwnedBy q) q s) {step : BuildStep}
    (h : buildStep s step = some s') : Touches (OwnedBy q) q s s' := by
  obtain ⟨s₁, a, heq, htouch⟩ := (local_buildStep step).touches s hs
  rw [h] at heq
  cases heq
  exact htouch

theorem touches_validate (hs : Here (OwnedBy q) q s) :
    Touches (fun _ => True) q s (validateBlockTermination s).1 := by
  obtain ⟨s₁, a, heq, htouch⟩ := local_validate.touches s (hs.weaken fun _ => trivial)
  rw [Option.some.inj heq]
  exact htouch

/-- The call that ends a function: it stays as it is, or its blocks are terminated. -/
theorem funcEnd_cases (env : SessionEnv) (hs : Here (OwnedBy q) q s)
    (h : (lrSessionFuncEnd env s).map (fun p => p.1) = some s') :
    (validateBlockTermination s).2 = false ∧ s' = s ∨
      (validateBlockTermination s).2 = true ∧ Ends q (validateBlockTermination s).1 s' := by
  have hvalid : Here (fun _ => True) q (validateBlockTermination s).1 :=
    (hs.weaken fun _ => trivial).touches (touches_validate hs)
  cases hok : (validateBlockTermination s).2 with
  | false =>
    have hsame := validate_failed hok
    simp only [lrSessionFuncEnd, hs.curFunc, hok, hsame] at h
    cases h
    exact .inl ⟨rfl, rfl⟩
  | true =>
    simp only [lrSessionFuncEnd, hs.curFunc, hok, hvalid.active] at h
    cases h
    exact .inr ⟨rfl, ends_of_validated env _ hvalid.curFunc⟩

/-- The current function moves to a new slot. -/
structure Suspends (q : FuncRef) (slot : SuspendedCompile) (s s' : LrSession) : Prop where
  cur : s.curFunc = some q
  func : slot.func = q
  state : saved slot = current s
  active : slot.compileActive = s.compileActive
  deferred : slot.compileDeferred = s.compileDeferred
  suspended : s'.suspended = s.suspended ++ [slot]
  curFunc : s'.curFunc = none
  modules : s'.modules = s.modules

theorem suspend_cases (s : LrSession) :
    (lrSessionSuspendFunc s).1 = s ∨ ∃ q slot, Suspends q slot s (lrSessionSuspendFunc s).1 := by
  unfold lrSessionSuspendFunc
  split
  · exact .inl rfl
  · next q hcur =>
    split
    · exact .inl rfl
    · have hclose := core_closeRange s
      generalize closeActiveDirectRelocRange s = s₁ at hclose
      have hstate : current s₁ = current s :=
        congrArg (fun c : Core => (⟨c.curBlock, c.blocks, c.blockSeen, c.blockTerminated,
          c.blockCount, c.phiCopies, c.emittedCount⟩ : BuildState)) hclose
      have hslots : s₁.suspended = s.suspended := congrArg Core.suspended hclose
      refine .inr ⟨q,
        { func := q
          curBlock := s₁.curBlock
          blocks := s₁.blocks
          blockSeen := s₁.blockSeen
          blockTerminated := s₁.blockTerminated
          blockCount := s₁.blockCount
          phiCopies := s₁.phiCopies
          directRelocBase := s₁.directRelocBase
          directRelocRanges := s₁.directRelocRanges
          compileActive := s₁.compileActive
          compileDeferred := s₁.compileDeferred
          compileOpenedUpdate := s₁.compileOpenedUpdate
          emittedCount := s₁.emittedCount
          funcBufCap := s₁.funcCompileBufCap }, ?_⟩
      have hmodules : s₁.modules = s.modules := congrArg Core.modules hclose
      refine
        { cur := hcur
          func := rfl
          state := hstate
          active := congrArg Core.compileActive hclose
          deferred := congrArg Core.compileDeferred hclose
          suspended := ?_
          curFunc := rfl
          modules := ?_ }
      · rw [← hslots]
        simp only [clearObjCtx]
        split <;> rfl
      · rw [← hmodules]
        simp only [clearObjCtx]
        split <;> rfl

/-- A slot becomes the current function and leaves the list. -/
structure Resumes (slot : SuspendedCompile) (s s' : LrSession) : Prop where
  idle : s.curFunc = none
  curFunc : s'.curFunc = some slot.func
  state : current s' = saved slot
  active : s'.compileActive = slot.compileActive
  deferred : s'.compileDeferred = slot.compileDeferred
  objCtx : slot.compileActive = true → s'.module ∈ s'.objCtxModules
  module : s'.module = s.module
  modules : s'.modules = s.modules
  suspended : ∃ pre post, s.suspended = pre ++ slot :: post ∧ s'.suspended = pre ++ post

theorem resume_cases (s : LrSession) (i : Nat) :
    (lrSessionResumeFunc s i).1 = s ∨
      ∃ slot, s.suspended[i]? = some slot ∧ Resumes slot s (lrSessionResumeFunc s i).1 := by
  unfold lrSessionResumeFunc
  split
  · exact .inl rfl
  · next slot hslot =>
    split
    · exact .inl rfl
    · next hcur =>
      obtain ⟨pre, post, hxs, herase⟩ := exists_slot hslot
      have hidle : s.curFunc = none := by simpa using hcur
      refine .inr ⟨slot, hslot, ?_⟩
      simp only
      split
      · split
        all_goals
          exact ⟨hidle, rfl, rfl, rfl, rfl, fun _ => mem_cons_self, rfl, rfl, pre, post, hxs,
            herase⟩
      · next hactive =>
        exact ⟨hidle, rfl, rfl, rfl, rfl, fun h => absurd h hactive, rfl, rfl, pre, post, hxs,
          herase⟩

theorem Keeps.trans {s'' : LrSession} (h : Keeps r s s') (h' : Keeps r s' s'') : Keeps r s s'' :=
  ⟨h'.func.trans h.func, h'.types.trans h.types, h'.state.trans h.state, h'.count.trans h.count,
    fun hmodule => h'.here (h.here hmodule)⟩

theorem keeps_of_begins (hq : q ≠ r) (hexist : (findFunc s.modules r).isSome) (h : Begins q s s') :
    Keeps r s s' :=
  keeps_of_same (h.modules.func_eq hexist) (h.modules.types r.module) h.suspended
    (by rw [h.idle]; exact some_ne_none r |>.symm)
    (by rw [h.curFunc]; exact fun heq => hq (Option.some.inj heq))

theorem keeps_of_touches {own : BuildState → Prop} (hq : q ≠ r) (hcur : s.curFunc = some q)
    (h : Touches own q s s') : Keeps r s s' := by
  have hcur' : s'.curFunc = some q := by
    rw [h.same]
    exact hcur
  have hsuspended : s'.suspended = s.suspended := by
    rw [h.same]
    rfl
  have hne : (some q : Option FuncRef) ≠ some r := fun heq => hq (Option.some.inj heq)
  exact keeps_of_same (h.modules.others r hq.symm) (h.modules.types r.module) hsuspended
    (hcur ▸ hne) (hcur' ▸ hne)

theorem keeps_of_ends (hq : q ≠ r) (hcur : s.curFunc = some q) (h : Ends q s s') :
    Keeps r s s' := by
  have hfunc : findFunc s'.modules r = findFunc s.modules r := by
    obtain hmodules | hmodules := h.modules
    · rw [hmodules]
    · rw [hmodules, findFunc_markDecl, if_neg hq]
  have htypes : moduleTypes s'.modules r.module = moduleTypes s.modules r.module := by
    obtain hmodules | hmodules := h.modules
    · rw [hmodules]
    · rw [hmodules, moduleTypes_markDecl]
  refine keeps_of_same hfunc htypes h.suspended ?_ ?_
  · rw [hcur]
    exact fun heq => hq (Option.some.inj heq)
  · rw [h.curFunc]
    exact (some_ne_none r).symm

theorem find_absent {slots : List SuspendedCompile}
    (h : (slots.map fun slot => slot.func).count r = 0) :
    (slots.find? fun slot => slot.func = r) = none := by
  rw [find?_eq_none]
  intro slot hslot
  have habsent := count_eq_zero.1 h
  simpa using fun heq : slot.func = r => habsent (mem_map.2 ⟨slot, hslot, heq⟩)

theorem building_cons (hcur : s.curFunc = some q) :
    building s = q :: s.suspended.map fun slot => slot.func := by
  rw [building, hcur]
  rfl

theorem building_idle (hcur : s.curFunc = none) :
    building s = s.suspended.map fun slot => slot.func := by
  rw [building, hcur]
  rfl

theorem keeps_of_suspends (hcount : (building s).count r ≤ 1) (h : Suspends q slot s s') :
    Keeps r s s' where
  func := by rw [h.modules]
  types := by rw [h.modules]
  state := by
    have hne : s'.curFunc ≠ some r := by
      rw [h.curFunc]
      exact (some_ne_none r).symm
    rw [stateOf_of_ne hne, h.suspended, find?_append]
    by_cases hq : q = r
    · subst hq
      rw [building_cons h.cur, count_cons_self] at hcount
      rw [find_absent (by omega), stateOf_cur h.cur, none_or]
      simp [h.func, h.state]
    · have hcur : s.curFunc ≠ some r := by
        rw [h.cur]
        exact fun heq => hq (Option.some.inj heq)
      rw [stateOf_of_ne hcur]
      have hlast : ([slot].find? fun slot => slot.func = r) = none := by
        simp [h.func, hq]
      rw [hlast, or_none]
  count := by
    rw [building_cons h.cur, building_idle h.curFunc, h.suspended, map_append]
    have hperm : ((s.suspended.map fun slot => slot.func) ++ [slot.func]).Perm
        (q :: s.suspended.map fun slot => slot.func) := by
      rw [h.func]
      exact perm_append_singleton q _
    exact hperm.count_eq r
  here := by
    intro _ hcur
    rw [h.curFunc] at hcur
    cases hcur

theorem keeps_of_resumes (hcount : (building s).count r ≤ 1)
    (hmodule : slot.func = r → s.module = r.module) (h : Resumes slot s s') : Keeps r s s' := by
  obtain ⟨pre, post, hbefore, hafter⟩ := h.suspended
  have hidle : s.curFunc ≠ some r := by
    rw [h.idle]
    exact (some_ne_none r).symm
  have hperm : (building s').Perm (building s) := by
    rw [building_cons h.curFunc, building_idle h.idle, hbefore, hafter, map_append,
      map_append, map_cons]
    exact perm_middle.symm
  refine ⟨by rw [h.modules], by rw [h.modules], ?_, hperm.count_eq r, ?_⟩
  · rw [stateOf_of_ne hidle, hbefore, find?_append]
    by_cases hfunc : slot.func = r
    · have hpre : (pre.map fun slot => slot.func).count r = 0 := by
        rw [building_idle h.idle, hbefore, map_append, map_cons, count_append,
          hfunc, count_cons_self] at hcount
        omega
      rw [find_absent hpre, none_or, stateOf_cur (h.curFunc.trans (by rw [hfunc])), h.state]
      simp [hfunc]
    · have hne : s'.curFunc ≠ some r := by
        rw [h.curFunc]
        exact fun heq => hfunc (Option.some.inj heq)
      rw [stateOf_of_ne hne, hafter, find?_append]
      simp [hfunc]
  · intro _ hcur
    rw [h.curFunc] at hcur
    rw [h.module]
    exact hmodule (Option.some.inj hcur)

end Slots

section Steps
variable {env : SessionEnv} {r : FuncRef} {s s' t : LrSession} {c : SessionCall}

/-- What a call does, by its kind. -/
theorem stepCall_cases (h : Separate s) (hstep : stepCall env s c = some s') :
    Aside s s' ∨
    (∃ q, (findFunc s.modules q = none ∨ c = .funcBeginExisting q) ∧ Begins q s s') ∨
    (∃ q step, c = .build step ∧ s.curFunc = some q ∧ Touches (OwnedBy q) q s s') ∨
    (∃ q, c = .funcEnd ∧ s.curFunc = some q ∧ (validateBlockTermination s).2 = true ∧
      Ends q (validateBlockTermination s).1 s') ∨
    (∃ q slot, c = .suspend ∧ Suspends q slot s s') ∨
    ∃ i slot, c = .resume i ∧ s.suspended[i]? = some slot ∧ Resumes slot s s' := by
  cases c with
  | funcBegin name ret params vararg =>
    obtain ⟨out, hout, rfl⟩ := map_eq_some_iff.1 hstep
    obtain haside | ⟨q, hnew, hbegin⟩ := funcBegin_cases env s hout
    · exact .inl haside
    · exact .inr (.inl ⟨q, .inl hnew, hbegin⟩)
  | funcBeginExisting q =>
    obtain ⟨out, hout, rfl⟩ := map_eq_some_iff.1 hstep
    obtain haside | hbegin := funcBeginExisting_cases env s hout
    · exact .inl haside
    · exact .inr (.inl ⟨q, .inr rfl, hbegin⟩)
  | build step =>
    cases hcur : s.curFunc with
    | none =>
      have hsame : buildStep s step = some s' := hstep
      rw [buildStep_idle hcur] at hsame
      cases hsame
      exact .inl (aside_of_core rfl)
    | some q =>
      exact .inr (.inr (.inl ⟨q, step, rfl, rfl, touches_buildStep (h.cur q hcur) hstep⟩))
  | suspend =>
    cases hstep
    obtain hsame | ⟨q, slot, hsuspend⟩ := suspend_cases s
    · exact .inl (aside_of_core (by rw [hsame]))
    · exact .inr (.inr (.inr (.inr (.inl ⟨q, slot, rfl, hsuspend⟩))))
  | resume i =>
    cases hstep
    obtain hsame | ⟨slot, hslot, hresume⟩ := resume_cases s i
    · exact .inl (aside_of_core (by rw [hsame]))
    · exact .inr (.inr (.inr (.inr (.inr ⟨i, slot, rfl, hslot, hresume⟩))))
  | funcEnd =>
    cases hcur : s.curFunc with
    | none =>
      simp only [stepCall, lrSessionFuncEnd, hcur, map_some] at hstep
      cases hstep
      exact .inl (aside_of_core rfl)
    | some q =>
      obtain ⟨-, rfl⟩ | ⟨hok, hends⟩ := funcEnd_cases env (h.cur q hcur) hstep
      · exact .inl (aside_of_core rfl)
      · exact .inr (.inr (.inr (.inl ⟨q, rfl, rfl, hok, hends⟩)))
  | setModule module =>
    cases hstep
    exact .inl (aside_setModule s module)
  | addSymbol name addr =>
    cases hstep
    exact .inl (aside_of_core (core_addSymbol env s name addr))
  | global name type isConst init => exact .inl (aside_global env s hstep)
  | globalExtern name type => exact .inl (aside_globalExtern env s hstep)
  | globalReloc id offset sym => exact .inl (aside_globalReloc env s hstep)
  | lookup name =>
    obtain ⟨out, hout, rfl⟩ := map_eq_some_iff.1 hstep
    exact .inl (aside_of_core (core_lookup env s hout))

theorem mem_building_iff : r ∈ building s ↔
    s.curFunc = some r ∨ ∃ slot ∈ s.suspended, slot.func = r := by
  simp [building]

theorem Separate.aside (h : Separate s) (haside : Aside s s') : Separate s' where
  cur := by
    intro q hq
    have hcur : s.curFunc = some q := haside.curFunc.symm.trans hq
    have hhere := h.cur q hcur
    obtain ⟨ms, hcore⟩ := haside.building (by rw [hcur]; exact some_ne_none q)
    have hmodule : s'.module = s.module := congrArg Core.module hcore
    have hobj : s'.objCtxModules = s.objCtxModules := congrArg Core.objCtxModules hcore
    have hstate : current s' = current s :=
      congrArg (fun c : Core => (⟨c.curBlock, c.blocks, c.blockSeen, c.blockTerminated,
        c.blockCount, c.phiCopies, c.emittedCount⟩ : BuildState)) hcore
    exact
      { curFunc := hq
        active := (congrArg Core.compileActive hcore).trans hhere.active
        deferred := (congrArg Core.compileDeferred hcore).trans hhere.deferred
        objCtx := by rw [hmodule, hobj]; exact hhere.objCtx
        owned := by rw [hstate]; exact hhere.owned }
  slot := by
    rw [haside.suspended]
    exact h.slot
  exist := by
    intro q hq
    rw [building, haside.curFunc, haside.suspended] at hq
    exact haside.modules.isSome (h.exist q hq)

theorem Separate.begins (h : Separate s) (hbegin : Begins q s s') :
    Separate s' where
  cur := by
    intro q' hq'
    rw [hbegin.curFunc] at hq'
    cases hq'
    refine ⟨hbegin.curFunc, hbegin.active, hbegin.deferred, hbegin.objCtx, ?_, ?_⟩
    · intro blk hblk
      have hnone : (current s').curBlock = none := hbegin.curBlock
      rw [hnone] at hblk
      cases hblk
    · intro i hi
      have hzero : (current s').blockCount = 0 := hbegin.blockCount
      omega
  slot := by
    rw [hbegin.suspended]
    exact h.slot
  exist := by
    intro q' hq'
    rw [building_cons hbegin.curFunc, hbegin.suspended] at hq'
    obtain rfl | hq' := mem_cons.1 hq'
    · exact hbegin.exist
    · refine hbegin.modules.isSome (h.exist q' ?_)
      rw [building_idle hbegin.idle]
      exact hq'

theorem Separate.touches (h : Separate s) (hcur : s.curFunc = some q)
    (htouch : Touches (OwnedBy q) q s s') : Separate s' := by
  have hhere := (h.cur q hcur).touches htouch
  have hsuspended : s'.suspended = s.suspended := by
    rw [htouch.same]
    rfl
  refine ⟨?_, by rw [hsuspended]; exact h.slot, ?_⟩
  · intro q' hq'
    rw [hhere.curFunc] at hq'
    cases hq'
    exact hhere
  · intro q' hq'
    rw [building, hhere.curFunc, ← hcur, hsuspended] at hq'
    exact htouch.modules.isSome (h.exist q' hq')

/-- Without a current function only the slots count. -/
theorem separate_idle (hcur : s'.curFunc = none)
    (hslot : ∀ slot ∈ s'.suspended, slot.compileActive = true ∧ slot.compileDeferred = true ∧
      OwnedBy slot.func (saved slot))
    (hexist : ∀ slot ∈ s'.suspended, (findFunc s'.modules slot.func).isSome) : Separate s' where
  cur := by
    intro q hq
    rw [hcur] at hq
    cases hq
  slot := hslot
  exist := by
    intro q hq
    rw [building_idle hcur] at hq
    obtain ⟨slot, hmem, rfl⟩ := mem_map.1 hq
    exact hexist slot hmem

theorem Separate.ends (h : Separate s) (hcur : s.curFunc = some q)
    (hends : Ends q (validateBlockTermination s).1 s') : Separate s' := by
  have htouch := touches_validate (h.cur q hcur)
  have hsuspended : s'.suspended = s.suspended := by
    rw [hends.suspended, htouch.same]
    rfl
  refine separate_idle hends.curFunc ?_ ?_
  · rw [hsuspended]
    exact h.slot
  · intro slot hslot
    rw [hsuspended] at hslot
    exact hends.isSome (htouch.modules.isSome
      (h.exist _ (mem_building_iff.2 (.inr ⟨slot, hslot, rfl⟩))))

theorem Separate.suspends (h : Separate s) (hsuspend : Suspends q slot s s') : Separate s' := by
  have hhere := h.cur q hsuspend.cur
  refine separate_idle hsuspend.curFunc ?_ ?_
  · intro slot' hslot'
    rw [hsuspend.suspended] at hslot'
    obtain hslot' | hslot' := mem_append.1 hslot'
    · exact h.slot slot' hslot'
    · obtain rfl := mem_singleton.1 hslot'
      refine ⟨hsuspend.active.trans hhere.active, hsuspend.deferred.trans hhere.deferred, ?_⟩
      rw [hsuspend.state, hsuspend.func]
      exact hhere.owned
  · intro slot' hslot'
    rw [hsuspend.modules]
    rw [hsuspend.suspended] at hslot'
    obtain hslot' | hslot' := mem_append.1 hslot'
    · exact h.exist _ (mem_building_iff.2 (.inr ⟨slot', hslot', rfl⟩))
    · obtain rfl := mem_singleton.1 hslot'
      rw [hsuspend.func]
      exact h.exist _ (mem_building_iff.2 (.inl hsuspend.cur))

theorem Separate.resumes (h : Separate s) (hresume : Resumes slot s s') : Separate s' := by
  obtain ⟨pre, post, hbefore, hafter⟩ := hresume.suspended
  have hmem : slot ∈ s.suspended := by
    rw [hbefore]
    exact mem_append_right pre mem_cons_self
  have hsub : ∀ slot' ∈ s'.suspended, slot' ∈ s.suspended := by
    intro slot' hslot'
    rw [hafter] at hslot'
    rw [hbefore]
    obtain hslot' | hslot' := mem_append.1 hslot'
    · exact mem_append_left _ hslot'
    · exact mem_append_right pre (mem_cons_of_mem slot hslot')
  obtain ⟨hactive, hdeferred, howned⟩ := h.slot slot hmem
  refine ⟨?_, fun slot' hslot' => h.slot slot' (hsub slot' hslot'), ?_⟩
  · intro q hq
    rw [hresume.curFunc] at hq
    cases hq
    refine ⟨hresume.curFunc, hresume.active.trans hactive, hresume.deferred.trans hdeferred,
      hresume.objCtx hactive, ?_⟩
    rw [hresume.state]
    exact howned
  · intro q hq
    rw [hresume.modules]
    obtain hq | ⟨slot', hslot', rfl⟩ := mem_building_iff.1 hq
    · rw [hresume.curFunc] at hq
      cases hq
      exact h.exist _ (mem_building_iff.2 (.inr ⟨slot, hmem, rfl⟩))
    · exact h.exist _ (mem_building_iff.2 (.inr ⟨slot', hsub slot' hslot', rfl⟩))

theorem Separate.step (h : Separate s) (hstep : stepCall env s c = some s') : Separate s' := by
  obtain haside | ⟨q, -, hbegin⟩ | ⟨q, step, -, hcur, htouch⟩ | ⟨q, -, hcur, -, hends⟩ |
    ⟨q, slot, -, hsuspend⟩ | ⟨i, slot, -, -, hresume⟩ := stepCall_cases h hstep
  · exact h.aside haside
  · exact h.begins hbegin
  · exact h.touches hcur htouch
  · exact h.ends hcur hends
  · exact h.suspends hsuspend
  · exact h.resumes hresume

end Steps

/-- The calls that build the current function. -/
def SessionCall.isOwn : SessionCall → Bool
  | .build _ | .funcEnd => true
  | _ => false

/-- The steps that belong to `r`. -/
def own (r : FuncRef) (s : LrSession) (c : SessionCall) : Bool :=
  s.curFunc = some r && SessionCall.isOwn c

def SessionCall.begins : SessionCall → Bool
  | .funcBegin .. | .funcBeginExisting _ => true
  | _ => false

/-- The call does not begin `r` again. -/
def BeginsOther (r : FuncRef) : SessionCall → Prop
  | .funcBeginExisting q => q ≠ r
  | _ => True

/-- A function is resumed while its own module is the module of the session. -/
def ResumesAtHome (s : LrSession) : SessionCall → Prop
  | .resume i => ∀ slot ∈ s.suspended[i]?, slot.func.module = s.module
  | _ => True

instance (s : LrSession) (c : SessionCall) : Decidable (ResumesAtHome s c) :=
  match c with
  | .resume i => inferInstanceAs (Decidable (∀ slot ∈ s.suspended[i]?, slot.func.module = s.module))
  | .funcBegin .. | .funcBeginExisting _ | .build _ | .suspend | .funcEnd | .setModule _
  | .addSymbol .. | .global .. | .globalExtern .. | .globalReloc .. | .lookup _ => .isTrue trivial

section Simulation
variable {env : SessionEnv} {r : FuncRef} {s s' t : LrSession} {c : SessionCall}

/-- `r` is being built in `s`, by turns, and in `t`, where it is current. -/
structure Follows (r : FuncRef) (s t : LrSession) : Prop where
  once : (building s).count r = 1
  here : s.curFunc = some r → s.module = r.module
  right : Here (OwnedBy r) r t
  rightModule : t.module = r.module
  alone : (t.suspended.map fun slot => slot.func).count r = 0
  func : findFunc s.modules r = findFunc t.modules r
  types : moduleTypes s.modules r.module = moduleTypes t.modules r.module
  state : stateOf s r = some (current t)

/-- `r` has been built in both. -/
structure Done (r : FuncRef) (s t : LrSession) : Prop where
  gone : (building s).count r = 0
  gone' : (building t).count r = 0
  exist : (findFunc s.modules r).isSome
  ir : irOf s r = irOf t r

/-- A step that is not `r`'s own leaves `r` as it is. -/
theorem keeps_of_other (h : Separate s) (hexist : (findFunc s.modules r).isSome)
    (hcount : (building s).count r ≤ 1) (hother : BeginsOther r c) (hhome : ResumesAtHome s c)
    (hown : own r s c = false) (hstep : stepCall env s c = some s') : Keeps r s s' := by
  have hne : ∀ q, SessionCall.isOwn c = true → s.curFunc = some q → q ≠ r := by
    rintro q hkind hcur rfl
    simp [own, hkind, hcur] at hown
  obtain haside | ⟨q, hnew, hbegin⟩ | ⟨q, step, rfl, hcur, htouch⟩ | ⟨q, rfl, hcur, -, hends⟩ |
    ⟨q, slot, -, hsuspend⟩ | ⟨i, slot, rfl, hslot, hresume⟩ := stepCall_cases h hstep
  · exact keeps_of_aside hexist haside
  · have hq : q ≠ r := by
      obtain hnew | rfl := hnew
      · rintro rfl
        rw [hnew] at hexist
        cases hexist
      · exact hother
    exact keeps_of_begins hq hexist hbegin
  · exact keeps_of_touches (hne q rfl hcur) hcur htouch
  · have htouch := touches_validate (h.cur q hcur)
    have hvalid := ((h.cur q hcur).weaken fun _ => trivial).touches htouch
    exact (keeps_of_touches (hne q rfl hcur) hcur htouch).trans
      (keeps_of_ends (hne q rfl hcur) hvalid.curFunc hends)
  · exact keeps_of_suspends hcount hsuspend
  · refine keeps_of_resumes hcount ?_ hresume
    intro hfunc
    rw [← hhome slot hslot, hfunc]

theorem Follows.exist (h : Follows r s t) (hsep : Separate s) : (findFunc s.modules r).isSome :=
  hsep.exist r (count_pos_iff.1 (by rw [h.once]; exact Nat.one_pos))

theorem Follows.keeps (h : Follows r s t) (hkeeps : Keeps r s s') : Follows r s' t :=
  { h with
    once := hkeeps.count.trans h.once
    here := hkeeps.here h.here
    func := hkeeps.func.trans h.func
    types := hkeeps.types.trans h.types
    state := hkeeps.state.trans h.state }

theorem Done.keeps (h : Done r s t) (hkeeps : Keeps r s s') : Done r s' t where
  gone := hkeeps.count.trans h.gone
  gone' := h.gone'
  exist := by
    rw [hkeeps.func]
    exact h.exist
  ir := by
    rw [← h.ir, irOf, irOf, hkeeps.func]

theorem Follows.alike (h : Follows r s t) (hsep : Separate s) (hcur : s.curFunc = some r) :
    Alike (OwnedBy r) r s t where
  left := hsep.cur r hcur
  right := h.right
  leftModule := h.here hcur
  rightModule := h.rightModule
  func := h.func
  types := h.types
  state := by
    have hstate := h.state
    rw [stateOf_cur hcur] at hstate
    exact Option.some.inj hstate

/-- A step of building does the same in both. -/
theorem Follows.build (h : Follows r s t) (hsep : Separate s) (hcur : s.curFunc = some r)
    {step : BuildStep} (hstep : buildStep s step = some s') :
    ∃ t', buildStep t step = some t' ∧ Follows r s' t' := by
  obtain ⟨t₁, htstep, hlike⟩ := (local_buildStep step).alike s t s' () (h.alike hsep hcur)
    (by rw [hstep]; rfl)
  obtain ⟨t', ht, heq⟩ := map_eq_some_iff.1 htstep
  obtain rfl : t₁ = t' := congrArg Prod.fst heq.symm
  have htouch := touches_buildStep (hsep.cur r hcur) hstep
  have htouch' := touches_buildStep h.right ht
  have hsuspended : s'.suspended = s.suspended := by
    rw [htouch.same]
    rfl
  have hsuspended' : t₁.suspended = t.suspended := by
    rw [htouch'.same]
    rfl
  exact ⟨t₁, ht,
    { once := by
        rw [building, hlike.left.curFunc, ← hcur, hsuspended]
        exact h.once
      here := fun _ => hlike.leftModule
      right := hlike.right
      rightModule := hlike.rightModule
      alone := by rw [hsuspended']; exact h.alone
      func := hlike.func
      types := hlike.types
      state := by rw [stateOf_cur hlike.left.curFunc, hlike.state] }⟩

theorem irOf_ends (h : Ends r s s') : irOf s' r = irOf s r := by
  unfold irOf
  obtain hmodules | hmodules := h.modules
  · rw [hmodules]
  · rw [hmodules, findFunc_markDecl, if_pos rfl, Option.map_map]
    rfl

/-- Ending a function does the same in both, as far as its IR goes. -/
theorem Follows.funcEnd (h : Follows r s t) (hsep : Separate s) (hcur : s.curFunc = some r)
    (hstep : stepCall env s .funcEnd = some s') :
    ∃ t', stepCall env t .funcEnd = some t' ∧ (Follows r s' t' ∨ Done r s' t') := by
  have hlike : Alike (fun _ => True) r s t := (h.alike hsep hcur).weaken fun _ _ => trivial
  obtain ⟨t₁, hvalid, hlike₁⟩ := local_validate.alike s t (validateBlockTermination s).1
    (validateBlockTermination s).2 hlike rfl
  have hvalid := Option.some.inj hvalid
  have hfirst : (validateBlockTermination t).1 = t₁ := by rw [hvalid]
  have hsecond : (validateBlockTermination t).2 = (validateBlockTermination s).2 := by rw [hvalid]
  obtain ⟨t', ht⟩ : ∃ t', stepCall env t .funcEnd = some t' := by
    have hactive : t₁.compileActive = true := hlike₁.right.active
    simp only [stepCall, lrSessionFuncEnd, h.right.curFunc, hfirst, hactive]
    cases (validateBlockTermination t).2 with
    | false => exact ⟨_, rfl⟩
    | true => exact ⟨_, rfl⟩
  refine ⟨t', ht, ?_⟩
  obtain ⟨hok, rfl⟩ | ⟨hok, hends⟩ := funcEnd_cases env (hsep.cur r hcur) hstep
  · obtain ⟨-, rfl⟩ | ⟨hok', -⟩ := funcEnd_cases env h.right ht
    · exact .inl h
    · rw [hsecond, hok] at hok'
      cases hok'
  · obtain ⟨hok', -⟩ | ⟨-, hends'⟩ := funcEnd_cases env h.right ht
    · rw [hsecond, hok] at hok'
      cases hok'
    · rw [hfirst] at hends'
      have hsuspended : s'.suspended = s.suspended := by
        rw [hends.suspended, (touches_validate (hsep.cur r hcur)).same]
        rfl
      have hsuspended' : t'.suspended = t.suspended := by
        rw [hends'.suspended, ← hfirst, (touches_validate h.right).same]
        rfl
      have honce := h.once
      rw [building_cons hcur, count_cons_self] at honce
      refine .inr ⟨?_, ?_, ?_, ?_⟩
      · rw [building_idle hends.curFunc, hsuspended]
        omega
      · rw [building_idle hends'.curFunc, hsuspended']
        exact h.alone
      · exact hends.isSome ((touches_validate (hsep.cur r hcur)).modules.isSome (h.exist hsep))
      · rw [irOf_ends hends, irOf_ends hends', irOf, irOf, hlike₁.func]

/-- The two phases of a function: its session and a session where its steps are alone. -/
structure Tracks (r : FuncRef) (s t : LrSession) : Prop where
  separate : Separate s
  phase : Follows r s t ∨ Done r s t

theorem Tracks.other (h : Tracks r s t) (hp : BeginsOther r c ∧ ResumesAtHome s c)
    (hstep : stepCall env s c = some s') (hown : own r s c = false) : Tracks r s' t := by
  refine ⟨h.separate.step hstep, ?_⟩
  obtain hfollow | hdone := h.phase
  · exact .inl (hfollow.keeps (keeps_of_other h.separate (hfollow.exist h.separate)
      hfollow.once.le hp.1 hp.2 hown hstep))
  · exact .inr (hdone.keeps (keeps_of_other h.separate hdone.exist
      (hdone.gone.le.trans (Nat.zero_le 1)) hp.1 hp.2 hown hstep))

theorem Tracks.own (h : Tracks r s t) (hstep : stepCall env s c = some s')
    (hown : own r s c = true) : ∃ t', stepCall env t c = some t' ∧ Tracks r s' t' := by
  obtain ⟨hcur, hkind⟩ : s.curFunc = some r ∧ SessionCall.isOwn c = true := by
    simpa [SessionInterleaving.own] using hown
  obtain hfollow | hdone := h.phase
  · cases c with
    | build step =>
      obtain ⟨t', ht, hfollow'⟩ := hfollow.build h.separate hcur hstep
      exact ⟨t', ht, h.separate.step hstep, .inl hfollow'⟩
    | funcEnd =>
      obtain ⟨t', ht, hphase⟩ := hfollow.funcEnd h.separate hcur hstep
      exact ⟨t', ht, h.separate.step hstep, hphase⟩
    | _ => cases hkind
  · have hgone := hdone.gone
    rw [building_cons hcur, count_cons_self] at hgone
    omega

/-- From its beginning on a function is tracked by a session of its own. -/
theorem tracks_of_begins (h : Separate s) (hnew : r ∉ building s) (hbegin : Begins r s s') :
    Tracks r s' s' := by
  have hsep := h.begins hbegin
  have hcount : (s'.suspended.map fun slot => slot.func).count r = 0 := by
    rw [hbegin.suspended, ← building_idle hbegin.idle]
    exact count_eq_zero.2 hnew
  exact ⟨hsep, .inl
    { once := by rw [building_cons hbegin.curFunc, count_cons_self, hcount]
      here := fun _ => hbegin.module
      right := hsep.cur r hbegin.curFunc
      rightModule := hbegin.module
      alone := hcount
      func := rfl
      types := rfl
      state := stateOf_cur hbegin.curFunc }⟩

theorem Tracks.agree (h : Tracks r s t) : irOf s r = irOf t r ∧ stateOf s r = stateOf t r := by
  have hgone : ∀ {u : LrSession}, (building u).count r = 0 → stateOf u r = none := by
    intro u hu
    have hne : u.curFunc ≠ some r := by
      intro hcur
      rw [building_cons hcur, count_cons_self] at hu
      omega
    rw [stateOf_of_ne hne, find_absent]
    · rfl
    · rw [building, count_append] at hu
      omega
  obtain hfollow | hdone := h.phase
  · refine ⟨by rw [irOf, irOf, hfollow.func], ?_⟩
    rw [hfollow.state, stateOf_cur hfollow.right.curFunc]
  · exact ⟨hdone.ir, (hgone hdone.gone).trans (hgone hdone.gone').symm⟩

end Simulation

section Appending
variable {r : FuncRef} {s s' s'' : LrSession} {b : BlockRef} {added more : List LrInst}

/-- Block `b` gets the instructions `added`, every other block stays as it is. -/
def Adds (b : BlockRef) (added : List LrInst) (s s' : LrSession) : Prop :=
  ∀ b', findBlock s'.modules b' =
    if b' = b then (findBlock s.modules b).map fun blk => { blk with insts := blk.insts ++ added }
    else findBlock s.modules b'

theorem Adds.refl (b : BlockRef) (s : LrSession) : Adds b [] s s := by
  intro b'
  split
  · next hb =>
    subst hb
    simp
  · rfl

theorem Adds.trans (h : Adds b added s s') (h' : Adds b more s' s'') :
    Adds b (added ++ more) s s'' := by
  intro b'
  rw [h' b', h b']
  split
  · rw [h b, if_pos rfl, Option.map_map]
    congr 1
    funext blk
    simp
  · rfl

theorem adds_of_blocks {change : LrFunc → LrFunc} {f : LrModule → LrModule}
    (h : ChangesFunc r.func change f) (hblocks : ∀ g, (change g).blocks = g.blocks) :
    Adds b [] s (updateModule s r.module f) := by
  intro b'
  have hsame : findBlock (updateModule s r.module f).modules b' = findBlock s.modules b' := by
    unfold findBlock updateModule
    by_cases hb : b'.func = r
    · rw [hb, findFunc_changed h]
      cases findFunc s.modules r with
      | none => rfl
      | some g => simp [hblocks]
    · rw [(modulesTouch_changed h).others _ hb]
  rw [hsame]
  exact Adds.refl b s b'

theorem adds_appendInst (b : BlockRef) (inst : LrInst) (s : LrSession) :
    Adds b [inst] s (appendInst s b inst) := by
  intro b'
  have hchange := changesFunc_append b.func.func b.block inst
  unfold findBlock appendInst updateModule
  by_cases hfunc : b'.func = b.func
  · rw [hfunc, findFunc_changed hchange]
    cases findFunc s.modules b.func with
    | none => simp
    | some g =>
      simp only [map_some, bind_some, appendToBlock, getElem?_modify]
      by_cases hblock : b.block = b'.block
      · have heq : b' = b := by
          cases b
          cases b'
          simp_all
        subst heq
        simp
      · have hne : b' ≠ b := fun heq => hblock (by rw [heq])
        simp [hblock, hne]
  · have hne : b' ≠ b := fun heq => hfunc (by rw [heq])
    rw [(modulesTouch_changed hchange).others _ hfunc, if_neg hne]

theorem adds_vregNew (b : BlockRef) (r : FuncRef) (s : LrSession) : Adds b [] s (lrVregNew s r).1 :=
  adds_of_blocks (changesFunc_updateFunc r.func _) fun _ => rfl

theorem adds_instDest (inst : InstDesc) (itype : Option LrType) :
    Adds b [] s (instDest s r inst itype).1 := by
  unfold instDest
  split
  · split
    · exact adds_vregNew b r s
    · split
      · exact adds_of_blocks (changesFunc_updateFunc r.func _) fun _ => rfl
      · exact .refl b s
  · exact .refl b s

/-- Only sign extensions of indices stand in front of an instruction. -/
def AllSext (insts : List LrInst) : Prop := ∀ inst ∈ insts, inst.op = .sext

theorem adds_canonicalize (b : BlockRef) (r : FuncRef) (idxOp : LrOperand) (s : LrSession) :
    ∃ casts, AllSext casts ∧ Adds b casts s (lrCanonicalizeGepIndex s b r idxOp).1 := by
  obtain htyped | hextend | hsame := canonicalize_cases idxOp
  · rw [htyped]
    exact ⟨[], by simp [AllSext], .refl b s⟩
  · rw [hextend]
    refine ⟨_, ?_, (adds_vregNew b r s).trans (adds_appendInst b _ _)⟩
    intro inst hinst
    obtain rfl := mem_singleton.1 hinst
    rfl
  · rw [hsame]
    exact ⟨[], by simp [AllSext], .refl b s⟩

theorem adds_indices (b : BlockRef) (r : FuncRef) : ∀ (ops : List LrOperand) (s : LrSession),
    ∃ casts, AllSext casts ∧ Adds b casts s (canonicalizeIndices b r s ops).1
  | [], s => ⟨[], by simp [AllSext], .refl b s⟩
  | op :: rest, s => by
    obtain ⟨casts, hcasts, hadds⟩ := adds_canonicalize b r op s
    obtain ⟨casts', hcasts', hadds'⟩ := adds_indices b r rest (lrCanonicalizeGepIndex s b r op).1
    refine ⟨casts ++ casts', ?_, hadds.trans hadds'⟩
    intro inst hinst
    obtain hinst | hinst := mem_append.1 hinst
    · exact hcasts inst hinst
    · exact hcasts' inst hinst

theorem adds_emittedOperands (b : BlockRef) (r : FuncRef) (inst : InstDesc) (s : LrSession) :
    ∃ casts, AllSext casts ∧ Adds b casts s (emittedOperands s b r inst).1 := by
  unfold emittedOperands
  split
  · exact adds_indices b r _ s
  · exact ⟨[], by simp [AllSext], .refl b s⟩

theorem instOf_op (inst : InstDesc) (ops : List LrOperand) : (instOf inst ops).op = inst.op := by
  unfold instOf
  simp only
  split <;> rfl

/-- What an emitted descriptor adds: nothing without a type, otherwise its instruction
behind the extensions of its indices. -/
def AddedBy (inst : InstDesc) (added : List LrInst) : Prop :=
  added = [] ∨ ∃ casts out, added = casts ++ [out] ∧ AllSext casts ∧ out.op = inst.op

/-- An instruction goes to the current block of the current function. -/
theorem emit_adds {d : Nat} {inst : InstDesc} (hs : Here (OwnedBy r) r s)
    (hb : s.curBlock = some b) (h : lrSessionEmit s inst = some (s', d)) :
    b.func = r ∧ ∃ added, AddedBy inst added ∧ Adds b added s s' := by
  refine ⟨hs.owned.curBlock b hb, ?_⟩
  rw [lrSessionEmit_eq hs inst hb] at h
  split at h
  · cases h
    exact ⟨[], .inl rfl, .refl b s⟩
  · simp only [bind_some] at h
    cases h
    generalize hdest : instDest s r inst (instType (sessionTypes s) inst) = q
    have hfirst : Adds b [] s q.1 := by
      rw [← hdest]
      exact adds_instDest inst _
    generalize hdesc : normalized inst (instType (sessionTypes s) inst) q.2 = desc
    have hop : desc.op = inst.op := by
      rw [← hdesc]
      rfl
    obtain ⟨casts, hcasts, hadds⟩ := adds_emittedOperands b r desc q.1
    refine ⟨casts ++ [instOf desc (emittedOperands q.1 b r desc).2], .inr ⟨casts, _, rfl, hcasts,
      (instOf_op desc _).trans hop⟩, ?_⟩
    exact (hfirst.trans hadds).trans (adds_appendInst b _ _)

end Appending

/-- A run of a session, taken apart at the calls of one function: its instructions go
to its current block, resuming brings back what suspending saved, and its IR and its
state are those of a run of its own calls alone. -/
structure AsAlone (env : SessionEnv) (s : LrSession) (calls : List SessionCall) : Prop where
  appended : ∀ pre inst post s₁ s₂ r b, calls = pre ++ .build (.emit inst) :: post →
    runCalls env s pre = some s₁ → stepCall env s₁ (.build (.emit inst)) = some s₂ →
    s₁.curFunc = some r → s₁.curBlock = some b →
    b.func = r ∧ ∃ added, AddedBy inst added ∧ Adds b added s₁ s₂
  restored : ∀ pre i post s₁ s₂ slot, calls = pre ++ .resume i :: post →
    runCalls env s pre = some s₁ → stepCall env s₁ (.resume i) = some s₂ →
    s₁.curFunc = none → s₁.suspended[i]? = some slot →
    s₂.curFunc = some slot.func ∧ s₂.suspended = s₁.suspended.eraseIdx i ∧
      ∃ pre' post' s₀, pre = pre' ++ .suspend :: post' ∧ runCalls env s pre' = some s₀ ∧
        s₀.curFunc = some slot.func ∧
        (lrSessionSuspendFunc s₀).1.suspended = s₀.suspended ++ [slot] ∧ current s₂ = current s₀
  built : ∀ pre c mid post s₁ s₂ s₃ r, calls = pre ++ c :: (mid ++ post) →
    runCalls env s pre = some s₁ → stepCall env s₁ c = some s₂ → s₁.curFunc = none →
    s₂.curFunc = some r → SessionCall.begins c = true → r ∉ building s₁ →
    (∀ c' ∈ mid, BeginsOther r c') → runCalls env s₂ mid = some s₃ →
    ∃ t, runCalls env s₂ (ownSteps (stepCall env) (own r) s₂ mid) = some t ∧
      irOf s₃ r = irOf t r ∧ stateOf s₃ r = stateOf t r

section Claim
variable {env : SessionEnv} {s s' : LrSession}

theorem separate_create (j : LrJit) (modules : List LrModule) (module : Nat) :
    Separate (lrSessionCreate j modules module) :=
  separate_idle rfl (fun _ h => absurd h not_mem_nil) fun _ h => absurd h not_mem_nil

theorem Separate.run (h : Separate s) (calls : List SessionCall)
    (hrun : runCalls env s calls = some s') : Separate s' :=
  runSteps_invariant (fun _ _ _ hsep hstep => hsep.step hstep) calls s s' h hrun

/-- A slot is there because a call has suspended its function. -/
def Saved (env : SessionEnv) (s : LrSession) (pre : List SessionCall) (slot : SuspendedCompile) :
    Prop :=
  ∃ pre' post' s₀, pre = pre' ++ .suspend :: post' ∧ runCalls env s pre' = some s₀ ∧
    Suspends slot.func slot s₀ (lrSessionSuspendFunc s₀).1

variable {pre : List SessionCall}

theorem Saved.later (h : Saved env s pre slot) (c : SessionCall) :
    Saved env s (pre ++ [c]) slot := by
  obtain ⟨pre', post', s₀, rfl, hrun, hsuspend⟩ := h
  exact ⟨pre', post' ++ [c], s₀, by simp, hrun, hsuspend⟩

theorem saved_of_run (h : Separate s) (hnone : s.suspended = []) (pre : List SessionCall) :
    ∀ s₁ : LrSession, runCalls env s pre = some s₁ → ∀ slot ∈ s₁.suspended, Saved env s pre slot := by
  induction pre using reverseRecOn with
  | nil =>
    intro s₁ hrun slot hslot
    cases hrun
    rw [hnone] at hslot
    cases hslot
  | append_singleton pre c ih =>
    intro s₂ hrun slot hslot
    obtain ⟨s₁, hpre, hstep⟩ := bind_eq_some_iff.1 ((runSteps_concat pre c s).symm.trans hrun)
    have hsep := h.run pre hpre
    have hold : slot ∈ s₁.suspended → Saved env s (pre ++ [c]) slot :=
      fun hmem => (ih s₁ hpre slot hmem).later c
    obtain haside | ⟨q, -, hbegin⟩ | ⟨q, step, -, hcur, htouch⟩ | ⟨q, -, hcur, -, hends⟩ |
      ⟨q, new, rfl, hsuspend⟩ | ⟨i, new, -, -, hresume⟩ := stepCall_cases hsep hstep
    · rw [haside.suspended] at hslot
      exact hold hslot
    · rw [hbegin.suspended] at hslot
      exact hold hslot
    · rw [htouch.same] at hslot
      exact hold hslot
    · rw [hends.suspended, (touches_validate (hsep.cur q hcur)).same] at hslot
      exact hold hslot
    · rw [hsuspend.suspended] at hslot
      obtain hslot | hslot := mem_append.1 hslot
      · exact hold hslot
      · obtain rfl := mem_singleton.1 hslot
        cases hstep
        obtain rfl := hsuspend.func
        exact ⟨pre, [], s₁, rfl, hpre, hsuspend⟩
    · obtain ⟨before, after, hbefore, hafter⟩ := hresume.suspended
      rw [hafter] at hslot
      refine hold ?_
      rw [hbefore]
      obtain hslot | hslot := mem_append.1 hslot
      · exact mem_append_left _ hslot
      · exact mem_append_right before (mem_cons_of_mem new hslot)

variable {c : SessionCall}

theorem run_split {post : List SessionCall}
    {s₁ s₂ : LrSession} (hpre : runCalls env s pre = some s₁) (hstep : stepCall env s₁ c = some s₂)
    {p : LrSession → SessionCall → Prop} (h : Along (stepCall env) p s (pre ++ c :: post)) :
    Along (stepCall env) p s₂ post :=
  (Along.append h hpre).tail hstep

variable {r : FuncRef}

theorem emit_appended (h : Separate s) {inst : InstDesc} {b : BlockRef}
    (hstep : stepCall env s (.build (.emit inst)) = some s') (hcur : s.curFunc = some r)
    (hb : s.curBlock = some b) : b.func = r ∧ ∃ added, AddedBy inst added ∧ Adds b added s s' := by
  obtain ⟨⟨s'', d⟩, hemit, rfl⟩ := map_eq_some_iff.1 hstep
  exact emit_adds (h.cur r hcur) hb hemit

theorem resume_restores {i : Nat} (hidle : s.curFunc = none) (hslot : s.suspended[i]? = some slot) :
    (lrSessionResumeFunc s i).1.curFunc = some slot.func ∧
      (lrSessionResumeFunc s i).1.suspended = s.suspended.eraseIdx i ∧
      current (lrSessionResumeFunc s i).1 = saved slot := by
  unfold lrSessionResumeFunc
  simp only [hslot, hidle, isSome_none, Bool.false_eq_true, if_false]
  split
  · split
    all_goals exact ⟨rfl, rfl, rfl⟩
  · exact ⟨rfl, rfl, rfl⟩

/-- A call that begins a function begins the one that is then current. -/
theorem begins_of_step (h : Separate s)
    (hstep : stepCall env s c = some s') (hidle : s.curFunc = none) (hcur : s'.curFunc = some r)
    (hc : SessionCall.begins c = true) : Begins r s s' := by
  obtain haside | ⟨q, -, hbegin⟩ | ⟨q, step, rfl, -, -⟩ | ⟨q, rfl, -, -, -⟩ | ⟨q, slot, rfl, -⟩ |
    ⟨i, slot, rfl, -, -⟩ := stepCall_cases h hstep
  · rw [haside.curFunc, hidle] at hcur
    cases hcur
  · rw [hbegin.curFunc] at hcur
    cases hcur
    exact hbegin
  all_goals cases hc

/-- A target that emits a return and no relocations, and a host without symbols. -/
def plainEnv : SessionEnv where
  jit := { host := { libs := [], process := ⟨fun _ => 0, fun _ => 0⟩ }, compile := fun _ _ _ => none }
  stream := fun _ _ _ => ⟨[], some [0xC3]⟩

def emptyModule (addr : Nat) : LrModule :=
  { builtin := lrModuleCreateTypes addr, nextAddr := addr + 32 }

/-- A session over two modules; the first one is its own. -/
def twoModules : LrSession :=
  lrSessionCreate { codeBuf := 4096, codeCap := 4096, dataBuf := 0, dataCap := 4096 }
    [emptyModule 100, emptyModule 200] 0

/-- A comparison whose type is left to the session. -/
def compareZero : InstDesc :=
  { op := .icmp, type := none, operands := [⟨.immI64 0, none, 0⟩, ⟨.immI64 0, none, 0⟩] }

def beginF : SessionCall := .funcBegin [102] none [] false

/-- `f` is suspended, `g` begins in the second module, and `f` is resumed there. -/
def awayCalls : List SessionCall :=
  [.suspend, .setModule 1, .funcBegin [103] none [] false, .suspend, .resume 0,
    .build (.setBlock 0), .build (.emit compareZero)]

/-- The same, but the first module is set again before `f` is resumed. -/
def homeCalls : List SessionCall :=
  [.suspend, .setModule 1, .funcBegin [103] none [] false, .suspend, .setModule 0, .resume 0,
    .build (.setBlock 0), .build (.emit compareZero)]

def funcF : FuncRef := ⟨0, 0⟩

/-- What a run and the run of the steps of `r` alone build, after the call `c`. -/
def builtIr (env : SessionEnv) (s : LrSession) (r : FuncRef) (c : SessionCall)
    (mid : List SessionCall) : Option (Option FuncRef × Option LrFunc × Option LrFunc) := do
  let s₁ ← stepCall env s c
  let s₂ ← runCalls env s₁ mid
  let t ← runCalls env s₁ (ownSteps (stepCall env) (own r) s₁ mid)
  return (s₁.curFunc, irOf s₂ r, irOf t r)

theorem builtIr_alone {mid : List SessionCall}
    {out : Option FuncRef × Option LrFunc × Option LrFunc} (h : AsAlone env s (c :: mid))
    (hbuilt : builtIr env s r c mid = some out) (hidle : building s = [])
    (hc : SessionCall.begins c = true) (hmid : ∀ c' ∈ mid, BeginsOther r c')
    (hcur : out.1 = some r) : out.2.1 = out.2.2 := by
  obtain ⟨s₁, hstep, hbuilt⟩ := bind_eq_some_iff.1 hbuilt
  obtain ⟨s₂, hrun, hbuilt⟩ := bind_eq_some_iff.1 hbuilt
  obtain ⟨t, halone, hbuilt⟩ := bind_eq_some_iff.1 hbuilt
  cases hbuilt
  have hnone : s.curFunc = none := by
    cases hfunc : s.curFunc with
    | none => rfl
    | some q =>
      rw [building_cons hfunc] at hidle
      cases hidle
  obtain ⟨t', ht, hir, -⟩ := h.built [] c mid [] s s₁ s₂ r (by simp) rfl hstep hnone hcur hc
    (by rw [hidle]; exact not_mem_nil) hmid hrun
  rw [halone] at ht
  cases ht
  exact hir

end Claim

end Liric.Guarantees.SessionInterleaving
