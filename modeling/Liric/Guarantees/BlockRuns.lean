import Liric.Guarantees.BlockTables

/-!
# Runs over the table of blocks

The validation at the end of a function, the calls that begin and end functions, and whole
runs. Between the functions no flag is set, so a function that begins finds none; the
pointers that are left are beyond the count.
-/
namespace Liric.Guarantees.BlockTables
open Source.Ir Source.Object Source.Session Source.Session.Modes SessionRuns SessionBuilding Option
open List
open SwitchLowering (Numbered)
open Lib (Along runSteps_along)

variable {ms modules : List LrModule} {out : LrSession × Bool} {module : Nat}

/-- The flags of the blocks of `r` are true of them. -/
structure Ending (r : FuncRef) (s : LrSession) : Prop extends Counted s where
  flags : ∀ i, flagged s i = true → EndsAt s.modules r i

/-- More blocks of `r` end with a terminator, and none is new. -/
structure EndsMore (r : FuncRef) (s s' : LrSession) : Prop where
  ending : Ending r s'
  ends : ∀ i, EndsAt s.modules r i → EndsAt s'.modules r i
  places : ∀ i, (findBlock s'.modules ⟨r, i⟩).isSome = (findBlock s.modules ⟨r, i⟩).isSome

section Termination
variable {s s' s'' : LrSession} {r : FuncRef}

theorem EndsMore.refl (h : Ending r s) : EndsMore r s s := ⟨h, fun _ => id, fun _ => rfl⟩

theorem EndsMore.trans (h : EndsMore r s s') (h' : EndsMore r s' s'') : EndsMore r s s'' :=
  ⟨h'.ending, fun i hi => h'.ends i (h.ends i hi), fun i => (h'.places i).trans (h.places i)⟩

/-- The flags and the count after a block is entered for its end. -/
theorem enterTerminated_flags (s : LrSession) (i id : Nat) :
    (∀ j, flagged (withState s (enterTerminated r i id (current s))) j = flagged s j) ∧
      (enterTerminated r i id (current s)).blockCount = max s.blockCount (id + 1) := by
  obtain ⟨blocks, seen, terminated, heq, -, hflags⟩ := ensureCapacity_cases s (id + 1)
  rw [ensureBlockCapacity_eq] at hflags
  have hcount : (growState (id + 1) (current s)).blockCount = s.blockCount := by
    unfold growState
    split <;> rfl
  unfold enterTerminated
  simp only
  generalize growState (id + 1) (current s) = st at hflags hcount
  refine ⟨?_, ?_⟩
  · intro j
    rw [← hflags]
    simp only [flagged, withState]
    split <;> split <;> rfl
  · have hgrown : ∀ n : Nat, n = s.blockCount → (if n ≤ id then id + 1 else n) =
        max s.blockCount (id + 1) := by
      intro n hn
      split <;> omega
    split <;> split <;> simp_all <;> omega

/-- Block `i` ends with a terminator afterwards, and its flags say so. -/
theorem endsMore_terminateBlock (h : Ending r s) (i : Nat) :
    EndsMore r s (terminateBlock r s i) ∧
      ((findBlock s.modules ⟨r, i⟩).isSome → EndsAt (terminateBlock r s i).modules r i) := by
  rw [terminateBlock_eq]
  cases hfound : findBlock s.modules ⟨r, i⟩ with
  | none => exact ⟨.refl h, fun hsome => by cases hsome⟩
  | some blk =>
    have hid : blk.id = i := by
      obtain ⟨f, hf, hget⟩ := bind_eq_some_iff.1 hfound
      exact (h.numbered r f hf).ids i blk hget
    obtain ⟨hflags, hcount⟩ := enterTerminated_flags (r := r) s i blk.id
    simp only
    generalize hst : enterTerminated r i blk.id (current s) = st at hflags hcount
    -- the instructions after the step
    generalize hs₂ : (if hasTerminator blk (current (withState s st)) = true then withState s st
      else appendInst (withState s st) ⟨r, i⟩ (lrInstCreate .unreachable none 0 [])) = s₂
    have hsame : s₂ = withState { s with modules := s₂.modules } st := by
      rw [← hs₂]
      split <;> rfl
    have hkeeps : Keeps (some ⟨r, i⟩) s.modules s₂.modules := by
      rw [← hs₂]
      split
      · exact .refl _ _
      · exact keeps_append ⟨r, i⟩ _
    have hends : EndsAt s₂.modules r i := by
      rw [← hs₂]
      split
      · next hterm =>
        simp only [hasTerminator, Bool.or_eq_true] at hterm
        obtain hflag | hlast := hterm
        · exact h.flags i (hid ▸ (hflags blk.id).symm.trans hflag)
        · exact (endsAt_iff h.numbered).2 ⟨blk, hfound, hlast⟩
      · exact endsAt_append (b := ⟨r, i⟩) h.numbered (by rw [hfound]; rfl) rfl
    have hmore : ∀ j, EndsAt s.modules r j → EndsAt s₂.modules r j := by
      intro j hj
      by_cases hij : j = i
      · rw [hij]
        exact hends
      · refine hkeeps.endsAt h.numbered ?_ hj
        intro heq
        exact hij (congrArg BlockRef.block (Option.some.inj heq))
    have hplaces : ∀ j, (findBlock s₂.modules ⟨r, j⟩).isSome =
        (findBlock s.modules ⟨r, j⟩).isSome := by
      intro j
      rw [← hs₂]
      split
      · rfl
      · refine (congrArg Option.isSome (findBlock_append ⟨r, i⟩ ⟨r, j⟩ _)).trans ?_
        split
        · exact isSome_map
        · rfl
    have hflagNe : ∀ j, j ≠ blk.id →
        flagged (withState s₂ (markTerminated blk.id (current s₂))) j = flagged s j := by
      intro j hj
      refine (flagged_set_ne hj true true s₂.emittedCount).trans ?_
      rw [hsame]
      exact hflags j
    refine ⟨⟨⟨⟨hkeeps.numbered h.numbered, ?_⟩, ?_⟩, hmore, hplaces⟩, fun _ => hends⟩
    · intro j hj
      have hj : max s.blockCount (blk.id + 1) ≤ j := by
        rw [← hcount]
        rw [hsame] at hj
        exact hj
      rw [hflagNe j (by omega)]
      exact h.clean j (by omega)
    · intro j hj
      by_cases hij : j = blk.id
      · rw [hij, hid]
        exact hends
      · rw [hflagNe j hij] at hj
        exact hmore j (h.flags j hj)

/-- The loop over the blocks of a function. -/
theorem endsMore_terminateBlocks (places : List Nat) (h : Ending r s) :
    EndsMore r s (places.foldl (terminateBlock r) s) ∧
      ∀ i ∈ places, (findBlock s.modules ⟨r, i⟩).isSome →
        EndsAt (places.foldl (terminateBlock r) s).modules r i := by
  induction places generalizing s with
  | nil => exact ⟨.refl h, fun i hi => by cases hi⟩
  | cons place rest ih =>
    obtain ⟨hfirst, hplace⟩ := endsMore_terminateBlock h place
    obtain ⟨hrest, hplaces⟩ := ih hfirst.ending
    refine ⟨hfirst.trans hrest, ?_⟩
    intro i hi hsome
    obtain rfl | hi := mem_cons.1 hi
    · exact hrest.ends i (hplace hsome)
    · exact hplaces i hi (by rw [hfirst.places]; exact hsome)

theorem Tracked.ending (h : Tracked s) (hcur : s.curFunc = some r) : Ending r s :=
  ⟨h.toCounted, (h.ofCur hcur).flags⟩

/-- The validation terminates the blocks of the current function, or fails and does nothing. -/
theorem validate_cases (hcur : s.curFunc = some r) :
    validateBlockTermination s = (s, false) ∨ ∃ f, findFunc s.modules r = some f ∧
      validateBlockTermination s =
        ((range f.blocks.length).foldl (terminateBlock r) s, true) := by
  unfold validateBlockTermination
  simp only [hcur]
  cases hfunc : findFunc s.modules r with
  | none => exact .inl rfl
  | some f =>
    simp only
    split
    · exact .inl rfl
    · exact .inr ⟨f, rfl, rfl⟩

theorem Tracked.validatesEnded (h : Tracked s) : ValidatesEnded s := by
  intro hok r hcur f' hf' blk hblk
  obtain hfailed | ⟨f, hf, hrun⟩ := validate_cases (s := s) (r := r) hcur
  · rw [hfailed] at hok
    cases hok
  · obtain ⟨hmore, hplaces⟩ :=
      endsMore_terminateBlocks (range f.blocks.length) (h.ending hcur)
    rw [hrun] at hf'
    obtain ⟨p, hp⟩ := mem_iff_getElem?.1 hblk
    have hfound : findBlock ((range f.blocks.length).foldl (terminateBlock r) s).modules
        ⟨r, p⟩ = some blk := bind_eq_some_iff.2 ⟨f', hf', hp⟩
    have hsome : (findBlock s.modules ⟨r, p⟩).isSome := by
      rw [← hmore.places p, hfound]
      rfl
    have hlength : p < f.blocks.length := by
      obtain ⟨blk₀, hblk₀⟩ := isSome_iff_exists.1 hsome
      obtain ⟨g, hg, hget⟩ := bind_eq_some_iff.1 hblk₀
      obtain rfl : f = g := Option.some.inj (hf.symm.trans hg)
      exact (List.getElem?_eq_some_iff.1 hget).1
    have hends := hplaces p (mem_range.2 hlength) hsome
    obtain ⟨blk', hblk', hterm⟩ := (endsAt_iff hmore.ending.numbered).1 hends
    obtain rfl : blk = blk' := Option.some.inj (hfound.symm.trans hblk')
    exact hterm

theorem Tracked.validated (h : Tracked s) : Counted (validateBlockTermination s).1 := by
  cases hcur : s.curFunc with
  | none =>
    simp only [validateBlockTermination, hcur]
    exact h.toCounted
  | some r =>
    obtain hfailed | ⟨f, -, hrun⟩ := validate_cases hcur
    · rw [hfailed]
      exact h.toCounted
    · rw [hrun]
      exact (endsMore_terminateBlocks _ (h.ending hcur)).1.ending.toCounted

end Termination

section FuncCalls
variable {env : ModeEnv} {s s' : LrSession} {r : FuncRef}

theorem getD_reset (flags : List Bool) (n i : Nat) :
    ((replicate (min n flags.length) false ++ flags.drop n)[i]?).getD false =
      if i < n then false else (flags[i]?).getD false := by
  rw [getElem?_append, length_replicate, getElem?_replicate, getElem?_drop]
  by_cases hi : i < n
  · rw [if_pos hi]
    by_cases hlen : i < flags.length
    · rw [if_pos (by omega), if_pos (by omega)]
      rfl
    · rw [if_neg (by omega), getElem?_eq_none (by omega)]
      rfl
  · rw [if_neg hi, if_neg (by omega)]
    by_cases hlen : i < flags.length
    · rw [show n + (i - min n flags.length) = i by omega]
    · rw [getElem?_eq_none (by omega), getElem?_eq_none (by omega)]

/-- A function that is left leaves no flag. -/
theorem Counted.finish (h : Counted s) : Tracked (finishFunctionState s) := by
  have hcore := core_finish s
  have hmodules : (finishFunctionState s).modules = s.modules := congrArg Core.modules hcore
  have hcur : (finishFunctionState s).curFunc = none := congrArg Core.curFunc hcore
  have hcount : (finishFunctionState s).blockCount = 0 := congrArg Core.blockCount hcore
  have hactive : (finishFunctionState s).compileActive = false := congrArg Core.compileActive hcore
  have hflag : ∀ i, flagged (finishFunctionState s) i = false := by
    intro i
    have hseen := congrArg Core.blockSeen hcore
    have hterminated := congrArg Core.blockTerminated hcore
    simp only [core] at hseen hterminated
    simp only [flagged, hseen, hterminated, getD_reset]
    by_cases hi : i < s.blockCount
    · simp only [if_pos hi, Bool.and_false]
    · simp only [if_neg hi]
      exact h.clean i (Nat.le_of_not_lt hi)
  refine ⟨⟨?_, fun i _ => hflag i⟩, fun _ => hcount, ?_, ?_⟩
  · rw [hmodules]
    exact h.numbered
  · intro htrue
    rw [hactive] at htrue
    cases htrue
  · intro q hq
    rw [hcur] at hq
    cases hq

theorem Counted.edit (h : Counted s) (hnum : ModulesNumbered s.modules → ModulesNumbered ms) :
    Counted { s with modules := ms } :=
  ⟨hnum h.numbered, h.clean⟩

theorem Counted.jit (h : Counted s) (j : Source.Jit.LrJit) : Counted { s with jit := j } :=
  ⟨h.numbered, h.clean⟩

theorem numbered_markDecl (s : LrSession) (r : FuncRef) (h : ModulesNumbered s.modules) :
    ModulesNumbered (markDecl s r).modules :=
  numbered_change (changesFunc_updateFunc r.func _) (fun _ hg => numbered_of_blocks hg rfl rfl) h

theorem numbered_keepInsts {f : LrFunc} (keep : LrBlock → List LrInst) (h : Numbered f) :
    Numbered (keepInsts keep f) := by
  refine ⟨?_, ?_⟩
  · simp only [keepInsts, length_map]
    exact h.count
  · intro i b hb
    simp only [keepInsts, getElem?_map] at hb
    obtain ⟨b', hget, rfl⟩ := map_eq_some_iff.1 hb
    exact h.ids i b' hget

theorem Counted.setDecls (h : Counted s) (places : List Nat) (isDecl : Bool) :
    Counted (setDecls s places isDecl) := by
  refine h.edit ?_
  intro hnum q g hg
  have hg : findFunc _ q = some g := hg
  rw [findFunc_modify] at hg
  split at hg
  · obtain ⟨m, hm, hget⟩ := bind_eq_some_iff.1 hg
    obtain ⟨m', hm', rfl⟩ := map_eq_some_iff.1 hm
    simp only [getElem?_mapIdx] at hget
    obtain ⟨g', hget', rfl⟩ := map_eq_some_iff.1 hget
    have hold : Numbered g' := hnum q g' (bind_eq_some_iff.2 ⟨m', hm', hget'⟩)
    split
    · exact numbered_of_blocks hold rfl rfl
    · exact hold
  · exact hnum q g hg

/-- What compiling the current function does to the blocks of the module. -/
theorem Counted.compileCurrent (h : Counted s) (outAddr : Bool) :
    Counted (compileCurrentFunction env s outAddr).1 := by
  unfold compileCurrentFunction
  split
  · exact h
  · next r hcur =>
    split
    · next m f hm hf =>
      split
      · exact h
      · next keep hkeep =>
        have hkept : Counted (updateFuncRef s r (keepInsts keep)) :=
          h.edit (numbered_change (changesFunc_updateFunc r.func _)
            fun _ => numbered_keepInsts keep)
        simp only
        generalize updateFuncRef s r (keepInsts keep) = s₁ at hkept
        split
        · exact hkept
        · have hadded : ∀ (places : List Nat) (j : Source.Jit.LrJit),
              Counted { Modes.setDecls s₁ places true with jit := j } :=
            fun places j => (hkept.setDecls places true).jit j
          split
          · exact (hadded _ _).setDecls _ false
          · refine Counted.jit ?_ _
            split
            · exact (hadded _ _).setDecls _ false
            · exact (hadded _ _).edit (numbered_markDecl _ r)
    · exact h

theorem Counted.finishDirect (h : Counted s) : Counted (finishDirectCompile env.direct s).1 := by
  cases hcur : s.curFunc with
  | none =>
    simp only [finishDirectCompile, hcur]
    exact h
  | some r =>
    obtain ⟨ms, objs, active, deferred, hms, hcore⟩ := core_finishDirectCompile env.direct s hcur
    have hnum : ModulesNumbered ms := by
      obtain rfl | rfl := hms
      · exact h.numbered
      · exact numbered_markDecl s r h.numbered
    have hedit : Counted { s with
        modules := ms, objCtxModules := objs, compileActive := active
        compileDeferred := deferred } := ⟨hnum, h.clean⟩
    exact hedit.congr hcore

theorem tracked_funcEnd (h : Tracked s) (outAddr : Bool) :
    Tracked (Modes.lrSessionFuncEnd env s outAddr).1 := by
  have hvalidated := h.validated
  unfold Modes.lrSessionFuncEnd
  split
  · exact h
  · split
    · exact h.toCounted.finish
    · simp only
      split
      · next hok =>
        rw [validate_failed (by simpa using hok)]
        exact h
      · refine Counted.finish ?_
        split
        · exact hvalidated.finishDirect
        · exact hvalidated.compileCurrent outAddr

/-- A function that begins finds no flag, no entry and no current block. -/
theorem Tracked.reset (h : Tracked s) (hidle : s.curFunc = none) (hnum : ModulesNumbered ms)
    (module : Nat) (r : FuncRef) :
    Tracked (resetBuild { s with modules := ms, module := module } r) := by
  have hclean : ∀ i, flagged s i = false := fun i => h.clean i (by rw [h.idle hidle]; omega)
  refine ⟨⟨hnum, fun i _ => hclean i⟩, ?_, ?_, ?_⟩
  · intro hnone
    cases hnone
  · intro hactive
    cases hactive
  · intro q hq
    refine ⟨fun i hi => absurd hi (Nat.not_lt_zero i), ?_, fun b hb => by cases hb⟩
    intro i hi
    have hi : flagged s i = true := hi
    rw [hclean i] at hi
    cases hi

theorem ensureReady_core (h : Modes.ensureRuntimeAndGlobalsReady env s = some out) :
    core out.1 = core s := by
  unfold Modes.ensureRuntimeAndGlobalsReady at h
  simp only at h
  split at h
  · cases h
    rfl
  · exact (core_ensureReady env.direct _ h).trans rfl

/-- A compilation that begins is deferred and has the object context of the module. -/
theorem beginDirect_tracked (env : ModeEnv) (h : Tracked s) (hcur : s.curFunc = some r) :
    Counted (Modes.beginDirectCompile env s).1 ∧
      ((Modes.beginDirectCompile env s).2 = true → Tracked (Modes.beginDirectCompile env s).1) := by
  unfold Modes.beginDirectCompile
  simp only [hcur, isNone_some]
  cases env.policy with
  | ir => exact ⟨h.toCounted, fun _ => h⟩
  | directLlvm available => exact ⟨h.toCounted, fun _ => h⟩
  | direct canCompile =>
    cases canCompile with
    | false => exact ⟨h.toCounted, fun _ => h⟩
    | true =>
      obtain ⟨-, hcore⟩ | ⟨hfailed, hcore⟩ := core_beginDirectCompile s hcur
      · have hset : Tracked { setObjCtx s with compileActive := true, compileDeferred := true } :=
          ⟨⟨h.numbered, h.clean⟩, h.idle, fun _ => ⟨rfl, mem_cons_self⟩, fun q hq =>
            ⟨(h.built q hq).entries, (h.built q hq).flags, (h.built q hq).curBlock⟩⟩
        exact ⟨(hset.congr hcore).toCounted, fun _ => hset.congr hcore⟩
      · have hcleared : Counted (clearObjCtx (setObjCtx s)) := ⟨h.numbered, h.clean⟩
        exact ⟨hcleared.congr hcore, fun hok => absurd (hfailed.symm.trans hok) (by simp)⟩

theorem tracked_startCompile {onError : LrSession → LrSession} (h : Tracked s)
    (hcur : s.curFunc = some r) (honError : ∀ s, Counted s → Counted (onError s))
    (hrun : Modes.startCompile env s onError = some out) : Tracked out.1 := by
  obtain ⟨⟨s₁, ok⟩, hready, hrun⟩ := bind_eq_some_iff.1 hrun
  have hcore : core s₁ = core s := ensureReady_core hready
  have htracked : Tracked s₁ := h.congr hcore
  have hcur₁ : s₁.curFunc = some r := (congrArg Core.curFunc hcore).trans hcur
  cases ok with
  | false =>
    cases hrun
    exact (honError s₁ htracked.toCounted).finish
  | true =>
    obtain ⟨hcounted, hbegun⟩ := beginDirect_tracked env htracked hcur₁
    simp only [Bool.not_true, Bool.false_eq_true, if_false] at hrun
    split at hrun
    · next hok =>
      cases hrun
      exact hbegun hok
    · cases hrun
      exact (honError _ hcounted).finish

variable {params : List LrType}

/-- A new function has no blocks yet. -/
theorem numbered_create {i : Nat} {m m' : LrModule} {f : LrFunc} {name : CStr} {ret : LrType} {vararg : Bool} (hms : ModulesNumbered ms) (hm : ms[i]? = some m)
    (h : lrFuncCreate m name ret params vararg = some (m', f)) :
    ModulesNumbered (ms.set i m') := by
  obtain ⟨⟨symbols, symbolId⟩, -, h⟩ := bind_eq_some_iff.1 h
  cases h
  intro r g hg
  obtain ⟨m₁, hm₁, hget⟩ := bind_eq_some_iff.1 hg
  rw [getElem?_set] at hm₁
  split at hm₁
  · next hi =>
    subst hi
    split at hm₁
    · cases hm₁
      simp only [getElem?_append] at hget
      split at hget
      · exact hms r g (bind_eq_some_iff.2 ⟨m, hm, hget⟩)
      · obtain hmem := mem_of_getElem? hget
        obtain rfl := mem_singleton.1 hmem
        exact ⟨rfl, fun i b hb => by simp at hb⟩
    · cases hm₁
  · exact hms r g (bind_eq_some_iff.2 ⟨m₁, hm₁, hget⟩)

theorem tracked_funcBegin {name : CStr} {ret : Option LrType} {vararg : Bool}
    (h : Tracked s) (hrun : Modes.lrSessionFuncBegin env s name ret params vararg = some out) :
    Tracked out.1 := by
  unfold Modes.lrSessionFuncBegin at hrun
  split at hrun
  · cases hrun
    exact h
  · split at hrun
    · cases hrun
      exact h
    · next hcur =>
      have hidle : s.curFunc = none := by simpa using hcur
      split at hrun
      · cases hrun
        exact h
      · next m hm =>
        obtain ⟨⟨m', f⟩, hcreate, hrun⟩ := bind_eq_some_iff.1 hrun
        have hreset := h.reset hidle (numbered_create h.numbered hm hcreate) s.module
          ⟨s.module, m.funcs.length⟩
        exact tracked_startCompile hreset rfl
          (fun s hs => hs.edit (numbered_markDecl s _)) hrun

theorem tracked_funcBeginExisting (h : Tracked s)
    (hrun : Modes.lrSessionFuncBeginExisting env s module r = some out) : Tracked out.1 := by
  unfold Modes.lrSessionFuncBeginExisting at hrun
  split at hrun
  · split at hrun
    · cases hrun
      exact h
    · next hcur =>
      have hidle : s.curFunc = none := by simpa using hcur
      exact tracked_startCompile (h.reset hidle h.numbered module r) rfl (fun s hs => hs) hrun
  · cases hrun
    exact h

end FuncCalls

section Runs
variable {env : ModeEnv} {s s' : LrSession}

theorem tracked_create (jit : Source.Jit.LrJit) (module : Nat) (hnum : ModulesNumbered modules) :
    Tracked (lrSessionCreate jit modules module) := by
  refine ⟨⟨hnum, fun _ _ => rfl⟩, fun _ => rfl, ?_, ?_⟩
  · intro hactive
    cases hactive
  · intro r hr
    cases hr

/-- What a call that takes over nothing of another function keeps. -/
theorem tracked_call (c : BlockCall) (h : Tracked s) (hown : TakesOwn s c)
    (hcall : blockCall env s c = some s') : Tracked s' := by
  cases c with
  | funcBegin name ret params vararg =>
    obtain ⟨out, hrun, rfl⟩ := map_eq_some_iff.1 hcall
    exact tracked_funcBegin h hrun
  | funcBeginExisting module r =>
    obtain ⟨out, hrun, rfl⟩ := map_eq_some_iff.1 hcall
    exact tracked_funcBeginExisting h hrun
  | bindIr module r b =>
    cases hcall
    exact tracked_bindIr h module r b hown
  | block =>
    cases hcall
    exact tracked_block h
  | setBlock id =>
    obtain ⟨s₁, ok, hrun, htracked⟩ := setBlock_tracked h id
    obtain ⟨out, hout, rfl⟩ := map_eq_some_iff.1 hcall
    cases hrun.symm.trans hout
    exact htracked
  | adoptBlock id b =>
    obtain ⟨s₁, ok, hrun, htracked⟩ := adoptBlock_tracked h id b hown
    obtain ⟨out, hout, rfl⟩ := map_eq_some_iff.1 hcall
    cases hrun.symm.trans hout
    exact htracked
  | emit inst =>
    obtain ⟨s₁, dest, hrun, htracked⟩ := emit_tracked h inst
    obtain ⟨out, hout, rfl⟩ := map_eq_some_iff.1 hcall
    cases hrun.symm.trans hout
    exact htracked
  | funcEnd outAddr =>
    cases hcall
    exact tracked_funcEnd h outAddr

variable {jit : Source.Jit.LrJit} {calls : List BlockCall}

theorem tracked_run
    (hnum : ModulesNumbered modules)
    (hown : Along (blockCall env) TakesOwn (lrSessionCreate jit modules module) calls)
    (hrun : runCalls env (lrSessionCreate jit modules module) calls = some s) : Tracked s :=
  runSteps_along (fun _ c _ => tracked_call c) calls (tracked_create jit module hnum) hown hrun

/-- In a run that takes over nothing of another function the table is the current
function's own, and a validated function is terminated. -/
theorem tableOwn_of_run (env : ModeEnv) (jit : Source.Jit.LrJit) (modules : List LrModule)
    (module : Nat) (calls : List BlockCall) (s : LrSession) (hnum : ModulesNumbered modules)
    (hown : Along (blockCall env) TakesOwn (lrSessionCreate jit modules module) calls)
    (hrun : runCalls env (lrSessionCreate jit modules module) calls = some s) :
    TableOwn s ∧ ValidatesEnded s :=
  have htracked := tracked_run hnum hown hrun
  ⟨fun r hr => (htracked.built r hr).entries, htracked.validatesEnded⟩

/-- A session that keeps its functions until they are looked up. -/
def irEnv : ModeEnv where
  direct :=
    { jit := { host := { libs := [], process := ⟨fun _ => 0, fun _ => 0⟩ }
               compile := fun _ _ _ => none }
      stream := fun _ _ _ => ⟨[], none⟩ }
  policy := .ir
  preload := fun j => (j, true)
  finalize := fun _ => some fun b => b.insts
  addModule := fun j _ => (j, true)
  getFunction := fun j _ => (j, 4096)

def newModule : LrModule := { builtin := lrModuleCreateTypes 100, nextAddr := 132 }

def newJit : Source.Jit.LrJit :=
  { codeBuf := 4096, codeCap := 4096, dataBuf := 0, dataCap := 4096 }

theorem numbered_newModule : ModulesNumbered [newModule] := by
  intro r f hf
  obtain ⟨m, hm, hget⟩ := bind_eq_some_iff.1 hf
  obtain rfl := mem_singleton.1 (mem_of_getElem? hm)
  cases hget

def funcG : FuncRef := ⟨0, 0⟩

def retVoid : InstDesc := { op := .retVoid, type := none }

/-- `g` gets two blocks and ends; `f` begins and returns in its first block. -/
def twoFunctions : List BlockCall :=
  [.funcBegin [103] none [] false, .setBlock 1, .funcEnd false,
    .funcBegin [102] none [] false, .setBlock 0, .emit retVoid]

/-- `f` ends before the blocks of `g` are bound and adopted one after the other. -/
def inOrder : List BlockCall :=
  twoFunctions ++
    [.funcEnd false, .bindIr 0 funcG ⟨funcG, 0⟩, .adoptBlock 1 ⟨funcG, 1⟩, .emit retVoid]

theorem inOrder_own : ∃ s, runCalls irEnv (lrSessionCreate newJit [newModule] 0) inOrder = some s ∧
    s.curFunc = some funcG ∧ s.blockCount = 2 ∧ TableOwn s ∧ ValidatesEnded s := by
  have hbuilt : (runCalls irEnv (lrSessionCreate newJit [newModule] 0) inOrder).any
      (fun s => s.curFunc = some funcG ∧ s.blockCount = 2) = true := by decide +kernel
  obtain ⟨s, hrun, hs⟩ := (any_eq_true _ _).1 hbuilt
  obtain ⟨hcur, hcount⟩ : s.curFunc = some funcG ∧ s.blockCount = 2 := by simpa using hs
  exact ⟨s, hrun, hcur, hcount, tableOwn_of_run irEnv newJit [newModule] 0 inOrder s
    numbered_newModule (by decide +kernel) hrun⟩

/-- The second block of `g` is bound while `f` is current: the first block of `f` and its
flags count as those of `g`. -/
theorem bindIr_takes_stale : ModulesNumbered [newModule] ∧
    ∃ s, runCalls irEnv (lrSessionCreate newJit [newModule] 0)
        (twoFunctions ++ [.bindIr 0 funcG ⟨funcG, 1⟩]) = some s ∧
      ¬ TableOwn s ∧ ¬ ValidatesEnded s := by
  have hstale : (runCalls irEnv (lrSessionCreate newJit [newModule] 0)
      (twoFunctions ++ [.bindIr 0 funcG ⟨funcG, 1⟩])).any
      (fun s => ¬ TableOwn s ∧ ¬ ValidatesEnded s) = true := by decide +kernel
  obtain ⟨s, hrun, hs⟩ := (any_eq_true _ _).1 hstale
  exact ⟨numbered_newModule, s, hrun, by simpa using hs⟩

end Runs

end Liric.Guarantees.BlockTables
