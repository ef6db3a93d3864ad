import Liric.Guarantees.CollisionRuns

/-!
# The flag that asks for a scan

A module that is not to be scanned again has no definition that a scan would rename, as long
as every call that makes a definition of a declaration says so. The first block of a function
and the body that a merge copies into a declaration do not, and neither does a merge that gives
a global a function type. A pass that makes up a name in use leaves a conflict behind itself.
-/
namespace Liric.Guarantees.CollisionFlag
open Source.Ir SymbolInterning ModuleMerge List Option
open FunctionCollisions (any_symChain calls_match_iff globals_match_iff)
open CollisionRuns
open Lib (Along runSteps runSteps_along)

variable {f' sf : LrFunc} {d d' src : LrModule} {name : CStr} {ret : LrType} {params : List LrType}
  {symbolRemap : List Nat} {inst : LrInst} {func : Nat}

/-- The calls of the runs of one module, and merges of other modules into it. -/
inductive Edit where
  | call (c : Call)
  | merge (src : LrModule)

def step (m : LrModule) : Edit → Option LrModule
  | .call c => CollisionRuns.step m c
  | .merge src => lrModuleMerge m src

/-- A module without functions, globals and symbols. -/
def lrModuleCreate (addr nextAddr : Nat) : LrModule where
  builtin := lrModuleCreateTypes addr
  nextAddr := nextAddr

def toScan (m : LrModule) : LrModule := { m with localFunctionCollisionScanDirty := true }

/-- A full scan leaves every function as it is. -/
def RenamesNothing (m : LrModule) : Prop :=
  ∀ m', lrModuleDisambiguateLocalFunctionCollisions (toScan m) = some m' → m'.funcs = m.funcs

/-- Whatever names the function has its signature. -/
structure Unopposed (m : LrModule) (f : LrFunc) : Prop where
  funcs : ∀ g ∈ m.funcs, g.symbolId = f.symbolId → irFuncSignaturesMatch f g = true
  globals : ∀ g ∈ m.globals, g.isFuncTyped = true → g.name = f.name →
    irFuncTypeMatchesFunc g.type f = true
  calls : ∀ inst ∈ m.insts, inst.directCallee = some f.symbolId →
    irCallSignatureMatchesFunc inst f = true

def Quiet (m : LrModule) : Prop :=
  ∀ f ∈ m.funcs, f.name ≠ [] → f.isDefinition = true → Unopposed m f

section Scan
variable {m : LrModule} {symbols : SymbolTable} {entries : List (Nat × LrGlobal)} {f : LrFunc}
  {place : Nat}

theorem function_conflict_iff (hf : m.funcs[place]? = some f) :
    ((funcEntries m).any fun e => e.1 == f.symbolId &&
        (e.2.1 != place && !irFuncSignaturesMatch f e.2.2)) = false ↔
      ∀ g ∈ m.funcs, g.symbolId = f.symbolId → irFuncSignaturesMatch f g = true := by
  rw [List.any_eq_false]
  constructor
  · intro hnone g hg hid
    obtain ⟨j, hj⟩ := getElem?_of_mem hg
    by_cases hplace : j = place
    · subst hplace
      obtain rfl : g = f := Option.some.inj (hj.symm.trans hf)
      exact irFuncSignaturesMatch_self g
    · have hentry : (g.symbolId, j, g) ∈ funcEntries m :=
        mem_map.2 ⟨(g, j), mem_zipIdx_iff_getElem?.2 hj, rfl⟩
      simpa [hid, hplace] using hnone _ hentry
  · intro hall e he hconflict
    obtain ⟨⟨g, j⟩, hg, rfl⟩ := mem_map.1 he
    obtain ⟨hid, hdiffer⟩ := Bool.and_eq_true_iff.1 hconflict
    have hmem := mem_of_getElem? (mem_zipIdx_iff_getElem?.1 hg)
    simp [hall g hmem (beq_iff_eq.1 hid)] at hdiffer

/-- A scan renames the definitions with a name that something opposes. -/
theorem isRenamed_iff (hm : Sound m)
    (hentries : globalEntries m.globals m.symbols = some (symbols, entries))
    (hf : m.funcs[place]? = some f) : isRenamed m entries f place = false ↔
      (f.name ≠ [] → f.isDefinition = true → Unopposed m f) := by
  obtain ⟨hgrown, hentered⟩ := globalEntries_run hm.symbols hm.bound hentries
  have hinterned := symbolName_of_extends hgrown.extends'
    (hm.interned f (mem_of_getElem? hf))
  by_cases hname : f.name = []
  · simp [isRenamed, hname]
  by_cases hdef : f.isDefinition = true
  · have hconflict : hasConflict m entries f place = false ↔ Unopposed m f := by
      rw [hasConflict, any_symChain, any_symChain, any_symChain, Bool.or_eq_false_iff,
        Bool.or_eq_false_iff, function_conflict_iff hf,
        globals_match_iff hgrown.wellFormed hentered hinterned hname, calls_match_iff]
      exact ⟨fun h => ⟨h.1.1, h.1.2, h.2⟩, fun h => ⟨⟨h.funcs, h.globals⟩, h.calls⟩⟩
    simp [isRenamed, hname, hdef, hconflict]
  · simp [isRenamed, hdef]

theorem sound_toScan (hm : Sound m) : Sound (toScan m) :=
  ⟨hm.symbols, hm.bound, hm.interned⟩

theorem Quiet.scanned (hm : Quiet m) : Quiet (toScan m) := by
  intro f hf hname hdef
  obtain ⟨funcs, globals, calls⟩ := hm f hf hname hdef
  exact ⟨funcs, globals, calls⟩

theorem Quiet.renamesNothing (hquiet : Quiet m) (hm : Sound m) : RenamesNothing m := by
  intro m' hrun
  have hfull := hrun
  simp only [lrModuleDisambiguateLocalFunctionCollisions] at hrun
  rw [if_neg (by simp [toScan])] at hrun
  obtain ⟨⟨symbols, entries⟩, hentries, -⟩ := bind_eq_some_iff.1 hrun
  have hkept : ∀ p ∈ (toScan m).funcs.zipIdx 0,
      isRenamed (toScan m) entries p.1 p.2 = false := by
    intro p hp
    have hget := mem_zipIdx_iff_getElem?.1 hp
    exact (isRenamed_iff (sound_toScan hm) hentries hget).2
      (hquiet.scanned p.1 (mem_of_getElem? hget))
  obtain ⟨m'', hrun', hfuncs⟩ :=
    (FunctionCollisions.unchanged_iff (m := toScan m) rfl hentries).2 hkept
  obtain rfl : m' = m'' := Option.some.inj (hfull.symm.trans hrun')
  exact hfuncs

theorem inConflict_iff (hm : Sound m) (hscanned : ∃ r, globalEntries m.globals m.symbols = some r)
    (hf : m.funcs[place]? = some f) : inConflict m f place = false ↔
      (f.name ≠ [] → f.isDefinition = true → Unopposed m f) := by
  obtain ⟨⟨symbols, entries⟩, hentries⟩ := hscanned
  rw [inConflict, hentries, any_some]
  exact isRenamed_iff hm hentries hf

end Scan

/-- No function has the name, no global of a function type has it, and no call goes to it or
to a number without a symbol. -/
structure Untaken (m : LrModule) (name : CStr) : Prop where
  funcs : ∀ f ∈ m.funcs, f.name ≠ name
  globals : ∀ g ∈ m.globals, g.isFuncTyped = true → g.name ≠ name
  calls : ∀ inst ∈ m.insts, ∀ id ∈ inst.directCallee,
    ∃ callee ∈ lrModuleSymbolName m.symbols id, callee ≠ name

/-- The names that a pass makes up are not taken. -/
def FreshNames (m : LrModule) : Prop :=
  ∀ place f, Conflict m place f → Untaken m (newName f (conflictsBefore m place))

theorem funcType_of_same {f : LrFunc} (h : SameSignature f f') (type : Option LrType) :
    irFuncTypeMatchesFunc type f' = irFuncTypeMatchesFunc type f := by
  unfold irFuncTypeMatchesFunc
  rw [h.retType, h.paramTypes, h.vararg]

/-- Another callee changes nothing of the signature. -/
theorem callMatches_setCallee (inst : LrInst) (symId : Nat) (f : LrFunc) :
    irCallSignatureMatchesFunc (inst.setCallee symId) f = irCallSignatureMatchesFunc inst f := by
  have hdrop : (inst.setCallee symId).operands.drop 1 = inst.operands.drop 1 := by
    cases hoperands : inst.operands <;> simp [LrInst.setCallee, hoperands]
  have hop : (inst.setCallee symId).op = inst.op := rfl
  have htype : (inst.setCallee symId).type = inst.type := rfl
  unfold irCallSignatureMatchesFunc
  rw [hdrop, hop, htype]

section Pass
variable {m m' : LrModule} {place place' : Nat} {f g : LrFunc}

theorem pass_kept (hrun : lrModuleDisambiguateLocalFunctionCollisions m = some m') :
    m'.globals = m.globals ∧ m'.builtin = m.builtin := by
  rw [lrModuleDisambiguateLocalFunctionCollisions] at hrun
  split at hrun
  · cases hrun
    exact ⟨rfl, rfl⟩
  · obtain ⟨⟨symbols, globals⟩, -, hrun⟩ := bind_eq_some_iff.1 hrun
    obtain ⟨⟨symbols', renames, funcs⟩, -, hrun⟩ := bind_eq_some_iff.1 hrun
    cases hrun
    exact ⟨rfl, rfl⟩

/-- Functions under one symbol have one name. -/
theorem name_eq_of_symbolId (hm : Sound m) (hf : f ∈ m.funcs) (hg : g ∈ m.funcs)
    (hid : g.symbolId = f.symbolId) : g.name = f.name := by
  have hname := hm.interned g hg
  rw [hid, hm.interned f hf] at hname
  exact (Option.some.inj hname).symm

/-- A call after a pass is a call before it, or it goes to a renamed function that it
matches. -/
theorem pass_of_call (h : Pass m m') {inst' : LrInst} (hinst : inst' ∈ m'.insts) :
    inst' ∈ m.insts ∨ ∃ place f inst, Conflict m place f ∧
      irCallSignatureMatchesFunc inst f = true ∧ inst.directCallee = some f.symbolId ∧
        inst' = inst.setCallee (funcAfterPass m m'.symbols (f, place)).symbolId := by
  rw [h.insts] at hinst
  obtain ⟨inst, hmem, rfl⟩ := mem_map.1 hinst
  obtain ⟨hsame, -⟩ | ⟨r, hr, hcallee, hmatch, hset⟩ :=
    retargetCall_spec (renameEntries m m'.symbols m.funcs.zipIdx) inst
  · left
    rw [callAfterPass, hsame]
    exact hmem
  · right
    obtain ⟨⟨f, place⟩, hentry, rfl⟩ := mem_map.1 hr
    obtain ⟨hget, hfound⟩ := mem_filter.1 hentry
    rw [(afterPass_same m m'.symbols f place).call] at hmatch
    exact ⟨place, f, inst, ⟨mem_zipIdx_iff_getElem?.1 hget, hfound⟩, hmatch, hcallee, hset⟩

/-- A renamed function is the only one with its name and its symbol. -/
theorem pass_place_of_symbol (h : Pass m m') (hm : Sound m) (hfresh : FreshNames m)
    (hf : Conflict m place f) (hg : m.funcs[place']? = some g)
    (hid : (funcAfterPass m m'.symbols (g, place')).symbolId =
      (funcAfterPass m m'.symbols (f, place)).symbolId) : place' = place := by
  have hname := name_eq_of_symbolId (h.sound hm) (mem_of_getElem? (h.getElem? hf.func))
    (mem_of_getElem? (h.getElem? hg)) hid
  exact Pass.place_of_name hf (hfresh place f hf).funcs hg hname

section
variable (h : Pass m m') (hm : Sound m) (hglobals : m'.globals = m.globals) (hfresh : FreshNames m)
include h hm hglobals hfresh

theorem pass_unopposed_renamed (hf : Conflict m place f) :
    Unopposed m' (funcAfterPass m m'.symbols (f, place)) := by
  have huntaken := hfresh place f hf
  have hname := funcAfterPass_renamed m'.symbols hf.found
  have hsame := funcAfterPass_same m m'.symbols f place
  refine ⟨?_, ?_, ?_⟩
  · intro g' hg' hid
    obtain ⟨place', hplace'⟩ := getElem?_of_mem hg'
    obtain ⟨g, hg, rfl⟩ := h.of_getElem? hplace'
    obtain rfl := pass_place_of_symbol h hm hfresh hf hg hid
    obtain rfl : f = g := Option.some.inj (hf.func.symm.trans hg)
    exact irFuncSignaturesMatch_self _
  · intro g hg htyped hgname
    rw [hname] at hgname
    rw [hglobals] at hg
    exact absurd hgname (huntaken.globals g hg htyped)
  · intro inst' hinst' hcallee
    obtain hold | ⟨place', g, inst, hg, hmatch, hto, rfl⟩ := pass_of_call h hinst'
    · obtain ⟨callee, hknown, hne⟩ := huntaken.calls inst' hold _ hcallee
      have hinterned := (h.sound hm).interned _ (mem_of_getElem? (h.getElem? hf.func))
      rw [symbolName_of_extends h.grown.extends' hknown, hname] at hinterned
      exact absurd (Option.some.inj hinterned) hne
    · rw [directCallee_setCallee hto] at hcallee
      obtain rfl := pass_place_of_symbol h hm hfresh hf hg.func (Option.some.inj hcallee)
      obtain rfl : f = g := Option.some.inj (hf.func.symm.trans hg.func)
      rw [callMatches_setCallee, hsame.call]
      exact hmatch

theorem pass_unopposed_kept (hf : m.funcs[place]? = some f) (hkept : ¬ inConflict m f place = true)
    (hquiet : Unopposed m f) :
    Unopposed m' (funcAfterPass m m'.symbols (f, place)) := by
  have hsame := funcAfterPass_same m m'.symbols f place
  obtain ⟨hname, hid⟩ := funcAfterPass_kept m'.symbols hkept
  -- no renamed function has come under the symbol
  have hother : ∀ place' g, Conflict m place' g →
      (funcAfterPass m m'.symbols (g, place')).symbolId ≠ f.symbolId := by
    intro place' g hg hsymbol
    obtain rfl := pass_place_of_symbol h hm hfresh hg hf (hid.trans hsymbol.symm)
    obtain rfl : f = g := Option.some.inj (hf.symm.trans hg.func)
    exact hkept hg.found
  refine ⟨?_, ?_, ?_⟩
  · intro g' hg' hsymbol
    obtain ⟨place', hplace'⟩ := getElem?_of_mem hg'
    obtain ⟨g, hg, rfl⟩ := h.of_getElem? hplace'
    rw [hid] at hsymbol
    by_cases hfound : inConflict m g place' = true
    · exact absurd hsymbol (hother place' g ⟨hg, hfound⟩)
    · rw [(funcAfterPass_kept m'.symbols hfound).2] at hsymbol
      rw [hsame.funcs (funcAfterPass_same m m'.symbols g place')]
      exact hquiet.funcs g (mem_of_getElem? hg) hsymbol
  · intro g hg htyped hgname
    rw [hglobals] at hg
    rw [hname] at hgname
    rw [funcType_of_same hsame]
    exact hquiet.globals g hg htyped hgname
  · intro inst' hinst' hcallee
    rw [hid] at hcallee
    rw [hsame.call]
    obtain hold | ⟨place', g, inst, hg, -, hto, rfl⟩ := pass_of_call h hinst'
    · exact hquiet.calls inst' hold hcallee
    · rw [directCallee_setCallee hto] at hcallee
      exact absurd (Option.some.inj hcallee) (hother place' g hg)

/-- A pass whose names are not taken leaves nothing for another one. -/
theorem pass_quiet : Quiet m' := by
  intro f' hf' hne hdef
  obtain ⟨place, hplace⟩ := getElem?_of_mem hf'
  obtain ⟨f, hf, rfl⟩ := h.of_getElem? hplace
  by_cases hfound : inConflict m f place = true
  · exact pass_unopposed_renamed h hm hglobals hfresh ⟨hf, hfound⟩
  · have hsame := funcAfterPass_same m m'.symbols f place
    rw [(funcAfterPass_kept m'.symbols hfound).1] at hne
    rw [hsame.isDefinition] at hdef
    exact pass_unopposed_kept h hm hglobals hfresh hf hfound
      ((inConflict_iff hm h.scanned hf).1 (by simpa using hfound) hne hdef)

end

end Pass

/-- The merge creates a global or a function. -/
def AddsName (dest src : LrModule) : Prop :=
  (∃ sg ∈ src.globals, ∀ dg ∈ dest.globals, dg.name ≠ sg.name) ∨
    ∃ sf ∈ src.funcs, ∀ df ∈ dest.funcs, df.name ≠ sf.name

/-- A global of the destination is given a function type. -/
def TakesOver (dest src : LrModule) : Prop :=
  ∃ sg ∈ src.globals, sg.isFuncTyped = true ∧
    ∃ dg ∈ dest.globals.find? fun g => g.name == sg.name, sourceGlobalWins dg sg = true

/-- A declaration of the destination is given a body. -/
def Replaces (dest src : LrModule) : Prop :=
  ∃ sf ∈ src.funcs, sf.isDefinition = true ∧
    ∃ df ∈ dest.funcs.find? fun f => f.name == sf.name, df.isDefinition = false

/-- The first element with a key gives way to another one with it. -/
theorem find?_set_first {A K : Type} [BEq K] [LawfulBEq K] (key : A → K) {k : K} {a : A}
    (ha : key a = k) (xs : List A) {i : Nat} (hi : xs.findIdx? (fun x => key x == k) = some i)
    (k' : K) : (xs.set i a).find? (fun x => key x == k') =
      if k' == k then some a else xs.find? fun x => key x == k' := by
  induction xs generalizing i with
  | nil => cases hi
  | cons x xs ih =>
    rw [findIdx?_cons] at hi
    cases hx : key x == k with
    | true =>
      simp only [hx, if_true] at hi
      cases hi
      have hkey : key x = key a := by rw [ha, beq_iff_eq.1 hx]
      rw [set_cons_zero, find?_cons, find?_cons, hkey, ha, BEq.comm]
      cases k' == k <;> rfl
    | false =>
      rw [hx] at hi
      obtain ⟨j, hj, rfl⟩ := map_eq_some_iff.1 hi
      rw [set_cons_succ, find?_cons, find?_cons, ih hj]
      cases hk : key x == k' with
      | true =>
        have hne : (k' == k) = false := by rwa [← beq_iff_eq.1 hk]
        rw [hne]
        rfl
      | false => rfl

def isFunc : LrType → Bool
  | .func .. => true
  | _ => false

theorem isFunc_eraseAddr (t : LrType) : isFunc (eraseAddr t) = isFunc t := by
  cases t with
  | ptr addr elem => cases elem <;> simp [eraseAddr, isFunc]
  | _ => simp [eraseAddr, isFunc]

theorem isFuncTyped_eq (g : LrGlobal) : g.isFuncTyped = g.type.any isFunc := by
  unfold LrGlobal.isFuncTyped
  cases htype : g.type with
  | none => rfl
  | some t => cases t <;> rfl

theorem isFuncTyped_of_copy {g g' : LrGlobal} (h : TypeOptionCopy g.type g'.type) :
    g'.isFuncTyped = g.isFuncTyped := by
  rw [isFuncTyped_eq, isFuncTyped_eq]
  cases htype : g.type with
  | none =>
    cases htype' : g'.type with
    | none => rfl
    | some t' =>
      rw [htype, htype'] at h
      exact h.elim
  | some t =>
    cases htype' : g'.type with
    | none =>
      rw [htype, htype'] at h
      exact h.elim
    | some t' =>
      rw [htype, htype'] at h
      have hcopy : eraseAddr t' = eraseAddr t := h
      rw [any_some, any_some, ← isFunc_eraseAddr, hcopy, isFunc_eraseAddr]

theorem mergeCopyGlobalData_frame (dg sg : LrGlobal) :
    (mergeCopyGlobalData dg sg).name = dg.name ∧ (mergeCopyGlobalData dg sg).type = dg.type ∧
      (mergeCopyGlobalData dg sg).isExternal = dg.isExternal := by
  unfold mergeCopyGlobalData
  cases sg.initData with
  | none => exact ⟨rfl, rfl, rfl⟩
  | some bytes =>
    by_cases hsize : sg.initSize > 0
    · simp only [hsize, if_true, and_self]
    · simp only [hsize, if_false, and_self]

theorem takeOverGlobal_frame (type : Option LrType) (sg dg : LrGlobal) :
    (takeOverGlobal type sg dg).name = dg.name ∧ (takeOverGlobal type sg dg).type = type ∧
      (takeOverGlobal type sg dg).isExternal = false :=
  mergeCopyGlobalData_frame _ sg

/-- What could not take the place of a global cannot take it after another one did. -/
theorem sourceGlobalWins_takeOver {type : Option LrType} {sg dg later : LrGlobal}
    (htaken : sourceGlobalWins dg sg = true) (hkept : sourceGlobalWins dg later = false) :
    sourceGlobalWins (takeOverGlobal type sg dg) later = false := by
  have hexternal : (takeOverGlobal type sg dg).isExternal = false :=
    (takeOverGlobal_frame type sg dg).2.2
  unfold sourceGlobalWins at htaken hkept ⊢
  rw [hexternal]
  cases hlater : later.isExternal with
  | true => simp
  | false =>
    cases hdg : dg.isExternal with
    | true => simp [hdg, hlater] at hkept
    | false =>
      cases hsg : sg.isExternal with
      | true => simp [hdg, hsg] at htaken
      | false =>
        simp only [hdg, hsg, hlater, Bool.not_false, Bool.and_self, Bool.false_and, if_true,
          Bool.false_eq_true, if_false] at htaken hkept ⊢
        obtain ⟨hweak, -⟩ := Bool.and_eq_true_iff.1 htaken
        rw [hweak, Bool.true_and] at hkept
        rw [hkept, Bool.and_false]

section Merges
variable {m m' : LrModule} {f : LrFunc}

/-- With the same functions and no other global of a function type nothing new opposes. -/
theorem Quiet.of_globals (hm : Quiet m) (hfuncs : m'.funcs = m.funcs)
    (hglobals : ∀ g ∈ m'.globals, g.isFuncTyped = true → g ∈ m.globals) : Quiet m' := by
  have hinsts : m'.insts = m.insts := by rw [LrModule.insts, LrModule.insts, hfuncs]
  intro f hf hname hdef
  rw [hfuncs] at hf
  obtain ⟨funcs, globals, calls⟩ := hm f hf hname hdef
  refine ⟨?_, ?_, ?_⟩
  · rw [hfuncs]
    exact funcs
  · exact fun g hg htyped hgname => globals g (hglobals g hg htyped) htyped hgname
  · rw [hinsts]
    exact calls

/-- A global of the source is created, takes the place of another one, or is dropped. -/
theorem mergeGlobal_cases (d : LrModule) (sg : LrGlobal) :
    ((∀ dg ∈ d.globals, dg.name ≠ sg.name) ∧
        (mergeGlobal d sg).localFunctionCollisionScanDirty = true) ∨
      mergeGlobal d sg = d ∧ (∃ dg ∈ d.globals, dg.name = sg.name) ∨
      ∃ i dg, d.globals.findIdx? (fun g => g.name == sg.name) = some i ∧
        d.globals[i]? = some dg ∧ sourceGlobalWins dg sg = true ∧
        mergeGlobal d sg =
          { d with
            nextAddr := (mergeRemapTypeOption d.builtin sg.type d.nextAddr).2
            globals := d.globals.set i
              (takeOverGlobal (mergeRemapTypeOption d.builtin sg.type d.nextAddr).1 sg dg) } := by
  unfold mergeGlobal
  cases hfind : d.globals.findIdx? (fun g => g.name == sg.name) with
  | none =>
    refine .inl ⟨fun dg hdg hname => ?_, rfl⟩
    have hnone := findIdx?_eq_none_iff.1 hfind dg hdg
    simp [hname] at hnone
  | some i =>
    obtain ⟨hlt, hname, -⟩ := findIdx?_eq_some_iff_getElem.1 hfind
    have hget : d.globals[i]? = some d.globals[i] := getElem?_eq_getElem hlt
    have hknown : ∃ dg ∈ d.globals, dg.name = sg.name :=
      ⟨d.globals[i], getElem_mem hlt, by simpa using hname⟩
    simp only [hget]
    by_cases hwins : sourceGlobalWins d.globals[i] sg = true
    · refine .inr (.inr ⟨i, d.globals[i], rfl, hget, hwins, ?_⟩)
      rw [if_pos hwins]
      rfl
    · rw [if_neg hwins]
      exact .inr (.inl ⟨rfl, hknown⟩)

/-- The names of the globals of a module. -/
def globalNames (m : LrModule) : List CStr := m.globals.map LrGlobal.name

theorem mergeGlobal_dirty (h : d.localFunctionCollisionScanDirty = true) (sg : LrGlobal) :
    (mergeGlobal d sg).localFunctionCollisionScanDirty = true := by
  obtain ⟨-, hdirty⟩ | ⟨hsame, -⟩ | ⟨i, dg, -, -, -, heq⟩ := mergeGlobal_cases d sg
  · exact hdirty
  · rw [hsame]
    exact h
  · rw [heq]
    exact h

theorem mergeGlobals_dirty (rest : List LrGlobal) (h : d.localFunctionCollisionScanDirty = true) :
    (rest.foldl mergeGlobal d).localFunctionCollisionScanDirty = true := by
  induction rest generalizing d with
  | nil => exact h
  | cons sg rest ih => exact ih (mergeGlobal_dirty h sg)

/-- Without a new name the globals keep their names. -/
theorem mergeGlobal_names (d : LrModule) (sg : LrGlobal) :
    (mergeGlobal d sg).localFunctionCollisionScanDirty = true ∨
      globalNames (mergeGlobal d sg) = globalNames d ∧ sg.name ∈ globalNames d := by
  obtain ⟨-, hdirty⟩ | ⟨hsame, dg, hdg, hname⟩ | ⟨i, dg, hfind, hget, -, heq⟩ :=
    mergeGlobal_cases d sg
  · exact .inl hdirty
  · rw [hsame]
    exact .inr ⟨rfl, mem_map.2 ⟨dg, hdg, hname⟩⟩
  · refine .inr ⟨?_, ?_⟩
    · obtain ⟨hlt, rfl⟩ := List.getElem?_eq_some_iff.1 hget
      rw [heq, globalNames, map_set, (takeOverGlobal_frame _ sg _).1, ← map_set, set_getElem_self]
      rfl
    · obtain ⟨hlt, hname, -⟩ := findIdx?_eq_some_iff_getElem.1 hfind
      exact mem_map.2 ⟨_, getElem_mem hlt, by simpa using hname⟩

theorem mergeGlobals_names (rest : List LrGlobal) (d : LrModule) :
    (rest.foldl mergeGlobal d).localFunctionCollisionScanDirty = true ∨
      ∀ sg ∈ rest, sg.name ∈ globalNames d := by
  induction rest generalizing d with
  | nil => exact .inr nofun
  | cons sg rest ih =>
    obtain hdirty | ⟨hnames, hmem⟩ := mergeGlobal_names d sg
    · exact .inl (mergeGlobals_dirty rest hdirty)
    · refine (ih (mergeGlobal d sg)).imp_right fun hrest => ?_
      rw [hnames] at hrest
      exact forall_mem_cons.2 ⟨hmem, hrest⟩

/-- No global that is still to be merged gives one of the destination a function type. -/
def NoneTakesOver (d : LrModule) (rest : List LrGlobal) : Prop :=
  ∀ sg ∈ rest, sg.isFuncTyped = true → ∀ dg,
    d.globals.find? (fun g => g.name == sg.name) = some dg → sourceGlobalWins dg sg = false

theorem mergeGlobal_quiet {sg : LrGlobal} {rest : List LrGlobal} {addr : Nat}
    (hbuiltin : d.builtin = lrModuleCreateTypes addr) (hquiet : Quiet d)
    (hnone : NoneTakesOver d (sg :: rest)) :
    (mergeGlobal d sg).localFunctionCollisionScanDirty = true ∨
      Quiet (mergeGlobal d sg) ∧ NoneTakesOver (mergeGlobal d sg) rest := by
  obtain ⟨-, hdirty⟩ | ⟨hsame, -⟩ | ⟨i, dg, hfind, hget, hwins, heq⟩ := mergeGlobal_cases d sg
  · exact .inl hdirty
  · rw [hsame]
    exact .inr ⟨hquiet, fun sg' hsg' => hnone sg' (mem_cons_of_mem sg hsg')⟩
  · right
    have hfirst : d.globals.find? (fun g => g.name == sg.name) = some dg := by
      rw [find?_eq_bind_findIdx?_getElem?, hfind, bind_some, hget]
    obtain ⟨hname, htype, -⟩ :=
      takeOverGlobal_frame (mergeRemapTypeOption d.builtin sg.type d.nextAddr).1 sg dg
    rw [heq]
    refine ⟨hquiet.of_globals rfl fun g hg htyped => ?_, fun later hlater htyped dg' hdg' => ?_⟩
    · refine (mem_or_eq_of_mem_set hg).resolve_right fun hnew => ?_
      have hcopy : TypeOptionCopy sg.type (mergeRemapTypeOption d.builtin sg.type d.nextAddr).1 := by
        rw [hbuiltin]
        exact mergeRemapTypeOption_copies sg.type d.nextAddr trivial
      have hsgtyped : sg.isFuncTyped = true := by
        rw [hnew] at htyped
        rw [← htyped]
        refine (isFuncTyped_of_copy ?_).symm
        rw [htype]
        exact hcopy
      rw [hnone sg mem_cons_self hsgtyped dg hfirst] at hwins
      cases hwins
    · have hold := hnone later (mem_cons_of_mem sg hlater) htyped
      have hdgname : dg.name = sg.name := by simpa using find?_some hfirst
      have hdg'' := (find?_set_first LrGlobal.name (hname.trans hdgname) d.globals hfind
        later.name).symm.trans hdg'
      split at hdg''
      · rename_i hsame
        obtain rfl := Option.some.inj hdg''
        refine sourceGlobalWins_takeOver hwins (hold dg ?_)
        rw [beq_iff_eq.1 hsame]
        exact hfirst
      · exact hold dg' hdg''

theorem mergeGlobals_quiet (rest : List LrGlobal) {addr : Nat}
    (hbuiltin : d.builtin = lrModuleCreateTypes addr) (hquiet : Quiet d)
    (hnone : NoneTakesOver d rest) :
    (rest.foldl mergeGlobal d).localFunctionCollisionScanDirty = true ∨
      Quiet (rest.foldl mergeGlobal d) := by
  induction rest generalizing d with
  | nil => exact .inr hquiet
  | cons sg rest ih =>
    obtain hdirty | ⟨hquiet', hnone'⟩ := mergeGlobal_quiet hbuiltin hquiet hnone
    · exact .inl (mergeGlobals_dirty rest hdirty)
    · have hframe := (mergeGlobals_frame [sg] d).2.1
      exact ih (hframe.trans hbuiltin) hquiet' hnone'

/-- Functions are entered under their names after a function is replaced by one that is. -/
theorem sound_setFunc (hm : Sound m) (i : Nat)
    (hf : lrModuleSymbolName m.symbols f.symbolId = some f.name) :
    Sound (updateFunc m i fun _ => f) := by
  refine ⟨hm.symbols, hm.bound, fun g hg => ?_⟩
  obtain ⟨j, g, hget, rfl⟩ := of_mem_modify hg
  split
  · exact hf
  · exact hm.interned g (mem_of_getElem? hget)

theorem create_mem {vararg : Bool} (hrun : lrFuncCreate m name ret params vararg = some (m', f)) :
    f ∈ m'.funcs ∧ m'.builtin = m.builtin := by
  obtain ⟨⟨symbols, id⟩, -, hrun⟩ := bind_eq_some_iff.1 hrun
  cases hrun
  exact ⟨mem_append_right _ mem_cons_self, rfl⟩

theorem declare_builtin {vararg : Bool} (hrun : lrFuncDeclare m name ret params vararg = some m') :
    m'.builtin = m.builtin := by
  rw [lrFuncDeclare] at hrun
  split at hrun
  · cases hrun
    rfl
  · obtain ⟨⟨m₁, f⟩, hcreate, hrun⟩ := bind_eq_some_iff.1 hrun
    cases hrun
    exact (create_mem hcreate).2

/-- A module that is to be scanned, with functions under their names. -/
structure Marked (m m' : LrModule) : Prop where
  sound : Sound m → Sound m'
  builtin : m'.builtin = m.builtin
  dirty : m'.localFunctionCollisionScanDirty = true

theorem mergeNewDefinition_marked (hd : Sound d)
    (hrun : mergeNewDefinition symbolRemap sf d ret params = some d') : Marked d d' := by
  obtain ⟨⟨d₁, nf⟩, hcreate, hrun⟩ := bind_eq_some_iff.1 hrun
  cases hrun
  obtain ⟨hsound, hdirty⟩ := hd.create hcreate
  obtain ⟨hmem, hbuiltin⟩ := create_mem hcreate
  have hcopied : Sound (inArena d₁ (mergeDeepCopyFuncBody d₁.builtin symbolRemap
      { nf with usesLlvmAbi := sf.usesLlvmAbi } sf)).1 :=
    ⟨hsound.symbols, hsound.bound, hsound.interned⟩
  exact ⟨fun _ => sound_setFunc hcopied _ (hsound.interned nf hmem), hbuiltin, hdirty⟩

theorem mergeNewDeclaration_marked (hd : Sound d) (hnew : funcByName d sf.name = none)
    (hrun : mergeNewDeclaration sf d ret params = some d') : Marked d d' := by
  obtain ⟨d₁, hdeclare, hrun⟩ := bind_eq_some_iff.1 hrun
  cases hrun
  rw [lrFuncDeclare, hnew] at hdeclare
  obtain ⟨⟨d₂, nf⟩, hcreate, hdeclare⟩ := bind_eq_some_iff.1 hdeclare
  cases hdeclare
  obtain ⟨hsound, hdirty⟩ := hd.create hcreate
  refine ⟨fun _ => ?_, (create_mem hcreate).2, hdirty⟩
  refine Sound.updateFunc ?_ fun f => ⟨rfl, rfl⟩
  exact hsound.updateFunc fun f => ⟨rfl, rfl⟩

/-- A function of the source is created, replaces a declaration, or is dropped. -/
theorem mergeFunc_cases (hd : Sound d) (hrun : mergeFunc symbolRemap d sf = some d') :
    ((∀ df ∈ d.funcs, df.name ≠ sf.name) ∧ Marked d d') ∨
      ∃ i df, funcByName d sf.name = some i ∧ d.funcs[i]? = some df ∧
        if !df.isDefinition && sf.isDefinition then
          ∃ f addr, f.name = df.name ∧ f.symbolId = df.symbolId ∧
            d' = updateFunc { d with nextAddr := addr } i fun _ => f
        else d' = d := by
  unfold mergeFunc at hrun
  cases hfind : funcByName d sf.name with
  | none =>
    rw [hfind] at hrun
    left
    refine ⟨fun df hdf hname => not_mem_of_funcByName_none hfind (mem_map.2 ⟨df, hdf, hname⟩), ?_⟩
    have hcopied : Sound (inArena (inArena d (mergeRemapTypes d.builtin sf.paramTypes)).1
        (mergeRemapType d.builtin sf.retType)).1 := ⟨hd.symbols, hd.bound, hd.interned⟩
    have hmarked : ∀ {d₁ : LrModule}, Marked (inArena (inArena d (mergeRemapTypes d.builtin
        sf.paramTypes)).1 (mergeRemapType d.builtin sf.retType)).1 d₁ → Marked d d₁ :=
      fun h => ⟨fun _ => h.sound hcopied, h.builtin, h.dirty⟩
    simp only [mergeNewFunc] at hrun
    split at hrun
    · exact hmarked (mergeNewDefinition_marked hcopied hrun)
    · exact hmarked (mergeNewDeclaration_marked hcopied hfind hrun)
  | some i =>
    obtain ⟨df, hget, -, -⟩ := funcByName_some hfind
    simp only [hfind, hget] at hrun
    refine .inr ⟨i, df, rfl, hget, ?_⟩
    by_cases hreplace : (!df.isDefinition && sf.isDefinition) = true
    · rw [if_pos hreplace] at hrun ⊢
      obtain ⟨-, hrun⟩ := ite_none_left_eq_some.1 hrun
      cases hrun
      exact ⟨(mergeReplaceFunc d.builtin symbolRemap df sf d.nextAddr).1, _, rfl, rfl, rfl⟩
    · rw [if_neg hreplace] at hrun ⊢
      exact (Option.some.inj hrun).symm

theorem mergeFunc_kept (hd : Sound d) (hrun : mergeFunc symbolRemap d sf = some d') :
    Sound d' ∧ d'.builtin = d.builtin ∧ (d.localFunctionCollisionScanDirty = true →
      d'.localFunctionCollisionScanDirty = true) := by
  obtain ⟨-, hmarked⟩ | ⟨i, df, -, hget, hrest⟩ := mergeFunc_cases hd hrun
  · exact ⟨hmarked.sound hd, hmarked.builtin, fun _ => hmarked.dirty⟩
  · split at hrest
    · obtain ⟨f, addr, hname, hid, rfl⟩ := hrest
      have hinterned := hd.interned df (mem_of_getElem? hget)
      rw [← hname, ← hid] at hinterned
      have hcopied : Sound { d with nextAddr := addr } := ⟨hd.symbols, hd.bound, hd.interned⟩
      exact ⟨sound_setFunc hcopied i hinterned, rfl, id⟩
    · rw [hrest]
      exact ⟨hd, rfl, id⟩

theorem mergeFuncs_kept (rest : List LrFunc) (hd : Sound d)
    (hrun : rest.foldlM (mergeFunc symbolRemap) d = some d') :
    Sound d' ∧ d'.builtin = d.builtin ∧ (d.localFunctionCollisionScanDirty = true →
      d'.localFunctionCollisionScanDirty = true) := by
  induction rest generalizing d with
  | nil =>
    cases hrun
    exact ⟨hd, rfl, id⟩
  | cons sf rest ih =>
    rw [foldlM_cons] at hrun
    obtain ⟨d₁, hfirst, hrun⟩ := bind_eq_some_iff.1 hrun
    obtain ⟨hsound, hbuiltin, hdirty⟩ := mergeFunc_kept hd hfirst
    obtain ⟨hsound', hbuiltin', hdirty'⟩ := ih hsound hrun
    exact ⟨hsound', hbuiltin'.trans hbuiltin, fun h => hdirty' (hdirty h)⟩

/-- The names of the functions of a module. -/
def funcNames (m : LrModule) : List CStr := m.funcs.map LrFunc.name

theorem mergeFunc_names (hd : Sound d) (hrun : mergeFunc symbolRemap d sf = some d') :
    d'.localFunctionCollisionScanDirty = true ∨
      funcNames d' = funcNames d ∧ sf.name ∈ funcNames d := by
  obtain ⟨-, hmarked⟩ | ⟨i, df, hfind, hget, hrest⟩ := mergeFunc_cases hd hrun
  · exact .inl hmarked.dirty
  · obtain ⟨df', -, hmem, hname⟩ := funcByName_some hfind
    refine .inr ⟨?_, mem_map.2 ⟨df', hmem, hname⟩⟩
    split at hrest
    · obtain ⟨f, addr, hfname, -, rfl⟩ := hrest
      exact map_modify_const hget LrFunc.name hfname
    · rw [hrest]

theorem mergeFuncs_names (rest : List LrFunc) (hd : Sound d)
    (hrun : rest.foldlM (mergeFunc symbolRemap) d = some d') :
    d'.localFunctionCollisionScanDirty = true ∨ ∀ sf ∈ rest, sf.name ∈ funcNames d := by
  induction rest generalizing d with
  | nil => exact .inr nofun
  | cons sf rest ih =>
    rw [foldlM_cons] at hrun
    obtain ⟨d₁, hfirst, hrun⟩ := bind_eq_some_iff.1 hrun
    have hsound := (mergeFunc_kept hd hfirst).1
    obtain hdirty | ⟨hnames, hmem⟩ := mergeFunc_names hd hfirst
    · exact .inl ((mergeFuncs_kept rest hsound hrun).2.2 hdirty)
    · refine (ih hsound hrun).imp_right fun hrest => ?_
      rw [hnames] at hrest
      exact forall_mem_cons.2 ⟨hmem, hrest⟩

/-- Without a declaration to replace, the functions stay as they are. -/
theorem mergeFuncs_quiet (rest : List LrFunc) (hd : Sound d)
    (hnone : ∀ sf ∈ rest, sf.isDefinition = true → ∀ df,
      d.funcs.find? (fun f => f.name == sf.name) = some df → df.isDefinition = true)
    (hrun : rest.foldlM (mergeFunc symbolRemap) d = some d') :
    d'.localFunctionCollisionScanDirty = true ∨ d' = d := by
  induction rest generalizing d with
  | nil =>
    cases hrun
    exact .inr rfl
  | cons sf rest ih =>
    rw [foldlM_cons] at hrun
    obtain ⟨d₁, hfirst, hrun⟩ := bind_eq_some_iff.1 hrun
    have hsound := (mergeFunc_kept hd hfirst).1
    obtain ⟨-, hmarked⟩ | ⟨i, df, hfind, hget, hrest⟩ := mergeFunc_cases hd hfirst
    · exact .inl ((mergeFuncs_kept rest hsound hrun).2.2 hmarked.dirty)
    · have hfound : d.funcs.find? (fun f => f.name == sf.name) = some df := by
        have hfind' : d.funcs.findIdx? (fun f => f.name == sf.name) = some i := hfind
        rw [find?_eq_bind_findIdx?_getElem?, hfind', bind_some, hget]
      have hkept : ¬ (!df.isDefinition && sf.isDefinition) = true := by
        intro hreplace
        obtain ⟨hdecl, hdef⟩ := Bool.and_eq_true_iff.1 hreplace
        rw [hnone sf mem_cons_self hdef df hfound] at hdecl
        cases hdecl
      rw [if_neg hkept] at hrest
      rw [hrest] at hrun
      exact ih hd (fun sf' hsf' => hnone sf' (mem_cons_of_mem sf hsf')) hrun

end Merges

theorem internAll_run (calls : List CStr) {symbols symbols' : SymbolTable} {ids : List Nat}
    (hwf : WellFormed symbols) (hbound : symbols.symbolIndex.length ≤ 2 ^ 31)
    (hrun : internAll symbols calls = some (symbols', ids)) : Grown symbols symbols' := by
  induction calls generalizing symbols ids with
  | nil =>
    cases hrun
    exact ⟨hwf, hbound, prefix_rfl⟩
  | cons name calls ih =>
    obtain ⟨⟨symbols₁, id⟩, hintern, hrun⟩ := bind_eq_some_iff.1 hrun
    obtain ⟨⟨symbols₂, ids₂⟩, hrest, hrun⟩ := bind_eq_some_iff.1 hrun
    cases hrun
    obtain ⟨hwf₁, hbound₁, hpre₁, -⟩ := intern_run hwf hbound hintern
    exact Grown.trans ⟨hwf₁, hbound₁, hpre₁⟩ (ih hwf₁ hbound₁ hrest)

/-- What every edit keeps: a module that is not to be scanned has nothing to rename. -/
structure Good (m : LrModule) : Prop where
  sound : Sound m
  builtin : ∃ addr, m.builtin = lrModuleCreateTypes addr
  quiet : m.localFunctionCollisionScanDirty = true ∨ Quiet m

/-- A merge interns the names of the source, then goes through its globals and its functions. -/
structure MergeStages (m src m' : LrModule) (symbols : SymbolTable) (symbolRemap : List Nat) :
    Prop where
  grown : Grown m.symbols symbols
  sound : Sound (src.globals.foldl mergeGlobal { m with symbols := symbols })
  funcs : src.funcs.foldlM (mergeFunc symbolRemap)
    (src.globals.foldl mergeGlobal { m with symbols := symbols }) = some m'

theorem merge_stages {m m' : LrModule} (hm : Sound m) (hrun : lrModuleMerge m src = some m') :
    ∃ symbols symbolRemap, MergeStages m src m' symbols symbolRemap := by
  obtain ⟨⟨symbols, symbolRemap⟩, hintern, hrun⟩ := bind_eq_some_iff.1 hrun
  have hgrown := internAll_run _ hm.symbols hm.bound hintern
  obtain ⟨hfuncs, -, hsymbols⟩ := mergeGlobals_frame src.globals { m with symbols := symbols }
  refine ⟨symbols, symbolRemap, hgrown, ?_, hrun⟩
  refine ⟨hsymbols ▸ hgrown.wellFormed, hsymbols ▸ hgrown.bound, fun f hf => ?_⟩
  rw [hfuncs] at hf
  rw [hsymbols]
  exact symbolName_of_extends hgrown.extends' (hm.interned f hf)

theorem sound_merge {m m' : LrModule} (hm : Sound m) (hrun : lrModuleMerge m src = some m') :
    Sound m' := by
  obtain ⟨symbols, symbolRemap, hstages⟩ := merge_stages hm hrun
  exact (mergeFuncs_kept src.funcs hstages.sound hstages.funcs).1

theorem Good.merge {m m' : LrModule} (hm : Good m)
    (hcareful : m.localFunctionCollisionScanDirty = false →
      AddsName m src ∨ ¬ TakesOver m src ∧ ¬ Replaces m src)
    (hrun : lrModuleMerge m src = some m') : Good m' := by
  obtain ⟨addr, hbuiltin⟩ := hm.builtin
  obtain ⟨symbols, symbolRemap, -, hsound, hrun⟩ := merge_stages hm.sound hrun
  obtain ⟨hfuncs, hglobalsBuiltin, -⟩ :=
    mergeGlobals_frame src.globals { m with symbols := symbols }
  obtain ⟨hsound', hbuiltin', hmono⟩ := mergeFuncs_kept src.funcs hsound hrun
  refine ⟨hsound', ⟨addr, hbuiltin'.trans (hglobalsBuiltin.trans hbuiltin)⟩, ?_⟩
  cases hdirty : m.localFunctionCollisionScanDirty with
  | true => exact .inl (hmono (mergeGlobals_dirty src.globals hdirty))
  | false =>
    have hquiet := hm.quiet.resolve_left (by rw [hdirty]; exact Bool.false_ne_true)
    obtain hnew | ⟨htakes, hreplaces⟩ := hcareful hdirty
    · left
      obtain ⟨sg, hsg, hnew⟩ | ⟨sf, hsf, hnew⟩ := hnew
      · obtain hmarked | hnames := mergeGlobals_names src.globals { m with symbols := symbols }
        · exact hmono hmarked
        · obtain ⟨dg, hdg, hname⟩ := mem_map.1 (hnames sg hsg)
          exact absurd hname (hnew dg hdg)
      · refine (mergeFuncs_names src.funcs hsound hrun).resolve_right fun hnames => ?_
        obtain ⟨df, hdf, hname⟩ := mem_map.1 (hnames sf hsf)
        rw [hfuncs] at hdf
        exact hnew df hdf hname
    · have hnone : NoneTakesOver { m with symbols := symbols } src.globals := by
        intro sg hsg htyped dg hdg
        by_contra hwins
        exact htakes ⟨sg, hsg, htyped, dg, hdg, by simpa using hwins⟩
      have hkept : ∀ sf ∈ src.funcs, sf.isDefinition = true → ∀ df,
          (src.globals.foldl mergeGlobal { m with symbols := symbols }).funcs.find?
            (fun f => f.name == sf.name) = some df → df.isDefinition = true := by
        intro sf hsf hdef df hdf
        rw [hfuncs] at hdf
        by_contra hdecl
        exact hreplaces ⟨sf, hsf, hdef, df, hdf, by simpa using hdecl⟩
      obtain hmarked | hsame := mergeFuncs_quiet src.funcs hsound hkept hrun
      · exact .inl hmarked
      · rw [hsame]
        exact mergeGlobals_quiet src.globals hbuiltin (hquiet.of_globals rfl fun g hg _ => hg) hnone

/-- A pass finds none of its names taken; the first block of a function that a scan has passed
makes a definition that nothing opposes; a merge into a module that is not to be scanned
creates something, or it neither replaces a declaration nor gives a global a function type. -/
def Careful (m : LrModule) : Edit → Prop
  | .call .disambiguate => m.localFunctionCollisionScanDirty = true → FreshNames m
  | .call (.block func _) => m.localFunctionCollisionScanDirty = false →
    ∀ f ∈ m.funcs[func]?, f.blocks = [] → f.name ≠ [] → Unopposed m f
  | .merge src => m.localFunctionCollisionScanDirty = false →
    AddsName m src ∨ ¬ TakesOver m src ∧ ¬ Replaces m src
  | _ => True

instance (m : LrModule) (f : LrFunc) : Decidable (Unopposed m f) :=
  decidable_of_iff ((∀ g ∈ m.funcs, g.symbolId = f.symbolId → irFuncSignaturesMatch f g = true) ∧
      (∀ g ∈ m.globals, g.isFuncTyped = true → g.name = f.name →
        irFuncTypeMatchesFunc g.type f = true) ∧
      ∀ inst ∈ m.insts, inst.directCallee = some f.symbolId →
        irCallSignatureMatchesFunc inst f = true)
    ⟨fun h => ⟨h.1, h.2.1, h.2.2⟩, fun h => ⟨h.funcs, h.globals, h.calls⟩⟩

instance (m : LrModule) (name : CStr) : Decidable (Untaken m name) :=
  decidable_of_iff ((∀ f ∈ m.funcs, f.name ≠ name) ∧
      (∀ g ∈ m.globals, g.isFuncTyped = true → g.name ≠ name) ∧
      ∀ inst ∈ m.insts, ∀ id ∈ inst.directCallee,
        ∃ callee ∈ lrModuleSymbolName m.symbols id, callee ≠ name)
    ⟨fun h => ⟨h.1, h.2.1, h.2.2⟩, fun h => ⟨h.funcs, h.globals, h.calls⟩⟩

instance (m : LrModule) : Decidable (FreshNames m) :=
  decidable_of_iff (∀ p ∈ m.funcs.zipIdx, inConflict m p.1 p.2 = true →
      Untaken m (newName p.1 (conflictsBefore m p.2)))
    ⟨fun h place f hf => h (f, place) (mem_zipIdx_iff_getElem?.2 hf.func) hf.found,
      fun h p hp hfound => h p.2 p.1 ⟨mem_zipIdx_iff_getElem?.1 hp, hfound⟩⟩

instance (dest src : LrModule) : Decidable (AddsName dest src) :=
  inferInstanceAs (Decidable (_ ∨ _))

instance (dest src : LrModule) : Decidable (TakesOver dest src) :=
  inferInstanceAs (Decidable (∃ sg ∈ src.globals, _ ∧ _))

instance (dest src : LrModule) : Decidable (Replaces dest src) :=
  inferInstanceAs (Decidable (∃ sf ∈ src.funcs, _ ∧ _))

instance (m : LrModule) : ∀ e : Edit, Decidable (Careful m e)
  | .call .disambiguate => inferInstanceAs (Decidable (_ → FreshNames m))
  | .call (.block func _) => inferInstanceAs (Decidable (_ → ∀ f ∈ m.funcs[func]?, _ → _ → _))
  | .merge src => inferInstanceAs (Decidable (_ → AddsName m src ∨ _ ∧ _))
  | .call (.create ..) => .isTrue trivial
  | .call (.declare ..) => .isTrue trivial
  | .call (.global ..) => .isTrue trivial
  | .call (.append ..) => .isTrue trivial

/-- `f'` has the name, the symbol and the signature of `f`. -/
structure SameHead (f f' : LrFunc) : Prop where
  name : f'.name = f.name
  symbolId : f'.symbolId = f.symbolId
  retType : f'.retType = f.retType
  paramTypes : f'.paramTypes = f.paramTypes
  vararg : f'.vararg = f.vararg

theorem SameHead.refl (f : LrFunc) : SameHead f f := ⟨rfl, rfl, rfl, rfl, rfl⟩

theorem SameHead.funcs {f g g' : LrFunc} (hf : SameHead f f') (hg : SameHead g g') :
    irFuncSignaturesMatch f' g' = irFuncSignaturesMatch f g := by
  unfold irFuncSignaturesMatch
  rw [hf.retType, hf.paramTypes, hf.vararg, hg.retType, hg.paramTypes, hg.vararg]

theorem SameHead.funcType {f : LrFunc} (h : SameHead f f') (type : Option LrType) :
    irFuncTypeMatchesFunc type f' = irFuncTypeMatchesFunc type f := by
  unfold irFuncTypeMatchesFunc
  rw [h.retType, h.paramTypes, h.vararg]

theorem SameHead.call {f : LrFunc} (h : SameHead f f') (inst : LrInst) :
    irCallSignatureMatchesFunc inst f' = irCallSignatureMatchesFunc inst f := by
  unfold irCallSignatureMatchesFunc
  rw [h.retType, h.paramTypes, h.vararg]

section Steps
variable {m m' : LrModule} {i : Nat} {change : LrFunc → LrFunc}

/-- A change of one function that adds no direct call, and makes a definition only of what
nothing opposes. -/
theorem Quiet.modifyFunc (hm : Quiet m) (hkeep : ∀ f, SameHead f (change f))
    (hcalls : ∀ inst ∈ (updateFunc m i change).insts, ∀ id, inst.directCallee = some id →
      inst ∈ m.insts)
    (hnew : ∀ f, m.funcs[i]? = some f → (change f).isDefinition = true → f.isDefinition = true ∨
      (f.name ≠ [] → Unopposed m f)) : Quiet (updateFunc m i change) := by
  have hfuncs : ∀ g' ∈ (updateFunc m i change).funcs, ∃ g ∈ m.funcs,
      SameHead g g' ∧ (g'.isDefinition = true →
        g.isDefinition = true ∨ (g.name ≠ [] → Unopposed m g)) := by
    intro g' hg'
    obtain ⟨j, g, hg, rfl⟩ := of_mem_modify hg'
    refine ⟨g, mem_of_getElem? hg, ?_⟩
    split
    · rename_i hij
      exact ⟨hkeep g, hnew g (hij ▸ hg)⟩
    · exact ⟨.refl g, .inl⟩
  intro f' hf' hne hdef
  obtain ⟨f, hf, hhead, hdefinition⟩ := hfuncs f' hf'
  have hunopposed : Unopposed m f := by
    rw [hhead.name] at hne
    obtain hdef | hnothing := hdefinition hdef
    · exact hm f hf hne hdef
    · exact hnothing hne
  refine ⟨?_, ?_, ?_⟩
  · intro g' hg' hsame
    obtain ⟨g, hg, hghead, -⟩ := hfuncs g' hg'
    rw [hghead.symbolId, hhead.symbolId] at hsame
    rw [hhead.funcs hghead]
    exact hunopposed.funcs g hg hsame
  · intro g hg htyped hgname
    rw [hhead.name] at hgname
    rw [hhead.funcType]
    exact hunopposed.globals g hg htyped hgname
  · intro inst hinst hcallee
    rw [hhead.symbolId] at hcallee
    rw [hhead.call]
    exact hunopposed.calls inst (hcalls inst hinst _ hcallee) hcallee

/-- An instruction stands in a block of one of the functions. -/
theorem mem_insts_iff : inst ∈ m.insts ↔ ∃ f ∈ m.funcs, ∃ b ∈ f.blocks, inst ∈ b.insts := by
  simp only [LrModule.insts, mem_flatMap]

theorem Quiet.block (hm : Quiet m) (hclean : m.localFunctionCollisionScanDirty = false)
    (hcareful : Careful m (.call (.block func name))) : Quiet (lrBlockCreate m func name) := by
  refine hm.modifyFunc (fun f => ⟨rfl, rfl, rfl, rfl, rfl⟩) ?_ ?_
  · intro inst hinst id _
    obtain ⟨f', hf', b, hb, hmem⟩ := mem_insts_iff.1 hinst
    obtain ⟨j, f, hf, rfl⟩ := of_mem_modify hf'
    refine mem_insts_iff.2 ⟨f, mem_of_getElem? hf, b, ?_, hmem⟩
    split at hb
    · obtain hb | hb := mem_append.1 hb
      · exact hb
      · rw [mem_singleton.1 hb] at hmem
        cases hmem
    · exact hb
  · intro f hf hdef
    exact (isDefinition_blockCreate hdef).imp_right (hcareful hclean f hf)

theorem isGlobalCall_of_directCallee {id : Nat} (h : inst.directCallee = some id) :
    inst.isGlobalCall = true := by
  unfold LrInst.directCallee at h
  obtain ⟨hop, h⟩ := ite_none_left_eq_some.1 h
  split at h
  · rename_i hoperands
    simp [LrInst.isGlobalCall, hoperands, not_not.1 hop]
  · cases h

theorem Quiet.append {block : Nat} (hm : Quiet m) (hplain : inst.isGlobalCall = false) :
    Quiet (updateFunc m func (appendInst block inst)) := by
  refine hm.modifyFunc (fun f => ⟨rfl, rfl, rfl, rfl, rfl⟩) ?_ ?_
  · intro inst' hinst id hcallee
    obtain ⟨f', hf', b, hb, hmem⟩ := mem_insts_iff.1 hinst
    obtain ⟨j, f, hf, rfl⟩ := of_mem_modify hf'
    have hfunc := mem_of_getElem? hf
    split at hb
    · obtain ⟨k, b, hget, rfl⟩ := of_mem_modify hb
      have hblock := mem_of_getElem? hget
      split at hmem
      · obtain hmem | hmem := mem_append.1 hmem
        · exact mem_insts_iff.2 ⟨f, hfunc, b, hblock, hmem⟩
        · rw [mem_singleton.1 hmem] at hcallee
          rw [isGlobalCall_of_directCallee hcallee] at hplain
          cases hplain
      · exact mem_insts_iff.2 ⟨f, hfunc, b, hblock, hmem⟩
    · exact mem_insts_iff.2 ⟨f, hfunc, b, hb, hmem⟩
  · intro f _ hdef
    rw [isDefinition_appendInst] at hdef
    exact .inl hdef

theorem Good.append {block : Nat} (hm : Good m) : Good (lrBlockAppend m func block inst) := by
  have hsound : Sound (updateFunc m func (appendInst block inst)) :=
    hm.sound.updateFunc fun f => ⟨rfl, rfl⟩
  unfold lrBlockAppend
  dsimp only
  cases hcall : inst.isGlobalCall with
  | true => exact ⟨⟨hsound.symbols, hsound.bound, hsound.interned⟩, hm.builtin, .inl rfl⟩
  | false => exact ⟨hsound, hm.builtin, hm.quiet.imp_right fun h => h.append hcall⟩

theorem Good.disambiguate (hm : Good m) (hcareful : Careful m (.call .disambiguate))
    (hrun : lrModuleDisambiguateLocalFunctionCollisions m = some m') : Good m' := by
  cases hdirty : m.localFunctionCollisionScanDirty with
  | false =>
    rw [lrModuleDisambiguateLocalFunctionCollisions, if_pos hdirty] at hrun
    cases hrun
    exact hm
  | true =>
    have hpass := pass_run hm.sound hdirty hrun
    refine ⟨hpass.sound hm.sound, ?_, .inr ?_⟩
    · obtain ⟨addr, hbuiltin⟩ := hm.builtin
      exact ⟨addr, (pass_kept hrun).2.trans hbuiltin⟩
    · exact pass_quiet hpass hm.sound (pass_kept hrun).1 (hcareful hdirty)

theorem step_good {e : Edit} (hm : Good m) (hcareful : Careful m e) (hrun : step m e = some m') :
    Good m' := by
  cases e with
  | merge src => exact hm.merge hcareful hrun
  | call c =>
    cases c with
    | create name ret params vararg =>
      obtain ⟨⟨m₁, f⟩, hcreate, hrun⟩ := map_eq_some_iff.1 hrun
      cases hrun
      obtain ⟨hsound, hdirty⟩ := hm.sound.create hcreate
      exact ⟨hsound, by rw [(create_mem hcreate).2]; exact hm.builtin, .inl hdirty⟩
    | declare name ret params vararg =>
      obtain ⟨hsound, rfl | hdirty⟩ := hm.sound.declare hrun
      · exact hm
      · exact ⟨hsound, by rw [declare_builtin hrun]; exact hm.builtin, .inl hdirty⟩
    | global name type isConst =>
      cases hrun
      exact ⟨⟨hm.sound.symbols, hm.sound.bound, hm.sound.interned⟩, hm.builtin, .inl rfl⟩
    | block func name =>
      cases hrun
      refine ⟨hm.sound.updateFunc fun f => ⟨rfl, rfl⟩, hm.builtin, ?_⟩
      cases hdirty : m.localFunctionCollisionScanDirty with
      | true => exact .inl hdirty
      | false =>
        have hquiet := hm.quiet.resolve_left (by rw [hdirty]; exact Bool.false_ne_true)
        exact .inr (hquiet.block hdirty hcareful)
    | append func block inst =>
      cases hrun
      exact hm.append
    | disambiguate => exact hm.disambiguate hcareful hrun

end Steps

theorem good_lrModuleCreate (addr nextAddr : Nat) : Good (lrModuleCreate addr nextAddr) :=
  ⟨⟨wellFormed_empty, Nat.zero_le _, nofun⟩, ⟨addr, rfl⟩, .inr nofun⟩

/-- After a run of careful edits of a new module, a module that is not to be scanned has
nothing that a full scan would rename. -/
theorem clean_module_renames_nothing (addr nextAddr : Nat) (edits : List Edit) {m : LrModule}
    (hcareful : Along step Careful (lrModuleCreate addr nextAddr) edits)
    (hrun : runSteps step (lrModuleCreate addr nextAddr) edits = some m)
    (hclean : m.localFunctionCollisionScanDirty = false) : RenamesNothing m := by
  have hgood : Good m := runSteps_along (fun _ _ _ => step_good) edits
    (good_lrModuleCreate addr nextAddr) hcareful hrun
  have hquiet := hgood.quiet.resolve_left (by rw [hclean]; exact Bool.false_ne_true)
  exact hquiet.renamesNothing hgood.sound

open FunctionCollisions (sampleTypes)

def sampleModule : LrModule := lrModuleCreate 0 20

/-- `define void @name(types)` -/
def defineEdits (place : Nat) (name : CStr) (params : List LrType) : List Edit :=
  [.call (.create name sampleTypes.typeVoid params false), .call (.block place [])]

/-- A call of the function with symbol 0 in the first block of the function at a place. -/
def callEdit (place : Nat) (arg : LrType) : Edit :=
  .call (.append place 0 (lrInstCreate .call (some sampleTypes.typeVoid) 0
    [lrOpGlobal 0 (some sampleTypes.typePtr), lrOpUndef (some arg)]))

/-- Two definitions of one name and a call of the second, which a pass tells apart. -/
def separatedEdits : List Edit :=
  defineEdits 0 [102] [sampleTypes.typeI32] ++ defineEdits 1 [102] [sampleTypes.typeI64] ++
    [callEdit 1 sampleTypes.typeI64, .call .disambiguate]

theorem separatedEdits_renames_nothing :
    ∃ m, runSteps step sampleModule separatedEdits = some m ∧
      m.localFunctionCollisionScanDirty = false ∧ RenamesNothing m := by
  have hrun : (runSteps step sampleModule separatedEdits).any
      (fun m => !m.localFunctionCollisionScanDirty) = true := by decide +kernel
  obtain ⟨m, hm, hclean⟩ := (Option.any_eq_true _ _).1 hrun
  have hclean' : m.localFunctionCollisionScanDirty = false := by simpa using hclean
  exact ⟨m, hm, hclean', clean_module_renames_nothing 0 20 separatedEdits (by decide +kernel)
    hm hclean'⟩

/-- The run ends in a module that is not to be scanned, of which a scan renames a function. -/
def hidesConflict (edits : List Edit) : Bool :=
  (runSteps step sampleModule edits).any fun m => !m.localFunctionCollisionScanDirty &&
    (lrModuleDisambiguateLocalFunctionCollisions (toScan m)).any fun m' => m'.funcs != m.funcs

/-- A declared function that is called with another type is scanned, then it gets a block. -/
def blockEdits : List Edit :=
  .call (.declare [102] sampleTypes.typeVoid [sampleTypes.typeI32] false) ::
    (defineEdits 1 [103] [] ++
      [callEdit 1 sampleTypes.typeI64, .call .disambiguate, .call (.block 0 [])])

/-- The source of the merge defines the function. -/
def mergeEdits : List Edit :=
  .call (.declare [102] sampleTypes.typeVoid [sampleTypes.typeI64] false) ::
    (defineEdits 1 [103] [] ++ [callEdit 1 sampleTypes.typeI64, .call .disambiguate,
      .merge ((runSteps step sampleModule (defineEdits 0 [102] [sampleTypes.typeI32])).getD
        sampleModule)])

theorem hidesConflict_spec {edits : List Edit} (h : hidesConflict edits = true) :
    ∃ m, runSteps step sampleModule edits = some m ∧
      m.localFunctionCollisionScanDirty = false ∧ ¬ RenamesNothing m := by
  obtain ⟨m, hm, hboth⟩ := (Option.any_eq_true _ _).1 h
  obtain ⟨hclean, hscan⟩ := Bool.and_eq_true_iff.1 hboth
  obtain ⟨m', hm', hne⟩ := (Option.any_eq_true _ _).1 hscan
  exact ⟨m, hm, by simpa using hclean, fun hnothing => bne_iff_ne.1 hne (hnothing m' hm')⟩

/-- A first block and a merged body leave the flag clear. -/
theorem clean_module_hides_conflict :
    (∃ m, runSteps step sampleModule blockEdits = some m ∧
      m.localFunctionCollisionScanDirty = false ∧ ¬ RenamesNothing m) ∧
    ∃ m, runSteps step sampleModule mergeEdits = some m ∧
      m.localFunctionCollisionScanDirty = false ∧ ¬ RenamesNothing m :=
  ⟨hidesConflict_spec (by decide +kernel), hidesConflict_spec (by decide +kernel)⟩

end Liric.Guarantees.CollisionFlag
