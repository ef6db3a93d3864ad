import Liric.Guarantees.ModuleLookups

/-!
# Names of the relocations of blobs

A name that the module defines resolves to itself. A name that it only declares is looked up as a
numbered member of its family and as a base of a scoped local name before it is taken as it is,
so it resolves to itself only where neither finds another name.
-/
namespace Liric.Guarantees.RelocNames
open Source.Ir Source.Object Option
open Source.Jit (localTag strstr)
open SymbolInterning
open CollisionFlag (Edit funcNames globalNames)
open ModuleLookups
open Lib (runSteps runSteps_invariant)

section
variable (t : Traced) (name : CStr)

/-- The global that the caches show under a name, as it is now. -/
def globalAt : Option LrGlobal :=
  (lastNamed (globalNames (shown t name)) name).bind fun place => t.now.ir.globals[place]?

def funcAt : Option LrFunc :=
  (lastNamed (funcNames (shown t name)) name).bind fun place => t.now.ir.funcs[place]?

/-- The name of what the caches show. -/
def exactName : Option CStr :=
  ((globalAt t name).map LrGlobal.name).or ((funcAt t name).map LrFunc.name)

/-- The name of what they show, if it is defined. -/
def definedName : Option CStr :=
  (((globalAt t name).filter fun g => !g.isExternal).map LrGlobal.name).or
    (((funcAt t name).filter fun f => !f.blocks.isEmpty).map LrFunc.name)

/-- The name of a family member or of a scoped local that goes before the name. -/
def diverted (m : LrModule) (name : CStr) : Option CStr :=
  (objLookupModuleSymbolFamilyOrdinal m name).or (objLookupModuleScopedLocalName m name)

/-- The base of a scoped local name, if it has room. -/
def scopeBase (baseLen : Nat) : Option CStr :=
  if baseLen = 0 ∨ 4096 ≤ baseLen then none else some (name.take baseLen)

def AllAre (found : Option CStr) : Prop := ∀ n ∈ found, n = name

/-- What a scoped local name resolves to over its base: the family of the base, what has the name
of the base, and the first scoped local of the base. -/
def BaseAgrees (name base : CStr) : Prop :=
  match objLookupModuleSymbolFamilyOrdinal t.now.ir base with
  | some member => member = name
  | none => Safe t base ∧
    AllAre name (((exactName t base).or (objLookupModuleScopedLocalName t.now.ir base)).or
      (exactName t name))

/-- With caches that cover the name, whatever is found first is the name. -/
def Undiverted : Prop :=
  match definedName t name with
  | some defined => defined = name
  | none =>
    match strstr name localTag with
    | none => AllAre name ((diverted t.now.ir name).or (exactName t name))
    | some baseLen => ∀ base ∈ scopeBase name baseLen, BaseAgrees t name base

/-- The name is empty, or it is looked up first, and nothing else stands before it then. -/
def Keeps : Prop :=
  name = [] ∨ ∃ t', step t (.findGlobal name) = some t' ∧ Undiverted t' name

def ResolvesToItself : Prop :=
  ∃ m, objResolveBlobRelocSymbolName t.now name = some (m, name)

end

section Settled
variable {t : Traced} {name : CStr}

section
variable (h : Kept t) (hname : name ≠ []) (hsettled : Settled t.now name)
include h hname hsettled

theorem globalByName_settled :
    objModuleGlobalByName t.now name = some (t.now, lastNamed (globalNames (shown t name)) name) :=
  moduleByName_settled h hname hsettled holds_globals fun _ => rfl

theorem funcByName_settled :
    objModuleFuncByName t.now name = some (t.now, lastNamed (funcNames (shown t name)) name) :=
  moduleByName_settled h hname hsettled holds_funcs fun _ => rfl

theorem symbolName_settled :
    objLookupModuleSymbolName t.now name = some (t.now, exactName t name) := by
  simp only [objLookupModuleSymbolName, if_neg hname, globalByName_settled h hname hsettled,
    funcByName_settled h hname hsettled, bind_eq_bind, bind_some, exactName, globalAt, funcAt]
  cases (lastNamed (globalNames (shown t name)) name).bind fun place => t.now.ir.globals[place]? with
  | none => rfl
  | some g => rfl

theorem definedSymbolName_settled :
    objLookupModuleDefinedSymbolName t.now name = some (t.now, definedName t name) := by
  simp only [objLookupModuleDefinedSymbolName, if_neg hname, globalByName_settled h hname hsettled,
    funcByName_settled h hname hsettled, bind_eq_bind, bind_some, definedName, globalAt, funcAt]
  cases ((lastNamed (globalNames (shown t name)) name).bind fun place =>
    t.now.ir.globals[place]?).filter fun g => !g.isExternal with
  | none => rfl
  | some g => rfl

end

end Settled

section Base
variable {t : Traced} {name : CStr}

theorem symbolName_safe (h : Kept t) (hname : name ≠ []) (hsafe : Safe t name) :
    ∃ m, objLookupModuleSymbolName t.now name = some (m, exactName t name) ∧
      entityNames m.ir = entityNames t.now.ir := by
  obtain ⟨r, hlookup, hanswered⟩ := findGlobal_safe h hname hsafe
  have hglobal : (r.2.bind fun place => r.1.ir.globals[place]?) = globalAt t name := by
    rw [globalAt, hanswered.place, hanswered.globals]
  have hentities : entityNames r.1.ir = entityNames t.now.ir := by
    rw [entityNames, entityNames, hanswered.globals, hanswered.funcs]
  have hfunc := funcByName_settled hanswered.kept hname hanswered.settled
  rw [hanswered.shown] at hfunc
  simp only [objLookupModuleSymbolName, if_neg hname, hlookup, bind_eq_bind,
    bind_some, hglobal, exactName]
  cases hg : globalAt t name with
  | some g => exact ⟨r.1, rfl, hentities⟩
  | none =>
    refine ⟨r.1, ?_, hentities⟩
    rw [show objModuleFuncByName r.1 name = _ from hfunc]
    have hsame : funcAt t name = (lastNamed (funcNames (shown t name)) name).bind
        fun place => r.1.ir.funcs[place]? := by
      rw [funcAt, hanswered.funcs]
    rw [hsame]
    rfl

theorem symbolName_overrun (h : Kept t) (hname : name ≠ []) (hlost : ¬ Safe t name) :
    objLookupModuleSymbolName t.now name = none := by
  have hlookup : objModuleGlobalByName t.now name = none := moduleByName_overrun h hname hlost
  simp only [objLookupModuleSymbolName, if_neg hname, hlookup, bind_eq_bind, bind_none]

/-- The lookups of a name go on from the first one. -/
theorem symbolName_after (hname : name ≠ []) {r : ObjModule × Option Nat}
    (hlookup : objModuleGlobalByName t.now name = some r)
    (hanswered : Answered t name globalNames r) :
    objLookupModuleSymbolName t.now name = objLookupModuleSymbolName r.1 name := by
  have hagain := globalByName_settled hanswered.kept hname hanswered.settled
  rw [hanswered.shown, ← hanswered.place] at hagain
  simp only [objLookupModuleSymbolName, if_neg hname, hlookup, bind_eq_bind, bind_some]
  rw [show objModuleGlobalByName r.1 name = _ from hagain]
  rfl

end Base

section Resolve
variable {t : Traced} {name : CStr}

theorem getD_eq_iff {found : Option CStr} : found.getD name = name ↔ AllAre name found := by
  cases found with
  | none =>
    refine ⟨fun _ n hn => ?_, fun _ => rfl⟩
    cases hn
  | some n =>
    refine ⟨fun heq m hm => ?_, fun hall => hall n rfl⟩
    rw [← Option.some.inj hm]
    exact heq

theorem resolves_settled_iff (h : Kept t) (hname : name ≠ []) (hsettled : Settled t.now name) :
    ResolvesToItself t name ↔ Undiverted t name := by
  unfold ResolvesToItself Undiverted
  simp only [objResolveBlobRelocSymbolName, if_neg hname, symbolName_settled h hname hsettled,
    definedSymbolName_settled h hname hsettled, bind_eq_bind, bind_some]
  cases definedName t name with
  | some defined =>
    constructor
    · rintro ⟨m, hm⟩
      exact congrArg Prod.snd (Option.some.inj hm)
    · rintro rfl
      exact ⟨t.now, rfl⟩
  | none =>
    cases strstr name localTag with
    | none =>
      dsimp only
      rw [← getD_eq_iff]
      constructor
      · rintro ⟨m, hm⟩
        exact congrArg Prod.snd (Option.some.inj hm)
      · exact fun heq => ⟨t.now, congrArg (fun n => some (t.now, n)) heq⟩
    | some baseLen =>
      dsimp only
      unfold scopeBase
      by_cases hroom : baseLen = 0 ∨ 4096 ≤ baseLen
      · simp only [if_pos hroom]
        refine ⟨fun _ base hbase => ?_, fun _ => ⟨t.now, rfl⟩⟩
        cases hbase
      · simp only [if_neg hroom]
        have hall : (∀ base ∈ some (name.take baseLen), BaseAgrees t name base) ↔
            BaseAgrees t name (name.take baseLen) :=
          ⟨fun h => h _ rfl, fun h base hbase => Option.some.inj hbase ▸ h⟩
        rw [hall, BaseAgrees]
        cases objLookupModuleSymbolFamilyOrdinal t.now.ir (name.take baseLen) with
        | some member =>
          constructor
          · rintro ⟨m, hm⟩
            exact congrArg Prod.snd (Option.some.inj hm)
          · intro heq
            exact ⟨t.now, congrArg (fun n => some (t.now, n)) heq⟩
        | none =>
          have hbase : name.take baseLen ≠ [] := by
            rw [not_or] at hroom
            rw [ne_eq, List.take_eq_nil_iff, not_or]
            exact ⟨hroom.1, hname⟩
          dsimp only
          by_cases hsafe : Safe t (name.take baseLen)
          · obtain ⟨m, hlookup, hentities⟩ := symbolName_safe h hbase hsafe
            rw [hlookup, ← getD_eq_iff, bind_some]
            rw [objLookupModuleScopedLocalName, hentities, ← objLookupModuleScopedLocalName]
            constructor
            · rintro ⟨m', hm'⟩
              exact ⟨hsafe, congrArg Prod.snd (Option.some.inj hm')⟩
            · exact fun heq => ⟨m, congrArg (fun n => some (m, n)) heq.2⟩
          · rw [symbolName_overrun h hbase hsafe]
            constructor
            · rintro ⟨m, hm⟩
              cases hm
            · exact fun hagree => absurd hagree.1 hsafe

theorem resolves_iff (h : Kept t) : ResolvesToItself t name ↔ Keeps t name := by
  unfold Keeps
  by_cases hname : name = []
  · rw [ResolvesToItself, objResolveBlobRelocSymbolName, if_pos hname]
    exact ⟨fun _ => .inl hname, fun _ => ⟨t.now, rfl⟩⟩
  by_cases hsafe : Safe t name
  · obtain ⟨r, hlookup, hanswered⟩ := findGlobal_safe h hname hsafe
    have hnext : step t (.findGlobal name) = some (afterLookup t name r.1) := by
      rw [step, hlookup]
      rfl
    have hfrom : ResolvesToItself t name ↔ ResolvesToItself (afterLookup t name r.1) name := by
      unfold ResolvesToItself
      simp only [objResolveBlobRelocSymbolName, if_neg hname]
      rw [symbolName_after hname hlookup hanswered]
      rfl
    rw [hfrom, resolves_settled_iff hanswered.kept hname hanswered.settled]
    constructor
    · exact fun hundiverted => .inr ⟨_, hnext, hundiverted⟩
    · rintro (hnil | ⟨t', ht', hundiverted⟩)
      · exact absurd hnil hname
      · obtain rfl := Option.some.inj (hnext.symm.trans ht')
        exact hundiverted
  · constructor
    · rintro ⟨m, hm⟩
      simp only [objResolveBlobRelocSymbolName, if_neg hname, symbolName_overrun h hname hsafe,
        bind_eq_bind, bind_none] at hm
      cases hm
    · rintro (hnil | ⟨t', ht', -⟩)
      · exact absurd hnil hname
      · rw [step, objModuleGlobalByName, moduleByName_overrun h hname hsafe] at ht'
        cases ht'

/-- A plain name of a declaration keeps it where nothing is found before it. -/
theorem undiverted_of_plain (hdefined : definedName t name = none)
    (hplain : strstr name localTag = none)
    (hall : AllAre name ((diverted t.now.ir name).or (exactName t name))) : Undiverted t name := by
  rw [Undiverted, hdefined]
  dsimp only
  rw [hplain]
  exact hall

end Resolve

/-- After a run of a new module, a name resolves to itself exactly when it is kept. -/
theorem resolves_to_itself_iff (addr nextAddr : Nat) (acts : List Act) {t : Traced}
    (hrun : runSteps step (start addr nextAddr) acts = some t) (name : CStr) :
    ResolvesToItself t name ↔ Keeps t name :=
  resolves_iff (runSteps_invariant (fun _ _ _ h hstep => h.step hstep) acts _ _
    (.start addr nextAddr) hrun)

open FunctionCollisions (sampleTypes)

/-- `declare void @f()` and `declare void @f.0()`. -/
def declareActs : List Act :=
  [.edit (.call (.declare [102] sampleTypes.typeVoid [] false)),
    .edit (.call (.declare [102, 46, 48] sampleTypes.typeVoid [] false))]

theorem plain_name_resolves :
    ∃ t, runSteps step (start 0 20) declareActs = some t ∧ ResolvesToItself t [102] := by
  have hrun : ((runSteps step (start 0 20) declareActs).bind fun t =>
      step t (.findGlobal [102])).any (fun t' => decide (definedName t' [102] = none ∧
        (diverted t'.now.ir [102]).or (exactName t' [102]) = some [102])) = true := by
    decide +kernel
  obtain ⟨t', ht', hboth⟩ := (any_eq_true _ _).1 hrun
  obtain ⟨t, ht, hnext⟩ := bind_eq_some_iff.1 ht'
  obtain ⟨hdefined, hfound⟩ := of_decide_eq_true hboth
  refine ⟨t, ht, (resolves_to_itself_iff 0 20 declareActs ht [102]).2 (.inr ⟨t', hnext, ?_⟩)⟩
  refine undiverted_of_plain hdefined (by decide) fun n hn => ?_
  rw [hfound] at hn
  exact (Option.some.inj hn).symm

/-- `f.0` is taken for the first member of the family of `f`, which is `f`. -/
theorem numbered_name_diverted :
    ∃ t, runSteps step (start 0 20) declareActs = some t ∧
      [102, 46, 48] ∈ entityNames t.now.ir ∧ ¬ ResolvesToItself t [102, 46, 48] := by
  have hrun : (runSteps step (start 0 20) declareActs).any (fun t =>
      decide ([102, 46, 48] ∈ entityNames t.now.ir) &&
        (objResolveBlobRelocSymbolName t.now [102, 46, 48]).any fun r => r.2 == [102]) = true := by
    decide +kernel
  obtain ⟨t, ht, hboth⟩ := (any_eq_true _ _).1 hrun
  obtain ⟨hmem, hother⟩ := Bool.and_eq_true_iff.1 hboth
  refine ⟨t, ht, of_decide_eq_true hmem, ?_⟩
  rintro ⟨m, hm⟩
  rw [hm] at hother
  cases hother

end Liric.Guarantees.RelocNames
