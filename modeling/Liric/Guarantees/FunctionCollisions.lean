import Liric.Guarantees.ModuleMerge
import Liric.Source.Ir.Collisions

/-!
# Disambiguation and the identity of type nodes

The scan for collisions takes a call for a call of another function when its types are not
the very nodes of the signature of the callee. A module whose calls are typed correctly is
left alone exactly where they share these nodes.
-/
namespace Liric.Guarantees.FunctionCollisions
open Source.Ir List
open Source.Ll (Parser Token parseType typeEqualsRecursive)
open Source.Jit (localTag)
open SymbolInterning
open Lib (any_chained)

/-- The call has the types of the signature, as types. -/
structure WellTyped (inst : LrInst) (f : LrFunc) : Prop where
  ret : ∃ type, inst.type = some type ∧ typeEqualsRecursive type f.retType = true
  count : if f.vararg then f.paramTypes.length ≤ (inst.operands.drop 1).length
    else (inst.operands.drop 1).length = f.paramTypes.length
  args : ∀ p ∈ f.paramTypes.zip (inst.operands.drop 1),
    ∃ type, p.2.type = some type ∧ typeEqualsRecursive type p.1 = true

/-- The call has the nodes of the signature for its types. -/
structure SharesNodes (inst : LrInst) (f : LrFunc) : Prop where
  ret : inst.type = some f.retType
  args : ∀ p ∈ f.paramTypes.zip (inst.operands.drop 1), p.2.type = some p.1

/-- Functions are entered under their names, no two under one, and direct calls of
definitions are typed correctly. -/
structure Consistent (m : LrModule) : Prop where
  symbols : WellFormed m.symbols
  few : m.symbols.numSymbols + m.globals.length < 2 ^ 30
  interned : ∀ f ∈ m.funcs, lrModuleSymbolName m.symbols f.symbolId = some f.name
  distinct : (m.funcs.map LrFunc.name).Nodup
  typed : ∀ inst ∈ m.insts, ∀ f ∈ m.funcs, f.isDefinition = true →
    inst.directCallee = some f.symbolId → WellTyped inst f

/-- Every direct call of the function, and every global of its name and of a function type,
has the nodes of its signature. -/
structure SharedBy (m : LrModule) (f : LrFunc) : Prop where
  calls : ∀ inst ∈ m.insts, inst.directCallee = some f.symbolId → SharesNodes inst f
  globals : ∀ g ∈ m.globals, g.name = f.name → ∀ addr ret params vararg,
    g.type = some (.func addr ret params vararg) →
      ret = f.retType ∧ params = f.paramTypes ∧ vararg = f.vararg

def NodesShared (m : LrModule) : Prop :=
  ∀ f ∈ m.funcs, f.name ≠ [] → f.isDefinition = true → SharedBy m f

theorem irCallSignatureMatchesFunc_iff {inst : LrInst} {f : LrFunc} {symId : Nat}
    (hcallee : inst.directCallee = some symId) (htyped : WellTyped inst f) :
    irCallSignatureMatchesFunc inst f = true ↔ SharesNodes inst f := by
  have hop : inst.op = .call := by
    by_contra hne
    rw [LrInst.directCallee, if_pos hne] at hcallee
    cases hcallee
  have hcount : (if f.vararg then decide (f.paramTypes.length ≤ (inst.operands.drop 1).length)
      else (inst.operands.drop 1).length == f.paramTypes.length) = true := by
    have h := htyped.count
    cases hvararg : f.vararg <;> simpa [hvararg] using h
  simp only [irCallSignatureMatchesFunc, hop, hcount, beq_self_eq_true, Bool.true_and,
    Bool.and_true, Bool.and_eq_true, beq_iff_eq, all_eq_true]
  exact ⟨fun h => ⟨h.1, h.2⟩, fun h => ⟨h.ret, h.args⟩⟩

theorem irFuncTypeMatchesFunc_iff {g : LrGlobal} {f : LrFunc} (hg : g.isFuncTyped = true) :
    irFuncTypeMatchesFunc g.type f = true ↔ ∀ addr ret params vararg,
      g.type = some (.func addr ret params vararg) →
        ret = f.retType ∧ params = f.paramTypes ∧ vararg = f.vararg := by
  unfold LrGlobal.isFuncTyped at hg
  cases htype : g.type with
  | none =>
    rw [htype] at hg
    cases hg
  | some type =>
    rw [htype] at hg
    cases type <;> try cases hg
    simp only [irFuncTypeMatchesFunc, Bool.and_eq_true, beq_iff_eq, Option.some.injEq,
      LrType.func.injEq]
    constructor
    · intro h addr ret params vararg heq
      obtain ⟨-, rfl, rfl, rfl⟩ := heq
      exact ⟨h.1.1, h.1.2, h.2⟩
    · intro h
      obtain ⟨hret, hparams, hvararg⟩ := h _ _ _ _ ⟨rfl, rfl, rfl, rfl⟩
      exact ⟨⟨hret, hparams⟩, hvararg⟩

theorem any_symChain {E : Type} (count : Nat) (entries : List (Nat × E)) (symId : Nat)
    (p : Nat × E → Bool) : ((symChain count entries symId).any fun e => e.1 == symId && p e) =
      entries.any fun e => e.1 == symId && p e :=
  any_chained _ Prod.fst entries symId p

/-- What the index of globals holds of the globals it was built from. -/
structure Entered (gs : List LrGlobal) (symbols : SymbolTable) (entries : List (Nat × LrGlobal)) :
    Prop where
  sound : ∀ e ∈ entries, e.2 ∈ gs ∧ e.2.isFuncTyped = true ∧
    lrModuleSymbolName symbols e.1 = some e.2.name
  complete : ∀ g ∈ gs, g.isFuncTyped = true → g.name ≠ [] → ∃ e ∈ entries, e.2 = g

section
variable {g : LrGlobal} {gs : List LrGlobal} {symbols : SymbolTable}
  {entries : List (Nat × LrGlobal)} (h : Entered gs symbols entries)
include h

/-- A global that is not entered. -/
theorem Entered.cons_skipped (hskip : g.isFuncTyped = false ∨ g.name = []) :
    Entered (g :: gs) symbols entries := by
  refine ⟨?_, ?_⟩
  · intro e he
    obtain ⟨hmem, htyped, hname⟩ := h.sound e he
    exact ⟨mem_cons_of_mem _ hmem, htyped, hname⟩
  · intro g' hg' htyped hname
    obtain rfl | hg' := mem_cons.1 hg'
    · simp [htyped, hname] at hskip
    · exact h.complete g' hg' htyped hname

/-- A global that is entered under the symbol of its name. -/
theorem Entered.cons {id : Nat} (hentry : ¬ (g.isFuncTyped = false ∨ g.name = []))
    (hid : lrModuleSymbolName symbols id = some g.name) :
    Entered (g :: gs) symbols ((id, g) :: entries) := by
  refine ⟨?_, ?_⟩
  · intro e he
    obtain rfl | he := mem_cons.1 he
    · have htyped : g.isFuncTyped = true := by
        rw [not_or, Bool.not_eq_false] at hentry
        exact hentry.1
      exact ⟨mem_cons_self, htyped, hid⟩
    · obtain ⟨hmem, htyped, hname⟩ := h.sound e he
      exact ⟨mem_cons_of_mem _ hmem, htyped, hname⟩
  · intro g' hg' htyped hname
    obtain rfl | hg' := mem_cons.1 hg'
    · exact ⟨_, mem_cons_self, rfl⟩
    · obtain ⟨e, he, heq⟩ := h.complete g' hg' htyped hname
      exact ⟨e, mem_cons_of_mem _ he, heq⟩

end

/-- The globals of function types are entered under the symbols of their names. -/
theorem globalEntries_spec (gs : List LrGlobal) {symbols : SymbolTable} (hwf : WellFormed symbols)
    (hfew : symbols.numSymbols + gs.length < 2 ^ 30) :
    ∃ symbols' entries, globalEntries gs symbols = some (symbols', entries) ∧
      WellFormed symbols' ∧ symbols.symbolNames <+: symbols'.symbolNames ∧
      Entered gs symbols' entries := by
  induction gs generalizing symbols with
  | nil => exact ⟨symbols, [], rfl, hwf, prefix_rfl, nofun, nofun⟩
  | cons g gs ih =>
    rw [length_cons] at hfew
    by_cases hskip : g.isFuncTyped = false ∨ g.name = []
    · obtain ⟨symbols', entries, hrun, hwf', hpre, hentered⟩ := ih hwf (by omega)
      exact ⟨symbols', entries, by rw [globalEntries, if_pos hskip, hrun], hwf', hpre,
        hentered.cons_skipped hskip⟩
    · obtain ⟨symbols₁, id, hintern, hwf₁, hpre₁, hnum, hid⟩ :=
        intern_named hwf g.name (by omega)
      obtain ⟨symbols', entries, hrun, hwf', hpre, hentered⟩ := ih hwf₁ (by omega)
      have hmax : id ≠ uint32Max := by
        have hlt := symbolName_lt hid
        rw [uint32Max]
        omega
      refine ⟨symbols', (id, g) :: entries, ?_, hwf', hpre₁.trans hpre,
        hentered.cons hskip (symbolName_of_extends hpre hid)⟩
      simp only [globalEntries, if_neg hskip, hintern, hrun, Option.bind_eq_bind,
        Option.bind_some, if_neg hmax]

section Conflicts
variable {m : LrModule} {symbols : SymbolTable} {entries : List (Nat × LrGlobal)} {f : LrFunc}
  {place : Nat}

/-- No other function is entered under the symbol of a function. -/
theorem no_function_conflict (hm : Consistent m) (hf : m.funcs[place]? = some f) :
    ((funcEntries m).any fun e => e.1 == f.symbolId &&
      (e.2.1 != place && !irFuncSignaturesMatch f e.2.2)) = false := by
  rw [any_eq_false]
  intro e he
  obtain ⟨⟨g, j⟩, hg, rfl⟩ := mem_map.1 he
  have hg' : m.funcs[j]? = some g := mem_zipIdx_iff_getElem?.1 hg
  by_cases hid : g.symbolId = f.symbolId
  · have hnames : g.name = f.name := by
      have hgname := hm.interned g (mem_of_getElem? hg')
      rw [hid, hm.interned f (mem_of_getElem? hf)] at hgname
      exact (Option.some.inj hgname).symm
    have hplace : j = place := by
      obtain ⟨hj, hgj⟩ := List.getElem?_eq_some_iff.1 hg'
      have hlt : j < (m.funcs.map LrFunc.name).length := by rwa [length_map]
      refine (getElem?_inj hlt hm.distinct).1 ?_
      rw [getElem?_map, getElem?_map, hg', hf, Option.map_some, Option.map_some, hnames]
    simp [hplace]
  · simp [hid]

/-- No global of a function type opposes a function. -/
theorem globals_match_iff (hwf : WellFormed symbols) (hentered : Entered m.globals symbols entries)
    (hname : lrModuleSymbolName symbols f.symbolId = some f.name) (hne : f.name ≠ []) :
    (entries.any fun e => e.1 == f.symbolId && !irFuncTypeMatchesFunc e.2.type f) = false ↔
      ∀ g ∈ m.globals, g.isFuncTyped = true → g.name = f.name →
        irFuncTypeMatchesFunc g.type f = true := by
  rw [any_eq_false]
  constructor
  · intro hnone g hg htyped hgname
    obtain ⟨e, he, rfl⟩ := hentered.complete g hg htyped (hgname ▸ hne)
    have hid : e.1 = f.symbolId := by
      refine symbolName_inj hwf (hentered.sound e he).2.2 ?_
      rw [hgname]
      exact hname
    simpa [hid] using hnone e he
  · intro hall e he hconflict
    obtain ⟨hid, hdiffer⟩ := Bool.and_eq_true_iff.1 hconflict
    obtain ⟨hmem, htyped, hename⟩ := hentered.sound e he
    rw [beq_iff_eq.1 hid, hname] at hename
    rw [hall e.2 hmem htyped (Option.some.inj hename).symm] at hdiffer
    cases hdiffer

theorem calls_match_iff :
    ((callEntries m).any fun e => e.1 == f.symbolId && !irCallSignatureMatchesFunc e.2 f) = false ↔
      ∀ inst ∈ m.insts, inst.directCallee = some f.symbolId →
        irCallSignatureMatchesFunc inst f = true := by
  rw [any_eq_false]
  constructor
  · intro hnone inst hinst hcallee
    have hentry : (f.symbolId, inst) ∈ callEntries m :=
      mem_filterMap.2 ⟨inst, hinst, by rw [hcallee]; rfl⟩
    simpa using hnone _ hentry
  · intro hall e he hconflict
    obtain ⟨inst, hinst, hentry⟩ := mem_filterMap.1 he
    obtain ⟨symId, hcallee, rfl⟩ := Option.map_eq_some_iff.1 hentry
    obtain ⟨hid, hdiffer⟩ := Bool.and_eq_true_iff.1 hconflict
    obtain rfl : symId = f.symbolId := beq_iff_eq.1 hid
    rw [hall inst hinst hcallee] at hdiffer
    cases hdiffer

theorem global_conflict_iff (hm : Consistent m) (hwf : WellFormed symbols)
    (hpre : m.symbols.symbolNames <+: symbols.symbolNames)
    (hentered : Entered m.globals symbols entries) (hf : f ∈ m.funcs) (hname : f.name ≠ []) :
    (entries.any fun e => e.1 == f.symbolId && !irFuncTypeMatchesFunc e.2.type f) = false ↔
      ∀ g ∈ m.globals, g.name = f.name → ∀ addr ret params vararg,
        g.type = some (.func addr ret params vararg) →
          ret = f.retType ∧ params = f.paramTypes ∧ vararg = f.vararg := by
  rw [globals_match_iff hwf hentered (symbolName_of_extends hpre (hm.interned f hf)) hname]
  constructor
  · intro hmatch g hg hgname addr ret params vararg htype
    have htyped : g.isFuncTyped = true := by rw [LrGlobal.isFuncTyped, htype]; rfl
    exact (irFuncTypeMatchesFunc_iff htyped).1 (hmatch g hg htyped hgname) addr ret params vararg
      htype
  · intro hshared g hg htyped hgname
    exact (irFuncTypeMatchesFunc_iff htyped).2 (hshared g hg hgname)

theorem call_conflict_iff (hm : Consistent m) (hf : f ∈ m.funcs) (hdef : f.isDefinition = true) :
    ((callEntries m).any fun e => e.1 == f.symbolId && !irCallSignatureMatchesFunc e.2 f) = false ↔
      ∀ inst ∈ m.insts, inst.directCallee = some f.symbolId → SharesNodes inst f := by
  rw [calls_match_iff]
  refine forall₂_congr fun inst hinst => forall_congr' fun hcallee => ?_
  exact irCallSignatureMatchesFunc_iff hcallee (hm.typed inst hinst f hf hdef hcallee)

/-- A definition with a name is renamed unless all that names it has its nodes. -/
theorem isRenamed_iff (hm : Consistent m) (hwf : WellFormed symbols)
    (hpre : m.symbols.symbolNames <+: symbols.symbolNames)
    (hentered : Entered m.globals symbols entries) (hf : m.funcs[place]? = some f) :
    isRenamed m entries f place = false ↔ (f.name ≠ [] → f.isDefinition = true → SharedBy m f) := by
  have hmem := mem_of_getElem? hf
  by_cases hname : f.name = []
  · simp [isRenamed, hname]
  by_cases hdef : f.isDefinition = true
  · have hconflict : hasConflict m entries f place = false ↔ SharedBy m f := by
      rw [hasConflict, any_symChain, any_symChain, any_symChain, no_function_conflict hm hf,
        Bool.false_or, Bool.or_eq_false_iff, global_conflict_iff hm hwf hpre hentered hmem hname,
        call_conflict_iff hm hmem hdef]
      exact ⟨fun h => ⟨h.2, h.1⟩, fun h => ⟨h.globals, h.calls⟩⟩
    simp [isRenamed, hname, hdef, hconflict]
  · simp [isRenamed, hdef]

end Conflicts

section Loop
variable {m : LrModule} {globals : List (Nat × LrGlobal)}

theorem renameLoop_of_none (fs : List LrFunc) (place : Nat) (symbols : SymbolTable)
    (renames : List FuncRenameEntry)
    (h : ∀ p ∈ fs.zipIdx place, isRenamed m globals p.1 p.2 = false) :
    renameLoop m globals fs place symbols renames = some (symbols, renames, fs) := by
  induction fs generalizing place with
  | nil => rfl
  | cons f fs ih =>
    rw [zipIdx_cons, forall_mem_cons] at h
    simp only [renameLoop, h.1, ih (place + 1) h.2, Bool.false_eq_true, if_false,
      Option.bind_eq_bind, Option.bind_some]

/-- A function that is renamed has a longer name. -/
theorem renameLoop_names {fs fs' : List LrFunc} {place : Nat} {symbols symbols' : SymbolTable}
    {renames renames' : List FuncRenameEntry}
    (hrun : renameLoop m globals fs place symbols renames = some (symbols', renames', fs'))
    (hnames : fs'.map LrFunc.name = fs.map LrFunc.name) :
    ∀ p ∈ fs.zipIdx place, isRenamed m globals p.1 p.2 = false := by
  induction fs generalizing place symbols renames fs' with
  | nil => nofun
  | cons f fs ih =>
    rw [zipIdx_cons, forall_mem_cons]
    rw [renameLoop] at hrun
    split at hrun
    · obtain ⟨⟨symbols₁, id⟩, -, hrun⟩ := Option.bind_eq_some_iff.1 hrun
      obtain ⟨⟨symbols₂, renames₂, fs₂⟩, -, hrun⟩ := Option.bind_eq_some_iff.1 hrun
      cases hrun
      rw [map_cons, map_cons, cons.injEq] at hnames
      have hlen := congrArg List.length hnames.1
      simp [localTag] at hlen
    · rename_i hkept
      obtain ⟨⟨symbols₂, renames₂, fs₂⟩, hrest, hrun⟩ := Option.bind_eq_some_iff.1 hrun
      cases hrun
      rw [map_cons, map_cons, cons.injEq] at hnames
      exact ⟨by simpa using hkept, ih hrest hnames.2⟩

end Loop

/-- The scan leaves a module alone exactly where it renames no function. -/
theorem unchanged_iff {m : LrModule} (hdirty : m.localFunctionCollisionScanDirty = true)
    {symbols : SymbolTable} {entries : List (Nat × LrGlobal)}
    (hentries : globalEntries m.globals m.symbols = some (symbols, entries)) :
    (∃ m', lrModuleDisambiguateLocalFunctionCollisions m = some m' ∧ m'.funcs = m.funcs) ↔
      ∀ p ∈ m.funcs.zipIdx 0, isRenamed m entries p.1 p.2 = false := by
  simp only [lrModuleDisambiguateLocalFunctionCollisions, hdirty, Bool.true_eq_false, if_false,
    hentries, Option.bind_eq_bind, Option.bind_some]
  constructor
  · intro hsame
    obtain ⟨m', hrun, hfuncs⟩ := hsame
    obtain ⟨⟨symbols', renames, fs⟩, hloop, hrun⟩ := Option.bind_eq_some_iff.1 hrun
    cases hrun
    refine renameLoop_names hloop ?_
    have hnames := congrArg (List.map LrFunc.name) hfuncs
    dsimp only at hnames
    split at hnames
    · exact hnames
    · rw [map_map] at hnames
      exact hnames
  · intro hkept
    rw [renameLoop_of_none m.funcs 0 symbols [] hkept]
    exact ⟨_, rfl, rfl⟩

/-- A module whose direct calls are typed correctly is left alone exactly where the calls have
the type nodes of the signatures of the definitions. -/
theorem disambiguation_identity_iff (m : LrModule) (hm : Consistent m) :
    (∃ m', lrModuleDisambiguateLocalFunctionCollisions m = some m' ∧ m'.funcs = m.funcs) ↔
      m.localFunctionCollisionScanDirty = false ∨ NodesShared m := by
  by_cases hdirty : m.localFunctionCollisionScanDirty = false
  · simp [lrModuleDisambiguateLocalFunctionCollisions, hdirty]
  obtain ⟨symbols, entries, hentries, hwf, hpre, hentered⟩ :=
    globalEntries_spec m.globals hm.symbols hm.few
  rw [or_iff_right hdirty, unchanged_iff (by simpa using hdirty) hentries]
  constructor
  · intro hkept f hf
    obtain ⟨place, hplace⟩ := getElem?_of_mem hf
    exact (isRenamed_iff hm hwf hpre hentered hplace).1
      (hkept (f, place) (mem_zipIdx_iff_getElem?.2 hplace))
  · intro hnodes p hp
    have hplace := mem_zipIdx_iff_getElem?.1 hp
    exact (isRenamed_iff hm hwf hpre hentered hplace).2
      (hnodes p.1 (mem_of_getElem? hplace))

def sampleTypes : BuiltinTypes := lrModuleCreateTypes 0

/-- `define void @f(t %a)` and a call of it with an argument of type `u`. -/
def callingModule (symbols : SymbolTable) (t u : LrType) : LrModule where
  funcs :=
    [{ name := [102]
       symbolId := 0
       type := .func 20 sampleTypes.typeVoid [t] false
       retType := sampleTypes.typeVoid
       paramTypes := [t]
       paramVregs := some [0]
       vararg := false
       blocks := [{ name := [], id := 0, insts := [lrInstCreate .retVoid none 0 []] }]
       numBlocks := 1
       nextVreg := 1 },
     { name := [103]
       symbolId := 1
       type := .func 21 sampleTypes.typeVoid [] false
       retType := sampleTypes.typeVoid
       paramTypes := []
       vararg := false
       blocks := [{ name := [], id := 0, insts :=
         [lrInstCreate .call (some sampleTypes.typeVoid) 0
            [lrOpGlobal 0 (some sampleTypes.typePtr), lrOpUndef (some u)],
          lrInstCreate .retVoid none 0 []] }]
       numBlocks := 1 }]
  symbols := symbols
  builtin := sampleTypes
  nextAddr := 22
  localFunctionCollisionScanDirty := true

theorem callingModule_consistent {symbols : SymbolTable} {t u : LrType} (hwf : WellFormed symbols)
    (hnames : symbols.symbolNames = [[102], [103]]) (htu : typeEqualsRecursive u t = true) :
    Consistent (callingModule symbols t u) := by
  refine ⟨hwf, ?_, ?_, ?_, ?_⟩
  · simp [callingModule, SymbolTable.numSymbols, hnames]
  · simp [callingModule, lrModuleSymbolName, SymbolTable.numSymbols, hnames]
  · simp [callingModule]
  · intro inst hinst f hf _ hcallee
    have hinst : inst = lrInstCreate .retVoid none 0 [] ∨ inst = lrInstCreate .call
        (some sampleTypes.typeVoid) 0 [lrOpGlobal 0 (some sampleTypes.typePtr),
          lrOpUndef (some u)] := by
      simp [LrModule.insts, callingModule] at hinst
      tauto
    obtain rfl | rfl := hinst
    · cases hcallee
    · have hid : f.symbolId = 0 := (Option.some.inj hcallee).symm
      simp only [callingModule, mem_cons, not_mem_nil, or_false] at hf
      obtain rfl | rfl := hf
      · refine ⟨⟨sampleTypes.typeVoid, rfl, rfl⟩, rfl, ?_⟩
        intro p hp
        obtain rfl := mem_singleton.1 hp
        exact ⟨u, rfl, htu⟩
      · cases hid

def sampleSymbols : SymbolTable :=
  ((internAll .empty [[102], [103]]).map Prod.fst).getD .empty

theorem sampleSymbols_spec :
    WellFormed sampleSymbols ∧ sampleSymbols.symbolNames = [[102], [103]] := by
  obtain ⟨symbols, ids, hrun, hwf, hnames, -, -⟩ :=
    internAll_spec [[102], [103]] wellFormed_empty (by decide)
  have hsample : sampleSymbols = symbols := by rw [sampleSymbols, hrun]; rfl
  rw [hsample]
  exact ⟨hwf, hnames⟩

theorem disambiguation_identity_iff_i32 :
    let m := callingModule sampleSymbols sampleTypes.typeI32 sampleTypes.typeI32
    (∃ m', lrModuleDisambiguateLocalFunctionCollisions m = some m' ∧ m'.funcs = m.funcs) ↔
      m.localFunctionCollisionScanDirty = false ∨ NodesShared m :=
  disambiguation_identity_iff _
    (callingModule_consistent sampleSymbols_spec.1 sampleSymbols_spec.2 (by decide))

/-- `[2 x i32]`, as often as it stands in a text. -/
def arrayText : List Token :=
  [{ kind := .tokLbracket }, { kind := .tokIntLit, intVal := 2 }, { kind := .tokX },
   { kind := .tokI32 }, { kind := .tokRbracket }]

def arrayParser (addr : Nat) : Parser where
  toks := arrayText
  builtin := sampleTypes
  symbols := .empty
  nextAddr := addr

def arrayNode (addr : Nat) : LrType := .array addr sampleTypes.typeI32 2

/-- The parser makes a node of each occurrence of an array type, and the scan renames the
callee of a call with an argument of that type. -/
theorem disambiguation_separate_nodes :
    (∀ addr, (parseType 2 (arrayParser addr)).map (fun r => (r.1, r.2.nextAddr)) =
        some (arrayNode addr, addr + 1)) ∧
      Consistent (callingModule sampleSymbols (arrayNode 11) (arrayNode 12)) ∧
        ¬ ∃ m', lrModuleDisambiguateLocalFunctionCollisions
            (callingModule sampleSymbols (arrayNode 11) (arrayNode 12)) = some m' ∧
          m'.funcs = (callingModule sampleSymbols (arrayNode 11) (arrayNode 12)).funcs := by
  refine ⟨fun addr => rfl, ?_, ?_⟩
  · exact callingModule_consistent sampleSymbols_spec.1 sampleSymbols_spec.2 (by decide)
  · rw [unchanged_iff rfl rfl]
    intro hkept
    have hrenamed := hkept _ mem_cons_self
    rw [isRenamed, hasConflict, any_symChain, any_symChain, any_symChain] at hrenamed
    revert hrenamed
    decide +kernel

end Liric.Guarantees.FunctionCollisions
