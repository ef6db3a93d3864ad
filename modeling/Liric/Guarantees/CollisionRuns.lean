import Liric.Guarantees.FunctionCollisions
import Liric.Guarantees.WasmConversion
import Liric.Lib.Decimal
import Liric.Lib.Runs

/-!
# Disambiguation over whole runs

A pass renames the definitions that are in conflict and counts them from zero, so a name it
makes up can be in use after an earlier pass. Where it is not, and no call belongs to two of
the definitions in conflict, the pass leaves no conflict. Between two passes only a block that
turns a declaration into a definition can go unnoticed.
-/
namespace Liric.Guarantees.CollisionRuns
open Source.Ir List Option Bool
open Source.Jit (localTag)
open Source.Ll (decimalName)
open SymbolInterning
open FunctionCollisions (any_symChain)
open WasmConversion (insts_updateFunc)
open Lib (Along chained_eq_filter runSteps runSteps_along)

variable {symbols : SymbolTable} {inst : LrInst} {f' : LrFunc} {name : CStr}

inductive Call where
  | create (name : CStr) (ret : LrType) (params : List LrType) (vararg : Bool)
  | declare (name : CStr) (ret : LrType) (params : List LrType) (vararg : Bool)
  | global (name : CStr) (type : Option LrType) (isConst : Bool)
  | block (func : Nat) (name : CStr)
  | append (func block : Nat) (inst : LrInst)
  | disambiguate

def step (m : LrModule) : Call → Option LrModule
  | .create name ret params vararg => (lrFuncCreate m name ret params vararg).map Prod.fst
  | .declare name ret params vararg => lrFuncDeclare m name ret params vararg
  | .global name type isConst => some (lrGlobalCreate m name type isConst)
  | .block func name => some (lrBlockCreate m func name)
  | .append func block inst => some (lrBlockAppend m func block inst)
  | .disambiguate => lrModuleDisambiguateLocalFunctionCollisions m

/-- The call goes to the symbol of the function and has its signature. -/
def CallOf (inst : LrInst) (f : LrFunc) : Prop :=
  inst.directCallee = some f.symbolId ∧ irCallSignatureMatchesFunc inst f = true

/-- Definitions that share a symbol have one signature. -/
def Agree (m : LrModule) : Prop :=
  ∀ f ∈ m.funcs, ∀ g ∈ m.funcs, f.isDefinition = true → g.isDefinition = true →
    f.symbolId = g.symbolId → irFuncSignaturesMatch f g = true

/-- The name of a symbol that an instruction or an initializer refers to. -/
def Referenced (m : LrModule) (name : CStr) : Prop :=
  (∃ inst ∈ m.insts, ∃ o ∈ inst.operands, ∃ id, o.value = .global id ∧
    lrModuleSymbolName m.symbols id = some name) ∨
  ∃ g ∈ m.globals, ∃ r ∈ g.relocs, r.symbolName = name

structure Unused (m : LrModule) (name : CStr) : Prop where
  funcs : ∀ f ∈ m.funcs, f.name ≠ name
  globals : ∀ g ∈ m.globals, g.name ≠ name
  references : ¬ Referenced m name

/-- `f` at a place of `m` has become `f'`, under a new name. -/
structure Renamed (m m' : LrModule) (place : Nat) (f f' : LrFunc) : Prop where
  before : m.funcs[place]? = some f
  after : m'.funcs[place]? = some f'
  name : f'.name ≠ f.name

/-- `m'` has no conflict left that `m` had. -/
structure Settled (m m' : LrModule) : Prop where
  cleared : m'.localFunctionCollisionScanDirty = false
  agree : Agree m'
  fresh : ∀ place f f', Renamed m m' place f f' → Unused m f'.name ∧
    ∀ other g, m'.funcs[other]? = some g → g.name = f'.name → other = place
  calls : ∀ place f f', Renamed m m' place f f' → ∀ (n : Nat) inst inst',
    m.insts[n]? = some inst → m'.insts[n]? = some inst' → CallOf inst f →
      inst'.directCallee = some f'.symbolId

def newName (f : LrFunc) (count : Nat) : CStr := f.name ++ localTag ++ decimalName count

/-- The scan finds the definition at the place in conflict. -/
def inConflict (m : LrModule) (f : LrFunc) (place : Nat) : Bool :=
  (globalEntries m.globals m.symbols).any fun r => isRenamed m r.2 f place

def conflictsBefore (m : LrModule) (place : Nat) : Nat :=
  (m.funcs.zipIdx.take place).countP fun p => inConflict m p.1 p.2

structure Conflict (m : LrModule) (place : Nat) (f : LrFunc) : Prop where
  func : m.funcs[place]? = some f
  found : inConflict m f place = true

/-- No name with the number of a conflict is in use, definitions without a name agree, and no
call belongs to two definitions in conflict. -/
structure Clear (m : LrModule) : Prop where
  fresh : ∀ place f, Conflict m place f → Unused m (newName f (conflictsBefore m place))
  unnamed : ∀ f ∈ m.funcs, ∀ g ∈ m.funcs, f.isDefinition = true → g.isDefinition = true →
    f.name = [] → g.name = [] → irFuncSignaturesMatch f g = true
  single : ∀ inst ∈ m.insts, ∀ place f place' g, Conflict m place f → Conflict m place' g →
    CallOf inst f → CallOf inst g → place = place'

/-- The function at a place after a pass that leaves this table of symbols. -/
def afterPass (m : LrModule) (symbols : SymbolTable) (p : LrFunc × Nat) : LrFunc :=
  if inConflict m p.1 p.2 then
    { p.1 with
      name := newName p.1 (conflictsBefore m p.2)
      symbolId := symbols.symbolNames.idxOf (newName p.1 (conflictsBefore m p.2)) }
  else p.1

/-- The names made up for the functions are in the table. -/
def Entered (m : LrModule) (symbols : SymbolTable) (ps : List (LrFunc × Nat)) : Prop :=
  ∀ p ∈ ps, inConflict m p.1 p.2 = true → newName p.1 (conflictsBefore m p.2) ∈ symbols.symbolNames

/-- The entries of the table of renamed functions. -/
def renameEntries (m : LrModule) (symbols : SymbolTable) (ps : List (LrFunc × Nat)) :
    List FuncRenameEntry :=
  (ps.filter fun p => inConflict m p.1 p.2).map fun p =>
    ⟨p.1.symbolId, (afterPass m symbols p).symbolId, afterPass m symbols p⟩

theorem count_of_newName {f g : LrFunc} {i j : Nat} (h : newName f i = newName g j) : i = j := by
  have hdot : ∀ n, (46 : UInt8) ∉ decimalName n := by
    intro n hmem
    have hdigit := Lib.digit_of_mem_numeral hmem
    revert hdigit
    decide
  have hlast : localTag = localTag.dropLast ++ [46] := by decide
  refine Lib.numeral_inj ?_
  have hreverse := congrArg reverse h
  simp only [newName] at hreverse
  rw [hlast] at hreverse
  simp only [reverse_append, append_assoc, reverse_cons, singleton_append] at hreverse
  have hsame := Lib.append_cons_inj_left (fun hm => hdot i (mem_reverse.1 hm))
    (fun hm => hdot j (mem_reverse.1 hm)) hreverse
  exact reverse_injective hsame

theorem newName_ne (f : LrFunc) (count : Nat) : newName f count ≠ f.name := by
  intro h
  have hlen := congrArg List.length h
  simp [newName, localTag] at hlen

theorem conflictsBefore_succ {m : LrModule} {place : Nat} {f : LrFunc}
    (h : m.funcs[place]? = some f) : conflictsBefore m (place + 1) =
      conflictsBefore m place + if inConflict m f place then 1 else 0 := by
  have hget : m.funcs.zipIdx[place]? = some (f, place) := by
    rw [getElem?_zipIdx, h, map_some, Nat.zero_add]
  rw [conflictsBefore, take_add_one, countP_append, hget]
  simp [conflictsBefore]

theorem conflictsBefore_lt {m : LrModule} {place place' : Nat} {f : LrFunc}
    (h : Conflict m place f) (hlt : place < place') :
    conflictsBefore m place < conflictsBefore m place' := by
  have hnext := conflictsBefore_succ h.func
  rw [h.found, if_pos rfl] at hnext
  have hle : conflictsBefore m (place + 1) ≤ conflictsBefore m place' :=
    (take_sublist_take_left hlt).countP_le
  omega

/-- The names that are made up in one pass are distinct. -/
theorem place_of_newName {m : LrModule} {place place' : Nat} {f g : LrFunc}
    (hf : Conflict m place f) (hg : Conflict m place' g)
    (h : newName f (conflictsBefore m place) = newName g (conflictsBefore m place')) :
    place = place' := by
  have hcount := count_of_newName h
  rcases Nat.lt_trichotomy place place' with hlt | heq | hlt
  · have hless := conflictsBefore_lt hf hlt
    omega
  · exact heq
  · have hless := conflictsBefore_lt hg hlt
    omega

/-- Functions are entered under their names in a table of symbols that is sound. -/
structure Sound (m : LrModule) : Prop where
  symbols : WellFormed m.symbols
  bound : m.symbols.symbolIndex.length ≤ 2 ^ 31
  interned : ∀ f ∈ m.funcs, lrModuleSymbolName m.symbols f.symbolId = some f.name

/-- A table of symbols that has grown. -/
structure Grown (symbols symbols' : SymbolTable) : Prop where
  wellFormed : WellFormed symbols'
  bound : symbols'.symbolIndex.length ≤ 2 ^ 31
  extends' : symbols.symbolNames <+: symbols'.symbolNames

theorem Grown.trans {s₁ s₂ s₃ : SymbolTable} (h : Grown s₁ s₂) (h' : Grown s₂ s₃) : Grown s₁ s₃ :=
  ⟨h'.wellFormed, h'.bound, h.extends'.trans h'.extends'⟩

variable {symbols' : SymbolTable}

/-- The globals of function types are entered in a table that has grown. -/
theorem globalEntries_run {gs : List LrGlobal} {entries : List (Nat × LrGlobal)}
    (hwf : WellFormed symbols) (hbound : symbols.symbolIndex.length ≤ 2 ^ 31)
    (hrun : globalEntries gs symbols = some (symbols', entries)) :
    Grown symbols symbols' ∧ FunctionCollisions.Entered gs symbols' entries := by
  induction gs generalizing symbols entries with
  | nil =>
    cases hrun
    exact ⟨⟨hwf, hbound, prefix_rfl⟩, nofun, nofun⟩
  | cons g gs ih =>
    rw [globalEntries] at hrun
    split at hrun
    · rename_i hskip
      obtain ⟨hgrown, hentered⟩ := ih hwf hbound hrun
      exact ⟨hgrown, hentered.cons_skipped hskip⟩
    · rename_i hentry
      obtain ⟨⟨symbols₁, id⟩, hintern, hrun⟩ := bind_eq_some_iff.1 hrun
      obtain ⟨⟨symbols₂, entries₂⟩, hrest, hrun⟩ := bind_eq_some_iff.1 hrun
      obtain ⟨hwf₁, hbound₁, hpre₁, hid⟩ := intern_run hwf hbound hintern
      have hmax : id ≠ uint32Max := by
        have hlt := symbolName_lt hid
        have hload := hwf₁.load
        rw [uint32Max]
        omega
      simp only [if_neg hmax] at hrun
      cases hrun
      obtain ⟨hgrown, hentered⟩ := ih hwf₁ hbound₁ hrest
      refine ⟨Grown.trans ⟨hwf₁, hbound₁, hpre₁⟩ hgrown, ?_⟩
      exact hentered.cons hentry (symbolName_of_extends hgrown.extends' hid)

theorem afterPass_renamed {m : LrModule} {f : LrFunc} {place id : Nat} (hwf : WellFormed symbols)
    (hfound : inConflict m f place = true)
    (hid : lrModuleSymbolName symbols id = some (newName f (conflictsBefore m place))) :
    afterPass m symbols (f, place) =
      { f with name := newName f (conflictsBefore m place), symbolId := id } := by
  have hlast : symbols.symbolNames.idxOf (newName f (conflictsBefore m place)) = id :=
    symbolName_inj hwf (symbolName_idxOf (symbolName_mem hid)) hid
  rw [afterPass, if_pos hfound, hlast]

theorem afterPass_kept {m : LrModule} {f : LrFunc} {place : Nat} (symbols : SymbolTable)
    (hkept : ¬ inConflict m f place = true) : afterPass m symbols (f, place) = f :=
  if_neg hkept

variable {p : LrFunc × Nat}

theorem renameEntries_renamed {m : LrModule} (symbols : SymbolTable)
    (ps : List (LrFunc × Nat)) (hfound : inConflict m p.1 p.2 = true) :
    renameEntries m symbols (p :: ps) =
      ⟨p.1.symbolId, (afterPass m symbols p).symbolId, afterPass m symbols p⟩ ::
        renameEntries m symbols ps := by
  simp only [renameEntries, filter_cons, hfound, if_true, map_cons]

theorem renameEntries_kept {m : LrModule} (symbols : SymbolTable)
    (ps : List (LrFunc × Nat)) (hkept : ¬ inConflict m p.1 p.2 = true) :
    renameEntries m symbols (p :: ps) = renameEntries m symbols ps := by
  simp only [renameEntries, filter_cons, hkept, if_false, false_eq_true]

/-- The loop over the functions from a place on, of which the table counts those before. -/
theorem renameLoop_run {m : LrModule} {symbols₀ : SymbolTable} {globals : List (Nat × LrGlobal)}
    (hglobals : globalEntries m.globals m.symbols = some (symbols₀, globals))
    {pre fs fs' : List LrFunc} (hfuncs : m.funcs = pre ++ fs)
    {renames renames' : List FuncRenameEntry} (hwf : WellFormed symbols)
    (hbound : symbols.symbolIndex.length ≤ 2 ^ 31)
    (hcount : renames.length = conflictsBefore m pre.length)
    (hrun : renameLoop m globals fs pre.length symbols renames = some (symbols', renames', fs')) :
    Grown symbols symbols' ∧ Entered m symbols' (fs.zipIdx pre.length) ∧
      fs' = (fs.zipIdx pre.length).map (afterPass m symbols') ∧
      renames' = renames ++ renameEntries m symbols' (fs.zipIdx pre.length) := by
  have hconflict : ∀ f place, inConflict m f place = isRenamed m globals f place := by
    intro f place
    rw [inConflict, hglobals, any_some]
  induction fs generalizing pre fs' symbols renames with
  | nil =>
    cases hrun
    exact ⟨⟨hwf, hbound, prefix_rfl⟩, nofun, rfl, (append_nil _).symm⟩
  | cons f fs ih =>
    have hfuncs' : m.funcs = (pre ++ [f]) ++ fs := by
      rw [hfuncs, append_assoc, singleton_append]
    have hnext : (pre ++ [f]).length = pre.length + 1 := length_append
    have hget : m.funcs[pre.length]? = some f := by
      rw [hfuncs, getElem?_append_right (Nat.le_refl _), Nat.sub_self]
      rfl
    have hcount' := conflictsBefore_succ hget
    rw [renameLoop, ← hconflict] at hrun
    split at hrun
    · rename_i hrenamed
      obtain ⟨⟨symbols₁, id⟩, hintern, hrun⟩ := bind_eq_some_iff.1 hrun
      obtain ⟨⟨symbols₂, renames₂, fs₂⟩, hrest, hrun⟩ := bind_eq_some_iff.1 hrun
      cases hrun
      obtain ⟨hwf₁, hbound₁, hpre₁, hid⟩ := intern_run hwf hbound hintern
      rw [if_pos hrenamed] at hcount'
      rw [← hnext] at hrest hcount'
      obtain ⟨hgrown, hentered, hfs, hentries⟩ := ih hfuncs' hwf₁ hbound₁
        (by rw [length_append, hcount, hcount']; rfl) hrest
      have hid' := symbolName_of_extends hgrown.extends' hid
      rw [hcount] at hid'
      have hat := afterPass_renamed hgrown.wellFormed hrenamed hid'
      refine ⟨Grown.trans ⟨hwf₁, hbound₁, hpre₁⟩ hgrown, ?_, ?_, ?_⟩
      · rw [Entered, zipIdx_cons, forall_mem_cons, ← hnext]
        exact ⟨fun _ => symbolName_mem hid', hentered⟩
      · rw [zipIdx_cons, map_cons, hat, hfs, hnext, ← hcount]
        rfl
      · rw [hentries, zipIdx_cons, renameEntries_renamed _ _ hrenamed, hat, hnext,
          append_assoc, ← hcount]
        rfl
    · rename_i hkept
      obtain ⟨⟨symbols₂, renames₂, fs₂⟩, hrest, hrun⟩ := bind_eq_some_iff.1 hrun
      cases hrun
      rw [if_neg hkept, Nat.add_zero] at hcount'
      rw [← hnext] at hrest hcount'
      obtain ⟨hgrown, hentered, hfs, hentries⟩ :=
        ih hfuncs' hwf hbound (hcount.trans hcount'.symm) hrest
      refine ⟨hgrown, ?_, ?_, ?_⟩
      · rw [Entered, zipIdx_cons, forall_mem_cons, ← hnext]
        exact ⟨fun hfound => absurd hfound hkept, hentered⟩
      · rw [zipIdx_cons, map_cons, afterPass_kept _ hkept, hfs, hnext]
      · rw [hentries, zipIdx_cons, renameEntries_kept _ _ hkept, hnext]

theorem directCallee_setCallee {symId : Nat} (h : inst.directCallee = some symId) (newSymId : Nat) :
    (inst.setCallee newSymId).directCallee = some newSymId := by
  unfold LrInst.directCallee at h ⊢
  obtain ⟨hop, h⟩ := ite_none_left_eq_some.1 h
  rw [if_neg (show ¬ (inst.setCallee newSymId).op ≠ .call from hop)]
  split at h
  · rename_i hoperands
    simp [LrInst.setCallee, hoperands]
  · cases h

/-- A call goes to the new symbol of a renamed function of its callee and its signature, and
stays where there is none. -/
theorem retargetCall_spec (renames : List FuncRenameEntry) (inst : LrInst) :
    (retargetCall renames inst = inst ∧ ∀ r ∈ renames,
      inst.directCallee = some r.oldSymId → irCallSignatureMatchesFunc inst r.func = false) ∨
    ∃ r ∈ renames, inst.directCallee = some r.oldSymId ∧
      irCallSignatureMatchesFunc inst r.func = true ∧
        retargetCall renames inst = inst.setCallee r.newSymId := by
  unfold retargetCall
  cases hcallee : inst.directCallee with
  | none => exact .inl ⟨rfl, nofun⟩
  | some symId =>
    have hchain : symChain renames.length (renames.map fun r => (r.oldSymId, r)) symId =
        (renames.map fun r => (r.oldSymId, r)).reverse.filter fun e =>
          irCallSigBucket (irNextPow2U32 (renames.length * 2 % 2 ^ 32)) symId ==
            irCallSigBucket (irNextPow2U32 (renames.length * 2 % 2 ^ 32)) e.1 :=
      chained_eq_filter _ _ _ _
    dsimp only
    rw [hchain]
    split
    · rename_i hnone
      refine .inl ⟨rfl, fun r hr hid => ?_⟩
      cases hid
      have hmiss := find?_eq_none.1 hnone (r.oldSymId, r)
        (mem_filter.2 ⟨mem_reverse.2 (mem_map.2 ⟨r, hr, rfl⟩), beq_self_eq_true _⟩)
      simpa using hmiss
    · rename_i e hfound
      refine .inr ?_
      have hsome := find?_some hfound
      obtain ⟨hid, hmatch⟩ := and_eq_true_iff.1 hsome
      have hmem := mem_of_find?_eq_some hfound
      obtain ⟨r, hr, rfl⟩ := mem_map.1 (mem_reverse.1 (mem_filter.1 hmem).1)
      exact ⟨r, hr, by rw [beq_iff_eq.1 hid], hmatch, rfl⟩

theorem retargetCall_nil (inst : LrInst) : retargetCall [] inst = inst := by
  obtain ⟨hsame, -⟩ | ⟨r, hr, -⟩ := retargetCall_spec [] inst
  · exact hsame
  · cases hr

theorem mapInsts_of_id {f : LrFunc} {change : LrInst → LrInst} (h : ∀ inst, change inst = inst) :
    f.mapInsts change = f := by
  have hid : change = id := funext h
  rw [LrFunc.mapInsts, hid]
  simp

/-- `f'` has the signature of `f` and is a definition where `f` is. -/
structure SameSignature (f f' : LrFunc) : Prop where
  retType : f'.retType = f.retType
  paramTypes : f'.paramTypes = f.paramTypes
  vararg : f'.vararg = f.vararg
  isDefinition : f'.isDefinition = f.isDefinition

theorem SameSignature.trans {f f'' : LrFunc} (h : SameSignature f f') (h' : SameSignature f' f'') :
    SameSignature f f'' :=
  ⟨h'.retType.trans h.retType, h'.paramTypes.trans h.paramTypes, h'.vararg.trans h.vararg,
    h'.isDefinition.trans h.isDefinition⟩

theorem SameSignature.funcs {f g g' : LrFunc} (hf : SameSignature f f') (hg : SameSignature g g') :
    irFuncSignaturesMatch f' g' = irFuncSignaturesMatch f g := by
  unfold irFuncSignaturesMatch
  rw [hf.retType, hf.paramTypes, hf.vararg, hg.retType, hg.paramTypes, hg.vararg]

theorem SameSignature.call {f : LrFunc} (h : SameSignature f f') (inst : LrInst) :
    irCallSignatureMatchesFunc inst f' = irCallSignatureMatchesFunc inst f := by
  unfold irCallSignatureMatchesFunc
  rw [h.retType, h.paramTypes, h.vararg]

theorem irFuncSignaturesMatch_self (f : LrFunc) : irFuncSignaturesMatch f f = true := by
  simp [irFuncSignaturesMatch]

theorem irFuncSignaturesMatch_comm (f g : LrFunc) :
    irFuncSignaturesMatch f g = irFuncSignaturesMatch g f := by
  unfold irFuncSignaturesMatch
  rw [beq_comm (a := f.vararg)]
  rw [BEq.comm (a := f.retType), BEq.comm (a := f.paramTypes)]

theorem afterPass_same (m : LrModule) (symbols : SymbolTable) (f : LrFunc) (place : Nat) :
    SameSignature f (afterPass m symbols (f, place)) := by
  unfold afterPass
  split <;> exact ⟨rfl, rfl, rfl, rfl⟩

theorem mapInsts_same (f : LrFunc) (change : LrInst → LrInst) :
    SameSignature f (f.mapInsts change) :=
  ⟨rfl, rfl, rfl, by simp [LrFunc.isDefinition, LrFunc.mapInsts]⟩

def callAfterPass (m : LrModule) (symbols : SymbolTable) : LrInst → LrInst :=
  retargetCall (renameEntries m symbols m.funcs.zipIdx)

def funcAfterPass (m : LrModule) (symbols : SymbolTable) (p : LrFunc × Nat) : LrFunc :=
  (afterPass m symbols p).mapInsts (callAfterPass m symbols)

/-- What a pass over a module that is to be scanned leaves. -/
structure Pass (m m' : LrModule) : Prop where
  scanned : ∃ r, globalEntries m.globals m.symbols = some r
  grown : Grown m.symbols m'.symbols
  entered : Entered m m'.symbols m.funcs.zipIdx
  funcs : m'.funcs = m.funcs.zipIdx.map (funcAfterPass m m'.symbols)
  cleared : m'.localFunctionCollisionScanDirty = false

theorem pass_run {m m' : LrModule} (hm : Sound m)
    (hdirty : m.localFunctionCollisionScanDirty = true)
    (hrun : lrModuleDisambiguateLocalFunctionCollisions m = some m') : Pass m m' := by
  rw [lrModuleDisambiguateLocalFunctionCollisions, hdirty, if_neg Bool.noConfusion] at hrun
  obtain ⟨⟨symbols, globals⟩, hglobals, hrun⟩ := bind_eq_some_iff.1 hrun
  obtain ⟨⟨symbols', renames, funcs⟩, hloop, hrun⟩ := bind_eq_some_iff.1 hrun
  cases hrun
  have hgrown := (globalEntries_run hm.symbols hm.bound hglobals).1
  obtain ⟨hgrown', hentered, hfuncs, hrenames⟩ := renameLoop_run hglobals
    (show m.funcs = [] ++ m.funcs from rfl) hgrown.wellFormed hgrown.bound rfl hloop
  refine ⟨⟨_, hglobals⟩, hgrown.trans hgrown', hentered, ?_, rfl⟩
  rw [nil_append, length_nil] at hrenames
  change (if renames = [] then funcs else _) = m.funcs.zipIdx.map fun p =>
    (afterPass m symbols' p).mapInsts (retargetCall (renameEntries m symbols' m.funcs.zipIdx))
  rw [← hrenames, hfuncs]
  split
  · rename_i hnil
    refine map_congr_left fun p _ => ?_
    rw [hnil, mapInsts_of_id retargetCall_nil]
  · rw [List.map_map]
    rfl

section Pass
variable {m m' : LrModule} {place place' : Nat} {f g : LrFunc}

theorem Pass.getElem? (h : Pass m m') (hf : m.funcs[place]? = some f) :
    m'.funcs[place]? = some (funcAfterPass m m'.symbols (f, place)) := by
  rw [h.funcs, getElem?_map, getElem?_zipIdx, hf, map_some, map_some, Nat.zero_add]

theorem Pass.of_getElem? (h : Pass m m') (hf : m'.funcs[place]? = some f') :
    ∃ f, m.funcs[place]? = some f ∧ f' = funcAfterPass m m'.symbols (f, place) := by
  cases hget : m.funcs[place]? with
  | none =>
    rw [h.funcs, getElem?_map, getElem?_zipIdx, hget] at hf
    cases hf
  | some f =>
    rw [h.getElem? hget] at hf
    exact ⟨f, rfl, (Option.some.inj hf).symm⟩

theorem Pass.insts (h : Pass m m') : m'.insts = m.insts.map (callAfterPass m m'.symbols) := by
  have hblocks : ∀ p : LrFunc × Nat,
      (funcAfterPass m m'.symbols p).blocks.flatMap LrBlock.insts =
        (p.1.blocks.flatMap LrBlock.insts).map (callAfterPass m m'.symbols) := by
    intro p
    have hsame : (afterPass m m'.symbols p).blocks = p.1.blocks := by
      unfold afterPass
      split <;> rfl
    rw [funcAfterPass, LrFunc.mapInsts, hsame, flatMap_map, map_flatMap]
  have hfuncs : m.funcs = m.funcs.zipIdx.map Prod.fst := (zipIdx_map_fst 0 m.funcs).symm
  rw [LrModule.insts, LrModule.insts, h.funcs, flatMap_map, map_flatMap]
  simp only [hblocks]
  conv_rhs => rw [hfuncs, flatMap_map]

theorem funcAfterPass_same (m : LrModule) (symbols : SymbolTable) (f : LrFunc) (place : Nat) :
    SameSignature f (funcAfterPass m symbols (f, place)) :=
  (afterPass_same m symbols f place).trans (mapInsts_same _ _)

theorem funcAfterPass_kept (symbols : SymbolTable) (hkept : ¬ inConflict m f place = true) :
    (funcAfterPass m symbols (f, place)).name = f.name ∧
      (funcAfterPass m symbols (f, place)).symbolId = f.symbolId := by
  rw [funcAfterPass, afterPass_kept symbols hkept]
  exact ⟨rfl, rfl⟩

theorem funcAfterPass_renamed (symbols : SymbolTable) (hfound : inConflict m f place = true) :
    (funcAfterPass m symbols (f, place)).name = newName f (conflictsBefore m place) := by
  rw [funcAfterPass, afterPass, if_pos hfound]
  rfl

/-- After a pass functions are entered under their names. -/
theorem Pass.sound (h : Pass m m') (hm : Sound m) : Sound m' := by
  refine ⟨h.grown.wellFormed, h.grown.bound, fun f' hf' => ?_⟩
  obtain ⟨place, hplace⟩ := getElem?_of_mem hf'
  obtain ⟨f, hf, rfl⟩ := h.of_getElem? hplace
  by_cases hfound : inConflict m f place = true
  · have hentered := h.entered (f, place) (mem_zipIdx_iff_getElem?.2 hf) hfound
    rw [funcAfterPass, afterPass, if_pos hfound]
    exact symbolName_idxOf hentered
  · obtain ⟨hname, hid⟩ := funcAfterPass_kept m'.symbols hfound
    rw [hname, hid]
    exact symbolName_of_extends h.grown.extends' (hm.interned f (mem_of_getElem? hf))

/-- Two definitions of one symbol and of two signatures are in conflict. -/
theorem Pass.inConflict_of_differ (h : Pass m m') (hf : m.funcs[place]? = some f)
    (hg : m.funcs[place']? = some g) (hname : f.name ≠ []) (hdef : f.isDefinition = true)
    (hid : f.symbolId = g.symbolId) (hdiffer : irFuncSignaturesMatch f g = false) :
    inConflict m f place = true := by
  obtain ⟨r, hglobals⟩ := h.scanned
  have hplace : place' ≠ place := by
    rintro rfl
    obtain rfl : f = g := Option.some.inj (hf.symm.trans hg)
    rw [irFuncSignaturesMatch_self] at hdiffer
    cases hdiffer
  have hentry : (g.symbolId, place', g) ∈ funcEntries m :=
    mem_map.2 ⟨(g, place'), mem_zipIdx_iff_getElem?.2 hg, rfl⟩
  have hfunc : ((funcEntries m).any fun e => e.1 == f.symbolId &&
      (e.2.1 != place && !irFuncSignaturesMatch f e.2.2)) = true := by
    refine List.any_eq_true.2 ⟨_, hentry, ?_⟩
    simp [hid, hplace, hdiffer]
  rw [inConflict, hglobals, any_some, isRenamed, hasConflict, any_symChain, hfunc]
  simp [hname, hdef]

/-- A name that a pass makes up stays with one function. -/
theorem Pass.place_of_name (hf : Conflict m place f)
    (hunused : ∀ g ∈ m.funcs, g.name ≠ newName f (conflictsBefore m place))
    (hg : m.funcs[place']? = some g)
    (hname : (funcAfterPass m m'.symbols (g, place')).name =
      (funcAfterPass m m'.symbols (f, place)).name) : place' = place := by
  rw [funcAfterPass_renamed _ hf.found] at hname
  by_cases hfound : inConflict m g place' = true
  · rw [funcAfterPass_renamed _ hfound] at hname
    exact place_of_newName ⟨hg, hfound⟩ hf hname
  · rw [(funcAfterPass_kept _ hfound).1] at hname
    exact absurd hname (hunused g (mem_of_getElem? hg))

theorem Pass.agree (h : Pass m m') (hm : Sound m) (hclear : Clear m) : Agree m' := by
  intro f' hf' g' hg' hfdef hgdef hid
  obtain ⟨place, hplace⟩ := getElem?_of_mem hf'
  obtain ⟨place', hplace'⟩ := getElem?_of_mem hg'
  have hsound := h.sound hm
  have hname : g'.name = f'.name := by
    have hfname := hsound.interned f' hf'
    rw [hid, hsound.interned g' hg'] at hfname
    exact Option.some.inj hfname
  obtain ⟨f, hf, rfl⟩ := h.of_getElem? hplace
  obtain ⟨g, hg, rfl⟩ := h.of_getElem? hplace'
  have hsamef := funcAfterPass_same m m'.symbols f place
  have hsameg := funcAfterPass_same m m'.symbols g place'
  rw [hsamef.isDefinition] at hfdef
  rw [hsameg.isDefinition] at hgdef
  rw [hsamef.funcs hsameg]
  -- a renamed function is alone with its name
  have hself : place' = place → irFuncSignaturesMatch f g = true := by
    rintro rfl
    obtain rfl : f = g := Option.some.inj (hf.symm.trans hg)
    exact irFuncSignaturesMatch_self f
  by_cases hfoundf : inConflict m f place = true
  · exact hself (Pass.place_of_name ⟨hf, hfoundf⟩ (hclear.fresh place f ⟨hf, hfoundf⟩).funcs hg
      hname)
  by_cases hfoundg : inConflict m g place' = true
  · exact hself (Pass.place_of_name ⟨hg, hfoundg⟩ (hclear.fresh place' g ⟨hg, hfoundg⟩).funcs hf
      hname.symm).symm
  obtain ⟨hnamef, hidf⟩ := funcAfterPass_kept m'.symbols hfoundf
  obtain ⟨hnameg, hidg⟩ := funcAfterPass_kept m'.symbols hfoundg
  rw [hnamef, hnameg] at hname
  rw [hidf, hidg] at hid
  by_cases hempty : f.name = []
  · exact hclear.unnamed f (mem_of_getElem? hf) g (mem_of_getElem? hg) hfdef hgdef
      hempty (hname.trans hempty)
  · by_contra hdiffer
    exact hfoundf (h.inConflict_of_differ hf hg hempty hfdef hid (by simpa using hdiffer))

theorem Pass.renamed_iff (h : Pass m m') : Renamed m m' place f f' ↔
    Conflict m place f ∧ f' = funcAfterPass m m'.symbols (f, place) := by
  constructor
  · intro hrenamed
    have hafter := hrenamed.after
    rw [h.getElem? hrenamed.before] at hafter
    cases hafter
    refine ⟨⟨hrenamed.before, ?_⟩, rfl⟩
    by_contra hkept
    exact hrenamed.name (funcAfterPass_kept m'.symbols hkept).1
  · rintro ⟨hconflict, rfl⟩
    refine ⟨hconflict.func, h.getElem? hconflict.func, ?_⟩
    rw [funcAfterPass_renamed _ hconflict.found]
    exact newName_ne f _

/-- A call of a definition in conflict goes to it, if it belongs to no other. -/
theorem Pass.call (hclear : Clear m) (hf : Conflict m place f) (hinst : inst ∈ m.insts)
    (hcall : CallOf inst f) :
    (callAfterPass m m'.symbols inst).directCallee =
      some (funcAfterPass m m'.symbols (f, place)).symbolId := by
  obtain ⟨-, hnone⟩ | ⟨r, hr, hcallee, hmatch, hset⟩ :=
    retargetCall_spec (renameEntries m m'.symbols m.funcs.zipIdx) inst
  · have hentry := hnone _ (mem_map.2 ⟨(f, place),
      mem_filter.2 ⟨mem_zipIdx_iff_getElem?.2 hf.func, hf.found⟩, rfl⟩) hcall.1
    rw [(afterPass_same m m'.symbols f place).call, hcall.2] at hentry
    cases hentry
  · obtain ⟨⟨g, place'⟩, hg, rfl⟩ := mem_map.1 hr
    obtain ⟨hget, hfound⟩ := mem_filter.1 hg
    have hget' : m.funcs[place']? = some g := mem_zipIdx_iff_getElem?.1 hget
    rw [(afterPass_same m m'.symbols g place').call] at hmatch
    obtain rfl := hclear.single inst hinst place f place' g hf ⟨hget', hfound⟩ hcall
      ⟨hcallee, hmatch⟩
    obtain rfl : f = g := Option.some.inj (hf.func.symm.trans hget')
    rw [callAfterPass, hset, directCallee_setCallee hcallee]
    rfl

theorem Pass.settled (h : Pass m m') (hm : Sound m) (hclear : Clear m) : Settled m m' := by
  refine ⟨h.cleared, h.agree hm hclear, ?_, ?_⟩
  · intro place f f' hrenamed
    obtain ⟨hconflict, rfl⟩ := h.renamed_iff.1 hrenamed
    constructor
    · rw [funcAfterPass_renamed _ hconflict.found]
      exact hclear.fresh place f hconflict
    · intro other g' hg' hname
      obtain ⟨g, hg, rfl⟩ := h.of_getElem? hg'
      exact Pass.place_of_name hconflict (hclear.fresh place f hconflict).funcs hg hname
  · intro place f f' hrenamed n inst inst' hinst hinst' hcall
    obtain ⟨hconflict, rfl⟩ := h.renamed_iff.1 hrenamed
    rw [h.insts, getElem?_map, hinst] at hinst'
    obtain rfl := Option.some.inj hinst'
    exact Pass.call hclear hconflict (mem_of_getElem? hinst) hcall

theorem Pass.clear (h : Pass m m') (hm : Sound m) (hset : Settled m m') : Clear m := by
  have hsound := h.sound hm
  refine ⟨?_, ?_, ?_⟩
  · intro place f hconflict
    have hunused := (hset.fresh place f _ (h.renamed_iff.2 ⟨hconflict, rfl⟩)).1
    rwa [funcAfterPass_renamed _ hconflict.found] at hunused
  · intro f hf g hg hfdef hgdef hfname hgname
    have hkept : ∀ f place, f.name = [] → ¬ inConflict m f place = true := by
      intro f place hname
      simp [inConflict, isRenamed, hname]
    obtain ⟨place, hplace⟩ := getElem?_of_mem hf
    obtain ⟨place', hplace'⟩ := getElem?_of_mem hg
    have hid : f.symbolId = g.symbolId := by
      refine symbolName_inj hm.symbols (hm.interned f hf) ?_
      rw [hm.interned g hg, hfname, hgname]
    have hsamef := funcAfterPass_same m m'.symbols f place
    have hsameg := funcAfterPass_same m m'.symbols g place'
    rw [← hsamef.funcs hsameg]
    refine hset.agree _ (mem_of_getElem? (h.getElem? hplace)) _
      (mem_of_getElem? (h.getElem? hplace')) ?_ ?_ ?_
    · rw [hsamef.isDefinition, hfdef]
    · rw [hsameg.isDefinition, hgdef]
    · rw [(funcAfterPass_kept m'.symbols (hkept f place hfname)).2,
        (funcAfterPass_kept m'.symbols (hkept g place' hgname)).2, hid]
  · intro inst hinst place f place' g hf hg hcallf hcallg
    obtain ⟨n, hn⟩ := getElem?_of_mem hinst
    have hn' : m'.insts[n]? = some (callAfterPass m m'.symbols inst) := by
      rw [h.insts, getElem?_map, hn, map_some]
    have hrenf := h.renamed_iff.2 ⟨hf, rfl⟩
    have hreng := h.renamed_iff.2 ⟨hg, rfl⟩
    have hid := (hset.calls place f _ hrenf n inst _ hn hn' hcallf).symm.trans
      (hset.calls place' g _ hreng n inst _ hn hn' hcallg)
    have hname := hsound.interned _ (mem_of_getElem? hrenf.after)
    rw [Option.some.inj hid, hsound.interned _ (mem_of_getElem? hreng.after)] at hname
    exact ((hset.fresh place f _ hrenf).2 place' _ hreng.after (Option.some.inj hname)).symm

end Pass

theorem of_mem_modify {A : Type} {xs : List A} {i : Nat} {change : A → A} {a' : A}
    (h : a' ∈ xs.modify i change) :
    ∃ j a, xs[j]? = some a ∧ a' = if i = j then change a else a := by
  obtain ⟨j, hj⟩ := getElem?_of_mem h
  rw [getElem?_modify] at hj
  obtain ⟨a, ha, rfl⟩ := map_eq_some_iff.1 hj
  exact ⟨j, a, ha, rfl⟩

/-- What a call is to keep of a module: a module that is not to be scanned has no conflict. -/
structure Good (m : LrModule) : Prop where
  sound : Sound m
  agree : m.localFunctionCollisionScanDirty = true ∨ Agree m

/-- A pass finds no name of its own in use, and a function that a scan has passed becomes a
definition only where the definitions of its symbol have its signature. -/
def Careful (m : LrModule) : Call → Prop
  | .disambiguate => m.localFunctionCollisionScanDirty = true → Clear m
  | .block func _ => m.localFunctionCollisionScanDirty = false →
    ∀ f, m.funcs[func]? = some f → f.blocks = [] → ∀ g ∈ m.funcs, g.isDefinition = true →
      g.symbolId = f.symbolId → irFuncSignaturesMatch f g = true
  | _ => True

section Steps
variable {m m' : LrModule} {i : Nat} {change : LrFunc → LrFunc}

theorem Sound.updateFunc (hm : Sound m)
    (hkeep : ∀ f, (change f).name = f.name ∧ (change f).symbolId = f.symbolId) :
    Sound (updateFunc m i change) := by
  refine ⟨hm.symbols, hm.bound, fun f' hf' => ?_⟩
  obtain ⟨j, f, hf, rfl⟩ := of_mem_modify hf'
  have hfunc := hm.interned f (mem_of_getElem? hf)
  split
  · rw [(hkeep f).1, (hkeep f).2]
    exact hfunc
  · exact hfunc

variable {params : List LrType}

theorem Sound.create {ret : LrType} {vararg : Bool} {f : LrFunc}
    (hm : Sound m) (hrun : lrFuncCreate m name ret params vararg = some (m', f)) :
    Sound m' ∧ m'.localFunctionCollisionScanDirty = true := by
  obtain ⟨⟨symbols, id⟩, hintern, hrun⟩ := bind_eq_some_iff.1 hrun
  cases hrun
  obtain ⟨hwf, hbound, hpre, hid⟩ := intern_run hm.symbols hm.bound hintern
  refine ⟨⟨hwf, hbound, fun f hf => ?_⟩, rfl⟩
  obtain hf | hf := mem_append.1 hf
  · exact symbolName_of_extends hpre (hm.interned f hf)
  · obtain rfl := mem_singleton.1 hf
    exact hid

theorem Sound.declare {ret : LrType} {vararg : Bool} (hm : Sound m)
    (hrun : lrFuncDeclare m name ret params vararg = some m') :
    Sound m' ∧ (m' = m ∨ m'.localFunctionCollisionScanDirty = true) := by
  rw [lrFuncDeclare] at hrun
  split at hrun
  · cases hrun
    exact ⟨hm, .inl rfl⟩
  · obtain ⟨⟨m₁, f⟩, hcreate, hrun⟩ := bind_eq_some_iff.1 hrun
    cases hrun
    obtain ⟨hsound, hdirty⟩ := hm.create hcreate
    exact ⟨hsound.updateFunc fun f => ⟨rfl, rfl⟩, .inr hdirty⟩

/-- A definition after a first block was one, or the block is its first. -/
theorem isDefinition_blockCreate {f : LrFunc} (h : (blockCreate name f).isDefinition = true) :
    f.isDefinition = true ∨ f.blocks = [] := by
  by_cases hblocks : f.blocks = []
  · exact .inr hblocks
  · left
    simpa [LrFunc.isDefinition, blockCreate, hblocks] using h

/-- Signatures and symbols are kept, and the function that becomes a definition agrees with
the definitions of its symbol. -/
theorem Agree.updateFunc (hm : Agree m)
    (hkeep : ∀ f g, irFuncSignaturesMatch (change f) g = irFuncSignaturesMatch f g ∧
      (change f).symbolId = f.symbolId)
    (hnew : ∀ f, m.funcs[i]? = some f → (change f).isDefinition = true → f.isDefinition = true ∨
      ∀ g ∈ m.funcs, g.isDefinition = true → g.symbolId = f.symbolId →
        irFuncSignaturesMatch f g = true) : Agree (updateFunc m i change) := by
  have hid : ∀ (j : Nat) f, (if i = j then change f else f).symbolId = f.symbolId := by
    intro j f
    split
    · exact (hkeep f f).2
    · rfl
  have hmatch : ∀ (j : Nat) f g, irFuncSignaturesMatch (if i = j then change f else f) g =
      irFuncSignaturesMatch f g := by
    intro j f g
    split
    · exact (hkeep f g).1
    · rfl
  have hold : ∀ j f, m.funcs[j]? = some f → (if i = j then change f else f).isDefinition = true →
      f.isDefinition = true ∨ i = j ∧ ∀ g ∈ m.funcs, g.isDefinition = true →
        g.symbolId = f.symbolId → irFuncSignaturesMatch f g = true := by
    intro j f hf hdef
    split at hdef
    · rename_i hj
      exact (hnew f (hj ▸ hf) hdef).imp_right fun hagree => ⟨hj, hagree⟩
    · exact .inl hdef
  intro f' hf' g' hg' hfdef hgdef hsame
  obtain ⟨j, f, hf, rfl⟩ := of_mem_modify hf'
  obtain ⟨k, g, hg, rfl⟩ := of_mem_modify hg'
  rw [hid, hid] at hsame
  rw [hmatch, irFuncSignaturesMatch_comm, hmatch]
  have hfmem := mem_of_getElem? hf
  have hgmem := mem_of_getElem? hg
  obtain hfdef | ⟨rfl, hfagree⟩ := hold j f hf hfdef
  · rw [irFuncSignaturesMatch_comm]
    obtain hgdef | ⟨-, hgagree⟩ := hold k g hg hgdef
    · exact hm f hfmem g hgmem hfdef hgdef hsame
    · rw [irFuncSignaturesMatch_comm]
      exact hgagree f hfmem hfdef hsame
  · rw [irFuncSignaturesMatch_comm]
    obtain hgdef | ⟨rfl, -⟩ := hold k g hg hgdef
    · exact hfagree g hgmem hgdef hsame.symm
    · obtain rfl : f = g := Option.some.inj (hf.symm.trans hg)
      exact irFuncSignaturesMatch_self f

theorem Agree.block {func : Nat} (hm : Agree m) (hdirty : m.localFunctionCollisionScanDirty = false)
    (hcareful : Careful m (.block func name)) : Agree (lrBlockCreate m func name) :=
  hm.updateFunc (fun _ _ => ⟨rfl, rfl⟩) fun f hf hdef =>
    (isDefinition_blockCreate hdef).imp_right (hcareful hdirty f hf)

/-- The function with an instruction more. -/
def appendInst (block : Nat) (inst : LrInst) (f : LrFunc) : LrFunc :=
  { f with blocks := f.blocks.modify block fun b => { b with insts := b.insts ++ [inst] } }

theorem isDefinition_appendInst (block : Nat) (inst : LrInst) (f : LrFunc) :
    (appendInst block inst f).isDefinition = f.isDefinition := by
  have hempty : (appendInst block inst f).blocks.isEmpty = f.blocks.isEmpty := by
    rw [Bool.eq_iff_iff, isEmpty_iff_length_eq_zero, isEmpty_iff_length_eq_zero,
      appendInst, length_modify]
  rw [LrFunc.isDefinition, hempty]
  rfl

theorem Good.append {func block : Nat} (hm : Good m) : Good (lrBlockAppend m func block inst) := by
  have hsound : Sound (updateFunc m func (appendInst block inst)) :=
    hm.sound.updateFunc fun f => ⟨rfl, rfl⟩
  have hagree : m.localFunctionCollisionScanDirty = true ∨
      Agree (updateFunc m func (appendInst block inst)) :=
    hm.agree.imp_right fun h => h.updateFunc (fun _ _ => ⟨rfl, rfl⟩) fun f _ hdef =>
      .inl (by rwa [isDefinition_appendInst] at hdef)
  unfold lrBlockAppend
  dsimp only
  split
  · exact ⟨⟨hsound.symbols, hsound.bound, hsound.interned⟩, .inl rfl⟩
  · exact ⟨hsound, hagree⟩

/-- What is left of a module that is not to be scanned is all of it. -/
theorem settled_self (hclean : m.localFunctionCollisionScanDirty = false) (hm : Agree m) :
    Settled m m := by
  have hnone : ∀ place f f', ¬ Renamed m m place f f' := by
    intro place f f' h
    obtain rfl := Option.some.inj (h.before.symm.trans h.after)
    exact h.name rfl
  exact ⟨hclean, hm, fun place f f' h => absurd h (hnone place f f'),
    fun place f f' h => absurd h (hnone place f f')⟩

theorem settled_iff (hm : Good m) (hpass : step m .disambiguate = some m') :
    Settled m m' ↔ (m.localFunctionCollisionScanDirty = true → Clear m) := by
  cases hdirty : m.localFunctionCollisionScanDirty with
  | false =>
    have hagree := hm.agree.resolve_left (by rw [hdirty]; exact false_ne_true)
    rw [step, lrModuleDisambiguateLocalFunctionCollisions, if_pos hdirty] at hpass
    cases hpass
    exact iff_of_true (settled_self hdirty hagree) fun h => absurd h false_ne_true
  | true =>
    have hrun := pass_run hm.sound hdirty hpass
    exact ⟨fun h _ => hrun.clear hm.sound h, fun h => hrun.settled hm.sound (h rfl)⟩

theorem step_good {c : Call} (hm : Good m) (hcareful : Careful m c) (hrun : step m c = some m') :
    Good m' := by
  cases c with
  | create name ret params vararg =>
    obtain ⟨⟨m₁, f⟩, hcreate, hrun⟩ := map_eq_some_iff.1 hrun
    cases hrun
    obtain ⟨hsound, hdirty⟩ := hm.sound.create hcreate
    exact ⟨hsound, .inl hdirty⟩
  | declare name ret params vararg =>
    obtain ⟨hsound, rfl | hdirty⟩ := hm.sound.declare hrun
    · exact hm
    · exact ⟨hsound, .inl hdirty⟩
  | global name type isConst =>
    cases hrun
    exact ⟨⟨hm.sound.symbols, hm.sound.bound, hm.sound.interned⟩, .inl rfl⟩
  | block func name =>
    cases hrun
    refine ⟨hm.sound.updateFunc fun f => ⟨rfl, rfl⟩, ?_⟩
    cases hdirty : m.localFunctionCollisionScanDirty with
    | false =>
      have hagree := hm.agree.resolve_left (by rw [hdirty]; exact false_ne_true)
      exact .inr (hagree.block hdirty hcareful)
    | true => exact .inl hdirty
  | append func block inst =>
    cases hrun
    exact hm.append
  | disambiguate =>
    have hset := (settled_iff hm hrun).2 hcareful
    refine ⟨?_, .inr hset.agree⟩
    cases hdirty : m.localFunctionCollisionScanDirty with
    | false =>
      rw [step, lrModuleDisambiguateLocalFunctionCollisions, if_pos hdirty] at hrun
      cases hrun
      exact hm.sound
    | true => exact (pass_run hm.sound hdirty hrun).sound hm.sound

end Steps

/-- After a run of careful calls a pass leaves no conflict exactly where it finds no name of
its own in use. -/
theorem disambiguation_settles_iff {m₀ m m' : LrModule} (calls : List Call) (hstart : Good m₀)
    (hcareful : Along step Careful m₀ calls) (hrun : runSteps step m₀ calls = some m)
    (hpass : step m .disambiguate = some m') :
    Settled m m' ↔ (m.localFunctionCollisionScanDirty = true → Clear m) :=
  settled_iff (runSteps_along (fun _ _ _ => step_good) calls hstart hcareful hrun) hpass

def freshModule : LrModule where
  builtin := FunctionCollisions.sampleTypes
  nextAddr := 20

theorem good_freshModule : Good freshModule :=
  ⟨⟨wellFormed_empty, Nat.zero_le _, nofun⟩, .inr nofun⟩

/-- `define void @a(t)` -/
def defineCalls (place : Nat) (t : LrType) : List Call :=
  [.create [97] FunctionCollisions.sampleTypes.typeVoid [t] false, .block place []]

/-- A block is created in a function that has not been scanned. -/
theorem careful_defineCalls {m : LrModule} (hm : Sound m) (place : Nat) (t : LrType)
    (rest : List Call)
    (hrest : ∀ m', Sound m' → m'.localFunctionCollisionScanDirty = true →
      Along step Careful m' rest) : Along step Careful m (defineCalls place t ++ rest) := by
  refine ⟨trivial, ?_⟩
  cases hcreate : step m (.create [97] FunctionCollisions.sampleTypes.typeVoid [t] false) with
  | none => trivial
  | some m₁ =>
    obtain ⟨⟨m₂, f⟩, hrun, hm₁⟩ := map_eq_some_iff.1 hcreate
    obtain rfl : m₂ = m₁ := hm₁
    obtain ⟨hsound, hdirty⟩ := hm.create hrun
    refine ⟨fun hclean => absurd (hdirty.symm.trans hclean) Bool.noConfusion, ?_⟩
    exact hrest _ (hsound.updateFunc fun f => ⟨rfl, rfl⟩) hdirty

/-- Two definitions of one name, of which a pass makes two names. -/
def firstCalls : List Call :=
  defineCalls 0 FunctionCollisions.sampleTypes.typeI32 ++
    defineCalls 1 FunctionCollisions.sampleTypes.typeI64

theorem disambiguation_settles_iff_first :
    ∃ m m', runSteps step freshModule firstCalls = some m ∧ step m .disambiguate = some m' ∧
      (Settled m m' ↔ (m.localFunctionCollisionScanDirty = true → Clear m)) := by
  have hrun : ((runSteps step freshModule firstCalls).bind fun m =>
      step m .disambiguate).isSome = true := by decide +kernel
  obtain ⟨m', hm'⟩ := isSome_iff_exists.1 hrun
  obtain ⟨m, hm, hpass⟩ := bind_eq_some_iff.1 hm'
  refine ⟨m, m', hm, hpass, disambiguation_settles_iff firstCalls good_freshModule ?_ hm hpass⟩
  refine careful_defineCalls good_freshModule.sound _ _ _ fun m₁ hm₁ _ => ?_
  exact careful_defineCalls hm₁ _ _ [] fun _ _ _ => trivial

/-- After the pass, two more definitions of the name, the other way round. -/
def againCalls : List Call :=
  firstCalls ++ .disambiguate :: (defineCalls 2 FunctionCollisions.sampleTypes.typeI64 ++
    defineCalls 3 FunctionCollisions.sampleTypes.typeI32)

/-- The second pass counts from zero again and gives the third definition the name of the first,
which has another signature. -/
theorem second_pass_leaves_conflict :
    ∃ m m', runSteps step freshModule againCalls = some m ∧ step m .disambiguate = some m' ∧
      ¬ Settled m m' := by
  have hrun : ((runSteps step freshModule againCalls).bind fun m =>
      step m .disambiguate).any (fun m' => m'.funcs.any fun f => m'.funcs.any fun g =>
        f.isDefinition && g.isDefinition && f.symbolId == g.symbolId &&
          !irFuncSignaturesMatch f g) = true := by decide +kernel
  cases hlast : (runSteps step freshModule againCalls).bind fun m => step m .disambiguate with
  | none =>
    rw [hlast] at hrun
    cases hrun
  | some m' =>
    obtain ⟨m, hm, hpass⟩ := bind_eq_some_iff.1 hlast
    refine ⟨m, m', hm, hpass, fun hset => ?_⟩
    rw [hlast, any_some, List.any_eq_true] at hrun
    obtain ⟨f, hf, hrun⟩ := hrun
    obtain ⟨g, hg, hconflict⟩ := List.any_eq_true.1 hrun
    simp only [and_eq_true, not_eq_true', beq_iff_eq] at hconflict
    obtain ⟨⟨⟨hfdef, hgdef⟩, hid⟩, hdiffer⟩ := hconflict
    rw [hset.agree f hf g hg hfdef hgdef hid] at hdiffer
    cases hdiffer

end Liric.Guarantees.CollisionRuns
