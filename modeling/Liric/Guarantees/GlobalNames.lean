import Liric.Guarantees.ModuleMerge
import Liric.Source.Ll.Globals

/-!
# Global names resolve to their definitions

A reference by an operand, a callee or a constant expression has the name that the last
local definition of it above is stored under, or else its own; a pointer alone in an
initializer has its own name. Local globals of one name in modules at different addresses
are stored under different names, and stay different symbols wherever both are merged.
-/
namespace Liric.Guarantees.GlobalNames
open Source.Ir Source.LlGlobals List Option
open Source.Jit (localTag strstr)
open SymbolInterning ModuleMerge Lib

variable {text : List TopLevel} {i j : Nat} {symbolRemap : List Nat}

def nameOf : TopLevel → CStr
  | .global g => g.name.val
  | .func f => f.name.val

def isLocal : TopLevel → Bool
  | .global g => g.linkageLocal
  | .func f => f.linkageLocal

def storedName (addr : Nat) : TopLevel → CStr
  | .global g => globalName addr g
  | .func f => funcName addr f

/-- `bare` is a pointer alone in an initializer. -/
structure Reference where
  name : CStr
  bare : Bool
  deriving DecidableEq

def references : TopLevel → List Reference
  | .global g => g.refs.map fun r => ⟨r.name.val, !r.constant⟩
  | .func f => if f.isDecl then [] else f.operands.map fun name => ⟨name.val, false⟩

/-- The name that a name stands for behind `done`. -/
def currentName (addr : Nat) (done : List TopLevel) (name : CStr) : CStr :=
  ((done.reverse.find? fun d => isLocal d && nameOf d == name).map (storedName addr)).getD name

def resolvedName (addr : Nat) (done : List TopLevel) (r : Reference) : CStr :=
  if r.bare then r.name else currentName addr done r.name

/-- The symbol of a reference in the module that has been read. -/
def symbolOf (m : LrModule) : Resolved → Option CStr
  | .operand id => lrModuleSymbolName m.symbols id
  | .reloc name => some name

/-- The module has the definition under this name. -/
def Defined (m : LrModule) (name : CStr) : TopLevel → Prop
  | .global g => ∃ g' ∈ m.globals, g'.name = name ∧ g'.type = some g.type
  | .func _ => ∃ f' ∈ m.funcs, f'.name = name

def Stores (m : LrModule) (name : CStr) (t : TopLevel) : Prop :=
  name ∈ m.symbols.symbolNames ∧ Defined m name t

/-- Names that a text may add to the symbols. -/
def nameCount (text : List TopLevel) : Nat := (text.map fun t => 1 + (references t).length).sum

theorem strstr_isSome {a b needle : CStr} : (strstr (a ++ needle ++ b) needle).isSome = true := by
  unfold strstr
  rw [find?_isSome]
  refine ⟨a.length, ?_, ?_⟩
  · rw [mem_range, length_append, length_append]
    omega
  · rw [append_assoc, drop_left]
    exact isPrefixOf_iff_prefix.2 (prefix_append needle b)

/-- A scoped name is its own scoped name. -/
theorem scoped_cases (addr : Nat) (name : CStr) :
    scopedLocalGlobalName addr name = name ∨
      (strstr (scopedLocalGlobalName addr name) localTag).isSome = true := by
  unfold scopedLocalGlobalName
  split
  · exact .inl rfl
  · split
    · exact .inl rfl
    · exact .inr strstr_isSome

theorem scoped_of_tag {addr : Nat} {name : CStr} (h : (strstr name localTag).isSome = true) :
    scopedLocalGlobalName addr name = name := if_pos (.inr h)

theorem storedName_of_not_local {addr : Nat} {t : TopLevel} (h : isLocal t = false) :
    storedName addr t = nameOf t := by
  cases t with
  | global g => exact if_neg fun hlocal => Bool.false_ne_true (h.symm.trans hlocal.1)
  | func f => exact if_neg fun hlocal => Bool.false_ne_true (h.symm.trans hlocal)

theorem storedName_cases (addr : Nat) (t : TopLevel) :
    storedName addr t = nameOf t ∨ (strstr (storedName addr t) localTag).isSome = true := by
  cases t with
  | global g =>
    change globalName addr g = g.name.val ∨ (strstr (globalName addr g) localTag).isSome = true
    unfold globalName
    split
    · exact scoped_cases addr g.name.val
    · exact .inl rfl
  | func f =>
    change funcName addr f = f.name.val ∨ (strstr (funcName addr f) localTag).isSome = true
    unfold funcName
    split
    · exact scoped_cases addr f.name.val
    · exact .inl rfl

theorem storedName_of_tag {addr : Nat} {t : TopLevel}
    (h : (strstr (nameOf t) localTag).isSome = true) : storedName addr t = nameOf t := by
  cases t with
  | global g =>
    change (if _ then scopedLocalGlobalName addr g.name.val else g.name.val) = g.name.val
    split
    · exact scoped_of_tag h
    · rfl
  | func f =>
    change (if _ then scopedLocalGlobalName addr f.name.val else f.name.val) = f.name.val
    split
    · exact scoped_of_tag h
    · rfl

theorem scoped_ne_nil {addr : Nat} {name : CStr} (h : name ≠ []) :
    scopedLocalGlobalName addr name ≠ [] := by
  unfold scopedLocalGlobalName
  split
  · exact h
  · split
    · exact h
    · simp [h]

theorem storedName_ne_nil (addr : Nat) (t : TopLevel) : storedName addr t ≠ [] := by
  cases t with
  | global g =>
    change (if _ then scopedLocalGlobalName addr g.name.val else g.name.val) ≠ []
    split
    · exact scoped_ne_nil g.name.property
    · exact g.name.property
  | func f =>
    change (if _ then scopedLocalGlobalName addr f.name.val else f.name.val) ≠ []
    split
    · exact scoped_ne_nil f.name.property
    · exact f.name.property

section CurrentName
variable {addr : Nat} {done : List TopLevel} {t : TopLevel} {name : CStr}

theorem currentName_local (h : isLocal t = true) :
    currentName addr (done ++ [t]) (nameOf t) = storedName addr t := by
  unfold currentName
  rw [reverse_append, reverse_singleton, singleton_append, find?_cons_of_pos]
  · rfl
  · simp [h]

theorem currentName_other (h : isLocal t = false ∨ nameOf t ≠ name) :
    currentName addr (done ++ [t]) name = currentName addr done name := by
  unfold currentName
  rw [reverse_append, reverse_singleton, singleton_append, find?_cons_of_neg]
  obtain h | h := h
  · simp [h]
  · simp [h]

/-- Without a local definition a name stands for itself. -/
theorem currentName_of_none (h : ∀ d ∈ done, isLocal d = true → nameOf d = name →
    storedName addr d = name) : currentName addr done name = name := by
  unfold currentName
  cases hfind : done.reverse.find? fun d => isLocal d && nameOf d == name with
  | none => rfl
  | some d =>
    have hmem := mem_reverse.1 (mem_of_find?_eq_some hfind)
    have hd := find?_some hfind
    rw [Bool.and_eq_true, beq_iff_eq] at hd
    exact h d hmem hd.1 hd.2

/-- The stored name of a definition stands for itself unless it is its name. -/
theorem currentName_stored (h : storedName addr t ≠ nameOf t) :
    currentName addr done (storedName addr t) = storedName addr t := by
  have htag := (storedName_cases addr t).resolve_left h
  refine currentName_of_none fun d _ _ hname => ?_
  rw [← hname] at htag ⊢
  exact storedName_of_tag htag

end CurrentName

/-- What the parser knows behind `done`, with `n` more names to come at most. -/
structure Named (addr n : Nat) (done : List TopLevel) (s : TextParser) : Prop where
  place : s.moduleAddr = addr
  wellFormed : WellFormed s.module.symbols
  few : s.module.symbols.symbolNames.length + n < 2 ^ 30
  sound : ∀ name id, s.globalMap.lookup name = some id →
    lrModuleSymbolName s.module.symbols id = some (currentName addr done name)
  known : ∀ d ∈ done, isLocal d = true → (s.globalMap.lookup (nameOf d)).isSome = true

def globalNames (m : LrModule) : List (CStr × Option LrType) :=
  m.globals.map fun g => (g.name, g.type)

def funcNames (m : LrModule) : List CStr := m.funcs.map LrFunc.name

/-- `m'` has the symbols and the definitions of `m` and perhaps more. -/
structure Extends (m m' : LrModule) : Prop where
  symbols : m.symbols.symbolNames <+: m'.symbols.symbolNames
  globals : globalNames m <+: globalNames m'
  funcs : funcNames m <+: funcNames m'

theorem Extends.refl (m : LrModule) : Extends m m :=
  ⟨prefix_rfl, prefix_rfl, prefix_rfl⟩

theorem Extends.trans {m m₁ m' : LrModule} (h : Extends m m₁) (h' : Extends m₁ m') : Extends m m' :=
  ⟨h.symbols.trans h'.symbols, h.globals.trans h'.globals, h.funcs.trans h'.funcs⟩

theorem Extends.symbolOf {m m' : LrModule} (h : Extends m m') {u : Resolved} {name : CStr}
    (hu : symbolOf m u = some name) : symbolOf m' u = some name := by
  cases u with
  | operand id => exact symbolName_of_extends h.symbols hu
  | reloc _ => exact hu

theorem Extends.stores {m m' : LrModule} (h : Extends m m') {name : CStr} {t : TopLevel}
    (ht : Stores m name t) : Stores m' name t := by
  refine ⟨h.symbols.subset ht.1, ?_⟩
  cases t with
  | global g =>
    obtain ⟨-, g', hmem, hname, htype⟩ := ht
    have hpair : (g'.name, g'.type) ∈ globalNames m' := h.globals.subset (mem_map.2 ⟨g', hmem, rfl⟩)
    obtain ⟨g'', hmem', heq⟩ := mem_map.1 hpair
    rw [Prod.mk.injEq] at heq
    exact ⟨g'', hmem', heq.1.trans hname, heq.2.trans htype⟩
  | func f =>
    obtain ⟨-, f', hmem, hname⟩ := ht
    exact mem_map.1 (h.funcs.subset (mem_map.2 ⟨f', hmem, hname⟩))

theorem map_modify_of_eq {α β : Type} (l : List α) (i : Nat) {change : α → α} {read : α → β}
    (h : ∀ a, read (change a) = read a) : (l.modify i change).map read = l.map read := by
  refine ext_getElem? fun j => ?_
  rw [getElem?_map, getElem?_map, getElem?_modify]
  split
  · cases l[j]? with
    | none => rfl
    | some a => simp [h]
  · simp

theorem Extends.modifyGlobal (m : LrModule) (i : Nat) {change : LrGlobal → LrGlobal}
    (h : ∀ g, ((change g).name, (change g).type) = (g.name, g.type)) :
    Extends m { m with globals := m.globals.modify i change } := by
  refine ⟨prefix_rfl, ?_, prefix_rfl⟩
  rw [globalNames, globalNames, map_modify_of_eq m.globals i h]

theorem Extends.updateFunc (m : LrModule) (i : Nat) {change : LrFunc → LrFunc}
    (h : ∀ f, (change f).name = f.name) : Extends m (updateFunc m i change) := by
  refine ⟨prefix_rfl, prefix_rfl, ?_⟩
  change funcNames m <+: (m.funcs.modify i change).map LrFunc.name
  rw [funcNames, map_modify_of_eq m.funcs i h]

section Table
variable {addr n : Nat} {done : List TopLevel} {s s' : TextParser} {name : CStr} {id : Nat}

theorem id_ne_max (hfew : s.module.symbols.symbolNames.length < 2 ^ 30)
    (h : lrModuleSymbolName s.module.symbols id = some name) : id ≠ uint32Max := by
  have hlt := symbolName_lt h
  simp only [SymbolTable.numSymbols, uint32Max] at hlt ⊢
  omega

variable {map : List (CStr × Nat)}

theorem lookup_append_of_ne {k : CStr} (h : k ≠ name) :
    (map ++ [(name, id)]).lookup k = map.lookup k := by
  rw [lookup_append]
  have hnone : [(name, id)].lookup k = none := by simp [lookup_cons, beq_eq_false_iff_ne.2 h]
  rw [hnone, or_none]

theorem lookup_append_self (h : map.lookup name = none) :
    (map ++ [(name, id)]).lookup name = some id := by
  rw [lookup_append, h]
  simp

theorem lookup_override (map : List (CStr × Nat)) (k : CStr) :
    (overrideEntry name id map).lookup k = if k = name then some id else map.lookup k := by
  induction map with
  | nil =>
    by_cases h : k = name
    · simp [overrideEntry, h]
    · simp [overrideEntry, lookup_cons, beq_eq_false_iff_ne.2 h, h]
  | cons e rest ih =>
    obtain ⟨a, i⟩ := e
    unfold overrideEntry
    by_cases ha : a = name
    · rw [if_pos ha]
      by_cases h : k = name
      · simp [h]
      · have hne : (k == a) = false := beq_eq_false_iff_ne.2 fun heq => h (heq.trans ha)
        simp [lookup_cons, beq_eq_false_iff_ne.2 h, hne, h]
    · rw [if_neg ha, lookup_cons, lookup_cons, ih]
      by_cases hk : k = a
      · have hne : k ≠ name := fun heq => ha (hk ▸ heq)
        simp [hk, ha]
      · rw [beq_eq_false_iff_ne.2 hk]

/-- A name is interned under an id that has this name from then on. -/
theorem internSymbol_run (h : Named addr (n + 1) done s) (hname : name ≠ []) :
    ∃ id s', internSymbol name s = some (id, s') ∧ Named addr n done s' ∧
      Extends s.module s'.module ∧ lrModuleSymbolName s'.module.symbols id = some name ∧
      s'.globalMap = s.globalMap := by
  have hfew := h.few
  obtain ⟨m', id, hrun, hwf, hext, hcount, hid⟩ := intern_named h.wellFormed name
    (by rw [SymbolTable.numSymbols]; omega)
  refine ⟨id, { s with module := { s.module with symbols := m' } }, ?_,
    ⟨h.place, hwf, ?_, ?_, h.known⟩, ⟨hext, prefix_rfl, prefix_rfl⟩, hid, rfl⟩
  · rw [internSymbol, if_neg (by simpa using hname), hrun]
    rfl
  · simp only [SymbolTable.numSymbols] at hcount ⊢
    omega
  · exact fun k i hk => symbolName_of_extends hext (h.sound k i hk)

theorem Named.mono {n' : Nat} (h : Named addr n done s) (hle : n' ≤ n) : Named addr n' done s :=
  ⟨h.place, h.wellFormed, by have := h.few; omega, h.sound, h.known⟩

theorem Named.lookup_cases (h : Named addr n done s) (name : CStr) :
    (∃ id, s.globalMap.lookup name = some id ∧ id ≠ uint32Max ∧
      lrModuleSymbolName s.module.symbols id = some (currentName addr done name)) ∨
    (s.globalMap.lookup name = none ∧ currentName addr done name = name) := by
  cases hlookup : s.globalMap.lookup name with
  | some id =>
    have hsym := h.sound name id hlookup
    have hfew := h.few
    exact .inl ⟨id, rfl, id_ne_max (by omega) hsym, hsym⟩
  | none =>
    refine .inr ⟨rfl, currentName_of_none fun d hd hlocal hname => ?_⟩
    have hknown := h.known d hd hlocal
    rw [hname, hlookup] at hknown
    cases hknown

/-- Registration of a name that is not there. -/
theorem Named.register (h : Named addr n done s) (hnone : s.globalMap.lookup name = none)
    (hsym : lrModuleSymbolName s.module.symbols id = some (currentName addr done name)) :
    Named addr n done { s with globalMap := s.globalMap ++ [(name, id)] } := by
  refine ⟨h.place, h.wellFormed, h.few, fun k i hk => ?_, fun d hd hlocal => ?_⟩
  · by_cases hkn : k = name
    · rw [hkn, lookup_append_self hnone, Option.some.injEq] at hk
      rw [← hk, hkn]
      exact hsym
    · rw [lookup_append_of_ne hkn] at hk
      exact h.sound k i hk
  · by_cases hdn : nameOf d = name
    · rw [hdn, lookup_append_self hnone]
      rfl
    · rw [lookup_append_of_ne hdn]
      exact h.known d hd hlocal

/-- An operand gets the symbol that its name stands for. -/
theorem operandGlobal_run (h : Named addr (n + 1) done s) (hname : name ≠ []) :
    ∃ id s', operandGlobal name s = some (id, s') ∧ Named addr n done s' ∧
      Extends s.module s'.module ∧
      lrModuleSymbolName s'.module.symbols id = some (currentName addr done name) := by
  have hresolve : resolveGlobal name s = some ((s.globalMap.lookup name).getD uint32Max, s) := rfl
  obtain ⟨id, hlookup, hne, hsym⟩ | ⟨hlookup, hself⟩ := h.lookup_cases name
  · refine ⟨id, s, ?_, h.mono (Nat.le_succ n), Extends.refl s.module, hsym⟩
    rw [operandGlobal, run_bind hresolve, hlookup, getD_some, if_neg hne]
    rfl
  · obtain ⟨id, s', hrun, hnamed, hext, hsym, hmap⟩ := internSymbol_run h hname
    refine ⟨id, { s' with globalMap := s'.globalMap ++ [(name, id)] }, ?_,
      hnamed.register (by rw [hmap]; exact hlookup) (by rw [hself]; exact hsym), hext,
      by rw [hself]; exact hsym⟩
    rw [operandGlobal, run_bind hresolve, hlookup, getD_none, if_pos rfl, run_bind hrun]
    rfl

/-- A new name of a symbol is registered, an old one stays. -/
theorem registerIfNew_run (h : Named addr n done s)
    (hsym : s.globalMap.lookup name = none →
      lrModuleSymbolName s.module.symbols id = some (currentName addr done name)) :
    ∃ s', registerIfNew name id s = some ((), s') ∧ Named addr n done s' ∧
      s'.module = s.module := by
  have hresolve : resolveGlobal name s = some ((s.globalMap.lookup name).getD uint32Max, s) := rfl
  obtain ⟨i, hlookup, hne, -⟩ | ⟨hlookup, -⟩ := h.lookup_cases name
  · refine ⟨s, ?_, h, rfl⟩
    rw [registerIfNew, run_bind hresolve, hlookup, getD_some, if_neg hne]
    rfl
  · refine ⟨{ s with globalMap := s.globalMap ++ [(name, id)] }, ?_,
      h.register hlookup (hsym hlookup), rfl⟩
    rw [registerIfNew, run_bind hresolve, hlookup, getD_none, if_pos rfl]
    rfl

theorem Named.skip {t : TopLevel} (h : Named addr n done s) (ht : isLocal t = false) :
    Named addr n (done ++ [t]) s := by
  refine ⟨h.place, h.wellFormed, h.few, fun k i hk => ?_, fun d hd hlocal => ?_⟩
  · rw [currentName_other (.inl ht)]
    exact h.sound k i hk
  · obtain hd | hd := mem_append.1 hd
    · exact h.known d hd hlocal
    · rw [mem_singleton.1 hd, ht] at hlocal
      cases hlocal

theorem Named.override {t : TopLevel} (h : Named addr n done s) (ht : isLocal t = true)
    (hsym : lrModuleSymbolName s.module.symbols id = some (storedName addr t)) :
    Named addr n (done ++ [t])
      { s with globalMap := overrideEntry (nameOf t) id s.globalMap } := by
  refine ⟨h.place, h.wellFormed, h.few, fun k i hk => ?_, fun d hd hlocal => ?_⟩
  · rw [lookup_override] at hk
    by_cases hkt : k = nameOf t
    · rw [if_pos hkt, Option.some.injEq] at hk
      rw [← hk, hkt, currentName_local ht]
      exact hsym
    · rw [if_neg hkt] at hk
      rw [currentName_other (.inr fun heq => hkt heq.symm)]
      exact h.sound k i hk
  · rw [lookup_override]
    by_cases hdt : nameOf d = nameOf t
    · rw [if_pos hdt]
      rfl
    · rw [if_neg hdt]
      obtain hd | hd := mem_append.1 hd
      · exact h.known d hd hlocal
      · exact absurd (congrArg nameOf (mem_singleton.1 hd)) hdt

/-- Behind a definition its name stands for the symbol of the definition if it is local. -/
theorem registerDefinition_run {t : TopLevel} (h : Named addr n done s)
    (hsym : lrModuleSymbolName s.module.symbols id = some (storedName addr t)) :
    ∃ s', registerDefinition (isLocal t) (nameOf t) (storedName addr t) id s = some ((), s') ∧
      Named addr n (done ++ [t]) s' ∧ s'.module = s.module := by
  cases ht : isLocal t with
  | true =>
    have hover : registerGlobalOverride (nameOf t) id s = some ((), { s with
      globalMap := overrideEntry (nameOf t) id s.globalMap }) := rfl
    have hnew : (overrideEntry (nameOf t) id s.globalMap).lookup (storedName addr t) = none →
        lrModuleSymbolName s.module.symbols id =
          some (currentName addr (done ++ [t]) (storedName addr t)) := by
      intro hnone
      have hne : storedName addr t ≠ nameOf t := by
        intro heq
        rw [heq, lookup_override, if_pos rfl] at hnone
        cases hnone
      rw [currentName_stored hne]
      exact hsym
    obtain ⟨s', hrun, hnamed, hmodule⟩ := registerIfNew_run (h.override ht hsym) hnew
    refine ⟨s', ?_, hnamed, hmodule⟩
    rw [registerDefinition, if_pos rfl, run_bind hover]
    exact hrun
  | false =>
    have hown : storedName addr t = nameOf t := storedName_of_not_local ht
    rw [hown] at hsym ⊢
    have hnew : ∀ {done' : List TopLevel} {s₁ : TextParser}, Named addr n done' s₁ →
        s₁.module = s.module → s₁.globalMap.lookup (nameOf t) = none →
        lrModuleSymbolName s₁.module.symbols id = some (currentName addr done' (nameOf t)) := by
      intro done' s₁ hnamed hmodule hnone
      obtain ⟨i, hlookup, -⟩ | ⟨-, hself⟩ := hnamed.lookup_cases (nameOf t)
      · rw [hlookup] at hnone
        cases hnone
      · rw [hself, hmodule]
        exact hsym
    obtain ⟨s₁, hrun₁, hnamed₁, hmodule₁⟩ := registerIfNew_run h (hnew h rfl)
    have hnamed₂ := hnamed₁.skip ht
    obtain ⟨s₂, hrun₂, hnamed', hmodule₂⟩ := registerIfNew_run hnamed₂ (hnew hnamed₂ hmodule₁)
    refine ⟨s₂, ?_, hnamed', hmodule₂.trans hmodule₁⟩
    rw [registerDefinition, if_neg Bool.false_ne_true, run_bind hrun₁]
    exact hrun₂

end Table

section Definitions
variable {addr n : Nat} {done : List TopLevel} {s : TextParser}

theorem Named.module {s' : TextParser} (h : Named addr n done s)
    (hplace : s'.moduleAddr = s.moduleAddr) (hsymbols : s'.module.symbols = s.module.symbols)
    (hmap : s'.globalMap = s.globalMap) : Named addr n done s' := by
  refine ⟨hplace.trans h.place, hsymbols ▸ h.wellFormed, hsymbols ▸ h.few, ?_, ?_⟩
  · rw [hsymbols, hmap]
    exact h.sound
  · rw [hmap]
    exact h.known

theorem pushReloc_run (h : Named addr n done s) (r : LrReloc) :
    ∃ s', pushReloc r s = some ((), s') ∧ Named addr n done s' ∧ Extends s.module s'.module :=
  ⟨_, rfl, h.module rfl rfl rfl, .modifyGlobal s.module _ fun _ => rfl⟩

theorem initRef_run (h : Named addr (n + 1) done s) (r : InitRef) :
    ∃ u s', initRef r s = some (u, s') ∧ Named addr n done s' ∧ Extends s.module s'.module ∧
      symbolOf s'.module u = some (resolvedName addr done ⟨r.name.val, !r.constant⟩) := by
  obtain ⟨id, s₁, hrun, hnamed, hext, hsym⟩ := operandGlobal_run h r.name.property
  cases hconstant : r.constant with
  | true =>
    obtain ⟨s₂, hpush, hnamed₂, hext₂⟩ :=
      pushReloc_run hnamed ⟨r.offset, r.addend, currentName addr done r.name.val⟩
    have hget : (get : M TextParser) s₁ = some (s₁, s₁) := rfl
    refine ⟨.reloc (currentName addr done r.name.val), s₂, ?_, hnamed₂, hext.trans hext₂, rfl⟩
    rw [initRef, run_bind hrun, hconstant, if_pos rfl, run_bind hget, hsym]
    exact run_bind hpush
  | false =>
    obtain ⟨s₂, hpush, hnamed₂, hext₂⟩ := pushReloc_run hnamed ⟨r.offset, 0, r.name.val⟩
    refine ⟨.reloc r.name.val, s₂, ?_, hnamed₂, hext.trans hext₂, rfl⟩
    rw [initRef, run_bind hrun, hconstant, if_neg Bool.false_ne_true]
    exact run_bind hpush

theorem initRefs_run (refs : List InitRef) (h : Named addr (n + refs.length) done s) :
    ∃ us s', initRefs refs s = some (us, s') ∧ Named addr n done s' ∧
      Extends s.module s'.module ∧ us.map (symbolOf s'.module) =
        refs.map fun r => some (resolvedName addr done ⟨r.name.val, !r.constant⟩) := by
  induction refs generalizing s with
  | nil => exact ⟨[], s, rfl, h, Extends.refl s.module, rfl⟩
  | cons r rest ih =>
    obtain ⟨u, s₁, hrun, hnamed, hext, hsym⟩ := initRef_run (n := n + rest.length) h r
    obtain ⟨us, s', hruns, hnamed', hext', hsyms⟩ := ih hnamed
    refine ⟨u :: us, s', ?_, hnamed', hext.trans hext', ?_⟩
    · rw [initRefs, run_bind hrun, run_bind hruns]
      rfl
    · rw [map_cons, map_cons, hsyms, hext'.symbolOf hsym]

theorem operandGlobals_run (names : List GlobalId) (h : Named addr (n + names.length) done s) :
    ∃ us s', operandGlobals names s = some (us, s') ∧ Named addr n done s' ∧
      Extends s.module s'.module ∧ us.map (symbolOf s'.module) =
        names.map fun name => some (resolvedName addr done ⟨name.val, false⟩) := by
  induction names generalizing s with
  | nil => exact ⟨[], s, rfl, h, Extends.refl s.module, rfl⟩
  | cons name rest ih =>
    obtain ⟨id, s₁, hrun, hnamed, hext, hsym⟩ :=
      operandGlobal_run (n := n + rest.length) h name.property
    obtain ⟨us, s', hruns, hnamed', hext', hsyms⟩ := ih hnamed
    refine ⟨.operand id :: us, s', ?_, hnamed', hext.trans hext', ?_⟩
    · rw [operandGlobals, run_bind hrun, run_bind hruns]
      rfl
    · rw [map_cons, map_cons, hsyms]
      congr 1
      exact hext'.symbolOf (u := .operand id) hsym

/-- What reading a definition does: its references have their symbols, and the module
stores it. -/
structure Reads (addr n : Nat) (done : List TopLevel) (t : TopLevel) (s s' : TextParser)
    (us : List Resolved) : Prop where
  named : Named addr n (done ++ [t]) s'
  extended : Extends s.module s'.module
  symbols : us.map (symbolOf s'.module) =
    (references t).map fun r => some (resolvedName addr (done ++ [t]) r)
  stored : Stores s'.module (storedName addr t) t

theorem parseGlobal_run (g : GlobalText) (h : Named addr (n + (1 + g.refs.length)) done s) :
    ∃ us s', parseGlobal g s = some (us, s') ∧ Reads addr n done (.global g) s s' us := by
  obtain ⟨s₁, hcreate⟩ : ∃ s₁, s₁ = { s with
    module := lrGlobalCreate s.module (globalName addr g) (some g.type) g.isConst } := ⟨_, rfl⟩
  have hnamed₁ : Named addr (n + g.refs.length + 1) done s₁ :=
    (h.module (by rw [hcreate]) (by rw [hcreate]; rfl) (by rw [hcreate])).mono (by omega)
  have hext₁ : Extends s.module s₁.module := by
    rw [hcreate]
    refine ⟨prefix_rfl, ?_, prefix_rfl⟩
    exact ⟨[(globalName addr g, some g.type)], by simp [globalNames, lrGlobalCreate]⟩
  have hmem : (globalName addr g, some g.type) ∈ globalNames s₁.module := by
    rw [hcreate]
    exact mem_map.2 ⟨_, mem_append_right _ (mem_singleton.2 rfl), rfl⟩
  obtain ⟨id, s₂, hintern, hnamed₂, hext₂, hsym, -⟩ :=
    internSymbol_run hnamed₁ (storedName_ne_nil addr (.global g))
  obtain ⟨s₃, hregister, hnamed₃, hmodule⟩ := registerDefinition_run (t := .global g) hnamed₂ hsym
  have hstored : Stores s₂.module (globalName addr g) (.global g) := by
    obtain ⟨g', hg', heq⟩ := mem_map.1 (hext₂.globals.subset hmem)
    rw [Prod.mk.injEq] at heq
    exact ⟨symbolName_mem hsym, g', hg', heq⟩
  obtain ⟨change, hchange⟩ : ∃ change : LrGlobal → LrGlobal, change = fun ng => { ng with
    isLocal := g.linkageLocal
    isExternal := g.linkageExternal && !g.sawInitializer
    initData := g.initData
    initSize := (g.initData.getD []).length } := ⟨_, rfl⟩
  obtain ⟨s₄, hupdate⟩ : ∃ s₄, updateLastGlobal change s₃ = some ((), s₄) ∧
      s₄ = { s₃ with module := { s₃.module with
        globals := s₃.module.globals.modify (s₃.module.globals.length - 1) change } } :=
    ⟨_, rfl, rfl⟩
  have hnamed₄ : Named addr (n + g.refs.length) (done ++ [.global g]) s₄ :=
    hnamed₃.module (by rw [hupdate.2]) (by rw [hupdate.2]) (by rw [hupdate.2])
  have hext₄ : Extends s₂.module s₄.module := by
    rw [hupdate.2, hmodule]
    exact .modifyGlobal s₂.module _ fun _ => by rw [hchange]
  obtain ⟨us, s', hrefs, hnamed', hext', hsyms⟩ := initRefs_run g.refs hnamed₄
  refine ⟨us, s', ?_, hnamed', hext₁.trans (hext₂.trans (hext₄.trans hext')), ?_,
    (hext₄.trans hext').stores hstored⟩
  · have hget : (get : M TextParser) s = some (s, s) := rfl
    have hcreated : updateModule (fun m => lrGlobalCreate m (globalName addr g) (some g.type)
        g.isConst) s = some ((), s₁) := by
      rw [hcreate]
      rfl
    rw [parseGlobal, run_bind hget, h.place, run_bind hcreated]
    refine (run_bind hintern).trans ((run_bind hregister).trans ?_)
    rw [← hchange, run_bind hupdate.1]
    exact hrefs
  · rw [hsyms, references, List.map_map]
    rfl

/-- The function is created, and the symbols stay: its name is one of them. -/
theorem createFunction_run (f : FuncText) {stored : CStr} (h : Named addr n done s)
    (hmem : stored ∈ s.module.symbols.symbolNames) :
    ∃ s', createFunction f stored s = some ((), s') ∧ Named addr n done s' ∧
      s'.module.symbols = s.module.symbols ∧ Extends s.module s'.module ∧
      ∃ f' ∈ s'.module.funcs, f'.name = stored := by
  have hcreate := lrFuncCreate_known h.wellFormed hmem f.retType f.paramTypes f.vararg
  -- what either way of creating it leaves
  have hfinish : ∀ (m : LrModule) (i : Nat), m.symbols = s.module.symbols →
      Extends s.module m → stored ∈ funcNames m →
      Named addr n done { s with module := updateFunc m i fun nf =>
        { nf with usesLlvmAbi := true } } ∧
      Extends s.module (updateFunc m i fun nf => { nf with usesLlvmAbi := true }) ∧
      ∃ f' ∈ (updateFunc m i fun nf => { nf with usesLlvmAbi := true }).funcs,
        f'.name = stored := by
    intro m i hsymbols hext hstored
    have hupdate : Extends m (updateFunc m i fun nf => { nf with usesLlvmAbi := true }) :=
      .updateFunc m i fun _ => rfl
    refine ⟨h.module rfl hsymbols rfl, hext.trans hupdate, ?_⟩
    exact mem_map.1 (hupdate.funcs.subset hstored)
  have hnew : ∀ m nf, lrFuncCreate s.module stored f.retType f.paramTypes f.vararg =
      some (m, nf) → m.symbols = s.module.symbols ∧ Extends s.module m ∧ stored ∈ funcNames m := by
    intro m nf hm
    obtain ⟨rfl, -⟩ := Prod.mk.inj (Option.some.inj (hcreate.symm.trans hm))
    refine ⟨rfl, ⟨prefix_rfl, prefix_rfl, ?_⟩, ?_⟩
    · exact ⟨[stored], by simp [funcNames, createdFunc]⟩
    · simp [funcNames, createdFunc]
  unfold createFunction
  cases hdecl : f.isDecl with
  | false =>
    obtain ⟨hsymbols, hext, hstored⟩ := hnew _ _ hcreate
    obtain ⟨hnamed, hext', hmem'⟩ := hfinish _ _ hsymbols hext hstored
    exact ⟨_, by rw [hcreate]; rfl, hnamed, hsymbols, hext', hmem'⟩
  | true =>
    unfold lrFuncDeclare
    cases hfind : funcByName s.module stored with
    | some i =>
      obtain ⟨f', -, hf', hname⟩ := funcByName_some hfind
      obtain ⟨hnamed, hext, hmem'⟩ := hfinish s.module i rfl (Extends.refl s.module)
        (mem_map.2 ⟨f', hf', hname⟩)
      exact ⟨_, by simp only [if_true, map_some, hfind, getD_some], hnamed, rfl, hext, hmem'⟩
    | none =>
      obtain ⟨hsymbols, hext, hstored⟩ := hnew _ _ hcreate
      obtain ⟨m, hm⟩ : ∃ m : LrModule, m = { s.module with
          funcs := s.module.funcs ++ [createdFunc s.module.symbols s.module.nextAddr stored
            f.retType f.paramTypes f.vararg]
          nextAddr := s.module.nextAddr + 1
          localFunctionCollisionScanDirty := true } := ⟨_, rfl⟩
      rw [← hm] at hcreate hsymbols hext hstored
      obtain ⟨d, hd⟩ : ∃ d, d = updateFunc m (m.funcs.length - 1) fun nf =>
          { nf with isDecl := true } := ⟨_, rfl⟩
      have hdeclared : Extends m d := by
        rw [hd]
        exact .updateFunc m _ fun _ => rfl
      have hsymbols' : d.symbols = s.module.symbols := by
        rw [hd]
        exact hsymbols
      obtain ⟨hnamed, hext', hmem'⟩ := hfinish d ((funcByName d stored).getD 0) hsymbols'
        (hext.trans hdeclared) (hdeclared.funcs.subset hstored)
      refine ⟨_, ?_, hnamed, hsymbols', hext', hmem'⟩
      simp only [if_true, hcreate, bind_eq_bind, bind_some, ← hd]
      rfl

theorem parseFunctionBody_run (f : FuncText) (h : Named addr (n + f.operands.length) done s) :
    ∃ us s', parseFunctionBody f s = some (us, s') ∧ Named addr n done s' ∧
      Extends s.module s'.module ∧ us.map (symbolOf s'.module) =
        f.operands.map fun name => some (resolvedName addr done ⟨name.val, false⟩) := by
  obtain ⟨us, s₁, hrun, hnamed, hext, hsyms⟩ := operandGlobals_run f.operands h
  obtain ⟨m, hm⟩ : ∃ m, m = updateFunc s₁.module (s₁.module.funcs.length - 1) fun nf => { nf with
    blocks := f.body (Resolved.ids us)
    numBlocks := (f.body (Resolved.ids us)).length } := ⟨_, rfl⟩
  have hbody : Extends s₁.module m := by
    rw [hm]
    exact .updateFunc s₁.module _ fun _ => rfl
  refine ⟨us, { s₁ with module := m }, ?_,
    hnamed.module rfl (by rw [hm]; rfl) rfl, hext.trans hbody, ?_⟩
  · rw [parseFunctionBody, run_bind hrun, hm]
    rfl
  · rw [← hsyms]
    refine map_congr_left fun u hu => ?_
    cases u with
    | operand id =>
      rw [hm]
      rfl
    | reloc _ => rfl

theorem parseFunctionDef_run (f : FuncText)
    (h : Named addr (n + (1 + (references (.func f)).length)) done s) :
    ∃ us s', parseFunctionDef f s = some (us, s') ∧ Reads addr n done (.func f) s s' us := by
  have h₁ : Named addr (n + (references (.func f)).length + 1) done s := h.mono (by omega)
  obtain ⟨id, s₁, hintern, hnamed₁, hext₁, hsym, -⟩ :=
    internSymbol_run h₁ (storedName_ne_nil addr (.func f))
  obtain ⟨s₂, hcreate, hnamed₂, hsymbols, hext₂, hmem⟩ :=
    createFunction_run f hnamed₁ (symbolName_mem hsym)
  rw [← hsymbols] at hsym
  obtain ⟨s₃, hregister, hnamed₃, hmodule⟩ := registerDefinition_run (t := .func f) hnamed₂ hsym
  have hget : (get : M TextParser) s = some (s, s) := rfl
  have hext₃ : Extends s.module s₃.module := by
    rw [hmodule]
    exact hext₁.trans hext₂
  have hstored : Stores s₃.module (funcName addr f) (.func f) := by
    rw [hmodule]
    exact ⟨symbolName_mem hsym, hmem⟩
  have hheader : parseFunctionDef f s =
      (if f.isDecl then pure [] else parseFunctionBody f) s₃ := by
    rw [parseFunctionDef, run_bind hget, h.place]
    exact (run_bind hintern).trans ((run_bind hcreate).trans (run_bind hregister))
  rw [hheader]
  cases hdecl : f.isDecl with
  | true =>
    refine ⟨[], s₃, rfl, hnamed₃.mono (by omega), hext₃, ?_, hstored⟩
    rw [references, hdecl]
    rfl
  | false =>
    have hrefs : references (.func f) = f.operands.map fun name => ⟨name.val, false⟩ := by
      rw [references, hdecl]
      rfl
    rw [hrefs, length_map] at hnamed₃
    obtain ⟨us, s', hrun, hnamed', hext', hsyms⟩ := parseFunctionBody_run f hnamed₃
    refine ⟨us, s', hrun, hnamed', hext₃.trans hext', ?_, hext'.stores hstored⟩
    rw [hsyms, hrefs, List.map_map]
    rfl

theorem parseTopLevel_run (t : TopLevel) (h : Named addr (n + (1 + (references t).length)) done s) :
    ∃ us s', parseTopLevel t s = some (us, s') ∧ Reads addr n done t s s' us := by
  cases t with
  | global g =>
    rw [references, length_map] at h
    exact parseGlobal_run g h
  | func f => exact parseFunctionDef_run f h

end Definitions

variable {names : List CStr}

theorem symbols_map_of_extends {m m' : LrModule} (h : Extends m m') {us : List Resolved} (hus : us.map (symbolOf m) = names.map some) :
    us.map (symbolOf m') = names.map some := by
  rw [← hus]
  refine map_congr_left fun u hu => ?_
  have hmem : symbolOf m u ∈ names.map some := hus ▸ mem_map_of_mem hu
  obtain ⟨name, -, hname⟩ := mem_map.1 hmem
  rw [← hname]
  exact h.symbolOf hname.symm

/-- The references of the definition number `i`. -/
def RefsAt (addr : Nat) (before text : List TopLevel) (m : LrModule) (uss : List (List Resolved))
    (i : Nat) (t : TopLevel) : Prop :=
  ∃ us, uss[i]? = some us ∧ us.map (symbolOf m) =
    ((references t).map (resolvedName addr (before ++ text.take (i + 1)))).map some

theorem parseTopLevels_run {addr n : Nat} (text : List TopLevel) {done : List TopLevel}
    {s : TextParser} (h : Named addr (n + nameCount text) done s) :
    ∃ uss s', parseTopLevels text s = some (uss, s') ∧ Named addr n (done ++ text) s' ∧
      Extends s.module s'.module ∧
      (∀ i t, text[i]? = some t → RefsAt addr done text s'.module uss i t) ∧
      ∀ t ∈ text, Stores s'.module (storedName addr t) t := by
  induction text generalizing done s with
  | nil =>
    rw [append_nil]
    exact ⟨[], s, rfl, h, Extends.refl s.module, by simp, by simp⟩
  | cons t rest ih =>
    have hcount : nameCount (t :: rest) = nameCount rest + (1 + (references t).length) := by
      simp only [nameCount, map_cons, sum_cons]
      omega
    rw [hcount, ← Nat.add_assoc] at h
    obtain ⟨us, s₁, hfirst, hreads⟩ := parseTopLevel_run t h
    obtain ⟨uss, s', hrest, hnamed, hext, hrefs, hstores⟩ := ih hreads.named
    refine ⟨us :: uss, s', ?_, ?_, hreads.extended.trans hext, ?_, ?_⟩
    · rw [parseTopLevels, run_bind hfirst, run_bind hrest]
      rfl
    · rw [append_assoc] at hnamed
      exact hnamed
    · intro i t' ht'
      cases i with
      | zero =>
        obtain rfl : t = t' := Option.some.inj ht'
        refine ⟨us, rfl, symbols_map_of_extends hext ?_⟩
        rw [hreads.symbols, List.map_map]
        rfl
      | succ i =>
        obtain ⟨us', hus', hsyms⟩ := hrefs i t' ht'
        refine ⟨us', hus', ?_⟩
        rw [hsyms, append_assoc]
        rfl
    · intro t' ht'
      obtain rfl | ht' := mem_cons.1 ht'
      · exact hext.stores hreads.stored
      · exact hstores t' ht'

theorem lrParseLlText_run (addr nextAddr : Nat) (text : List TopLevel)
    (hfew : nameCount text < 2 ^ 30) :
    ∃ uss m, lrParseLlText addr nextAddr text = some (uss, m) ∧
      (∀ i t, text[i]? = some t → RefsAt addr [] text m uss i t) ∧
      ∀ t ∈ text, Stores m (storedName addr t) t := by
  obtain ⟨s, hs⟩ : ∃ s : TextParser, s = {
      module := { builtin := lrModuleCreateTypes nextAddr, nextAddr := nextAddr + 11 }
      moduleAddr := addr } := ⟨_, rfl⟩
  have hnamed : Named addr (0 + nameCount text) [] s := by
    rw [hs]
    refine ⟨rfl, wellFormed_empty, ?_, nofun, nofun⟩
    rw [Nat.zero_add]
    exact (Nat.zero_add _).trans_lt hfew
  obtain ⟨uss, s', hrun, -, -, hrefs, hstores⟩ := parseTopLevels_run text hnamed
  refine ⟨uss, s'.module, ?_, hrefs, hstores⟩
  rw [lrParseLlText, ← hs, hrun]
  rfl

/-- The definition is stored under its own name, and so are all of its name above the end of
definition `i`. -/
def OwnName (addr : Nat) (text : List TopLevel) (i : Nat) (r : Reference) (d : TopLevel) : Prop :=
  storedName addr d = r.name ∧
    ∀ d' ∈ text.take (i + 1), nameOf d' = r.name → storedName addr d' = r.name

/-- The definition `d` at place `j` is local and the last local one of its name above the end
of definition `i`, and the reference is no pointer alone in an initializer. -/
def LastAbove (text : List TopLevel) (i : Nat) (r : Reference) (j : Nat) (d : TopLevel) : Prop :=
  r.bare = false ∧ isLocal d = true ∧ j ≤ i ∧
    ∀ k d', j < k → k ≤ i → text[k]? = some d' → isLocal d' = true → nameOf d' ≠ r.name

theorem currentName_of_last {addr : Nat} {d : TopLevel} {name : CStr} (hj : text[j]? = some d)
    (hname : nameOf d = name) (hlocal : isLocal d = true) (hle : j ≤ i)
    (hlast : ∀ k d', j < k → k ≤ i → text[k]? = some d' → isLocal d' = true → nameOf d' ≠ name) :
    currentName addr (text.take (i + 1)) name = storedName addr d := by
  induction i with
  | zero =>
    obtain rfl : j = 0 := Nat.le_zero.1 hle
    have htake : text.take (0 + 1) = [] ++ [d] := by
      cases text with
      | nil => cases hj
      | cons t rest =>
        obtain rfl : t = d := Option.some.inj hj
        rfl
    rw [htake, ← hname]
    exact currentName_local hlocal
  | succ i ih =>
    rw [take_add_one]
    by_cases hji : j = i + 1
    · rw [← hji, hj, ← hname]
      exact currentName_local hlocal
    · have hle' : j ≤ i := by omega
      have hbefore := ih hle' fun k d' hjk hki => hlast k d' hjk (Nat.le_succ_of_le hki)
      cases hget : text[i + 1]? with
      | none =>
        rw [toList_none, append_nil]
        exact hbefore
      | some d' =>
        rw [toList_some, currentName_other, hbefore]
        cases hlocal' : isLocal d' with
        | false => exact .inl rfl
        | true => exact .inr (hlast (i + 1) d' (by omega) le_rfl hget hlocal')

theorem resolvedName_eq {addr : Nat} {r : Reference} {d : TopLevel} (hj : text[j]? = some d)
    (hname : nameOf d = r.name) (h : OwnName addr text i r d ∨ LastAbove text i r j d) :
    resolvedName addr (text.take (i + 1)) r = storedName addr d := by
  unfold resolvedName
  obtain ⟨hown, hall⟩ | ⟨hbare, hlocal, hle, hlast⟩ := h
  · rw [hown, currentName_of_none fun d' hd' _ hname' => hall d' hd' hname', ite_self]
  · rw [hbare]
    exact currentName_of_last hj hname hlocal hle hlast

/-- The reference `k` of the definition `i` is to the symbol under which the module stores
the definition `d`. -/
def ResolvesTo (addr : Nat) (m : LrModule) (uss : List (List Resolved)) (i k : Nat)
    (d : TopLevel) : Prop :=
  ∃ us u, uss[i]? = some us ∧ us[k]? = some u ∧ symbolOf m u = some (storedName addr d) ∧
    Stores m (storedName addr d) d

theorem resolvesTo_of_refsAt {addr : Nat} {m : LrModule} {uss : List (List Resolved)} {k : Nat}
    {t d : TopLevel} {r : Reference} (hrefs : RefsAt addr [] text m uss i t)
    (hk : (references t)[k]? = some r) (hj : text[j]? = some d) (hname : nameOf d = r.name)
    (hstores : Stores m (storedName addr d) d)
    (h : OwnName addr text i r d ∨ LastAbove text i r j d) : ResolvesTo addr m uss i k d := by
  obtain ⟨us, hus, hsyms⟩ := hrefs
  have hplace : (us.map (symbolOf m))[k]? = some (some (storedName addr d)) := by
    rw [hsyms, getElem?_map, getElem?_map, hk, nil_append]
    exact congrArg (fun name => some (some name)) (resolvedName_eq hj hname h)
  rw [getElem?_map] at hplace
  obtain ⟨u, hu, hsym⟩ := map_eq_some_iff.1 hplace
  exact ⟨us, u, hus, hu, hsym, hstores⟩

/-- `m` has been merged into `d`, or is it. -/
inductive MergedInto (m : LrModule) : LrModule → Prop
  | self : MergedInto m m
  | merge {dest d : LrModule} (h : lrModuleMerge dest m = some d) : MergedInto m d
  | later {dest src d : LrModule} (h : MergedInto m dest)
      (hmerge : lrModuleMerge dest src = some d) : MergedInto m d

/-- `d` has the names of `m`. -/
structure Contains (m d : LrModule) : Prop where
  symbols : m.symbols.symbolNames ⊆ d.symbols.symbolNames
  globals : m.globals.map LrGlobal.name ⊆ d.globals.map LrGlobal.name

theorem Contains.refl (m : LrModule) : Contains m m := ⟨List.Subset.refl _, List.Subset.refl _⟩

theorem Contains.trans {m m' d : LrModule} (h : Contains m m') (h' : Contains m' d) :
    Contains m d := 
  ⟨List.Subset.trans h.symbols h'.symbols, List.Subset.trans h.globals h'.globals⟩

section Symbols
variable {m m' : SymbolTable} {name : CStr} {id : Nat}

theorem symbolIndexRebuild_names {minSymbols : Nat}
    (h : symbolIndexRebuild m minSymbols = some m') : m'.symbolNames = m.symbolNames := by
  unfold symbolIndexRebuild at h
  obtain ⟨cap, -, h⟩ := bind_eq_some_iff.1 h
  obtain ⟨index, -, h⟩ := bind_eq_some_iff.1 h
  cases h
  rfl

theorem allocateIndex_names (h : allocateIndex m = some m') : m'.symbolNames = m.symbolNames := by
  unfold allocateIndex at h
  split at h
  · exact symbolIndexRebuild_names h
  · exact congrArg SymbolTable.symbolNames (Option.some.inj h).symm

theorem growIndex_names (h : growIndex m = some m') : m'.symbolNames = m.symbolNames := by
  unfold growIndex at h
  split at h
  · exact symbolIndexRebuild_names h
  · exact congrArg SymbolTable.symbolNames (Option.some.inj h).symm

theorem growNames_names (m : SymbolTable) : (growNames m).symbolNames = m.symbolNames := by
  unfold growNames
  split
  · rfl
  · rfl

theorem searchLoop_hit {hash : BitVec 32} {stored : Nat}
    (h : searchLoop m hash name = some stored) (hne : stored ≠ 0) : name ∈ m.symbolNames := by
  obtain ⟨slot, hprobe, rfl⟩ := map_eq_some_iff.1 h
  have hstop := iterateUntil_stops hprobe
  simp only [Bool.or_eq_true, beq_iff_eq, Bool.and_eq_true, hne, false_or] at hstop
  exact mem_of_getElem? hstop.2

/-- Whatever the table is like: interning keeps the names and adds this one. -/
theorem intern_contains (h : lrModuleInternSymbol m name = some (m', id)) :
    m.symbolNames ⊆ m'.symbolNames ∧ name ∈ m'.symbolNames := by
  unfold lrModuleInternSymbol at h
  obtain ⟨m₁, halloc, h₁⟩ := bind_eq_some_iff.1 h
  obtain ⟨stored, hsearch, h₂⟩ := bind_eq_some_iff.1 h₁
  have hnames₁ := allocateIndex_names halloc
  split at h₂
  · next hne =>
    cases h₂
    exact ⟨hnames₁ ▸ List.Subset.refl _, searchLoop_hit hsearch hne⟩
  · obtain ⟨m₂, hgrow, h₃⟩ := bind_eq_some_iff.1 h₂
    have hnames₂ : m₂.symbolNames = m.symbolNames :=
      (growIndex_names hgrow).trans ((growNames_names m₁).trans hnames₁)
    unfold appendSymbol at h₃
    obtain ⟨index, -, h₄⟩ := bind_eq_some_iff.1 h₃
    cases h₄
    rw [← hnames₂]
    exact ⟨subset_append_left _ _, mem_append_right _ (mem_singleton.2 rfl)⟩

theorem internAll_contains {ids : List Nat} (h : internAll m names = some (m', ids)) :
    m.symbolNames ⊆ m'.symbolNames ∧ names ⊆ m'.symbolNames := by
  induction names generalizing m m' ids with
  | nil =>
    cases h
    exact ⟨List.Subset.refl _, nil_subset _⟩
  | cons name rest ih =>
    obtain ⟨⟨m₁, id⟩, hintern, h₁⟩ := bind_eq_some_iff.1 h
    obtain ⟨⟨m₂, ids'⟩, hall, h₂⟩ := bind_eq_some_iff.1 h₁
    cases h₂
    obtain ⟨hkeep, hname⟩ := intern_contains hintern
    obtain ⟨hkeep', hrest⟩ := ih hall
    exact ⟨List.Subset.trans hkeep hkeep', cons_subset.2 ⟨hkeep' hname, hrest⟩⟩

end Symbols

section Merge
variable {d d' src : LrModule}

variable {params : List LrType}

theorem lrFuncCreate_contains {m : LrModule} {name : CStr} {ret : LrType}
    {vararg : Bool} {f : LrFunc} (h : lrFuncCreate d name ret params vararg = some (m, f)) :
    Contains d m := by
  unfold lrFuncCreate at h
  obtain ⟨⟨symbols, id⟩, hintern, h₁⟩ := bind_eq_some_iff.1 h
  cases h₁
  exact ⟨(intern_contains hintern).1, List.Subset.refl _⟩

theorem lrFuncDeclare_contains {m : LrModule} {name : CStr} {ret : LrType}
    {vararg : Bool} (h : lrFuncDeclare d name ret params vararg = some m) : Contains d m := by
  unfold lrFuncDeclare at h
  split at h
  · cases h
    exact Contains.refl d
  · obtain ⟨⟨m₁, f⟩, hcreate, h₁⟩ := bind_eq_some_iff.1 h
    cases h₁
    exact ⟨(lrFuncCreate_contains hcreate).symbols, (lrFuncCreate_contains hcreate).globals⟩

theorem mergeNewFunc_contains {sf : LrFunc} (h : mergeNewFunc symbolRemap d sf = some d') :
    Contains d d' := by
  unfold mergeNewFunc at h
  simp only at h
  split at h
  · obtain ⟨⟨m₁, nf⟩, hcreate, h₁⟩ := bind_eq_some_iff.1 h
    cases h₁
    exact ⟨(lrFuncCreate_contains hcreate).symbols, (lrFuncCreate_contains hcreate).globals⟩
  · obtain ⟨m₁, hdeclare, h₁⟩ := bind_eq_some_iff.1 h
    cases h₁
    exact ⟨(lrFuncDeclare_contains hdeclare).symbols, (lrFuncDeclare_contains hdeclare).globals⟩

theorem mergeFunc_contains {sf : LrFunc} (h : mergeFunc symbolRemap d sf = some d') :
    Contains d d' := by
  unfold mergeFunc at h
  split at h
  · exact mergeNewFunc_contains h
  · split at h
    · cases h
    · split at h
      · obtain ⟨-, h⟩ := ite_none_left_eq_some.1 h
        cases h
        exact ⟨List.Subset.refl _, List.Subset.refl _⟩
      · cases h
        exact Contains.refl d

theorem mergeFuncs_contains {funcs : List LrFunc}
    (h : funcs.foldlM (mergeFunc symbolRemap) d = some d') : Contains d d' := by
  induction funcs generalizing d with
  | nil =>
    obtain rfl := Option.some.inj h
    exact Contains.refl d
  | cons sf rest ih =>
    rw [foldlM_cons] at h
    obtain ⟨d₁, hfirst, hrest⟩ := bind_eq_some_iff.1 h
    exact (mergeFunc_contains hfirst).trans (ih hrest)

theorem mergeGlobal_contains (d : LrModule) (sg : LrGlobal) :
    Contains d (mergeGlobal d sg) ∧ sg.name ∈ (mergeGlobal d sg).globals.map LrGlobal.name := by
  unfold mergeGlobal
  cases hfind : d.globals.findIdx? fun g => g.name == sg.name with
  | none =>
    have hnames : ∀ (g : LrGlobal) (change : LrGlobal → LrGlobal),
        (∀ g, (change g).name = g.name) →
        ((d.globals ++ [g]).modify ((d.globals ++ [g]).length - 1) change).map LrGlobal.name =
          d.globals.map LrGlobal.name ++ [g.name] := by
      intro g change hchange
      rw [map_modify_of_eq _ _ hchange, map_append]
      rfl
    have hglobals := hnames
      { name := sg.name, type := (inArena d (mergeRemapTypeOption d.builtin sg.type)).2,
        isConst := sg.isConst, id := d.globals.length }
      (fun ng => mergeCopyGlobalData { ng with
        isExternal := sg.isExternal, isLocal := sg.isLocal, isWeak := sg.isWeak } sg) fun g => by
          unfold mergeCopyGlobalData
          cases sg.initData with
          | none => rfl
          | some bytes =>
            simp only
            split
            · rfl
            · rfl
    refine ⟨⟨List.Subset.refl _, fun n hn => ?_⟩, ?_⟩
    · exact (congrArg (n ∈ ·) hglobals).mpr (mem_append_left _ hn)
    · exact (congrArg (sg.name ∈ ·) hglobals).mpr
        (mem_append_right _ (mem_singleton.2 rfl))
  | some i =>
    obtain ⟨hlt, hname, -⟩ := findIdx?_eq_some_iff_getElem.1 hfind
    have hmem : sg.name ∈ d.globals.map LrGlobal.name := by
      rw [← show d.globals[i].name = sg.name by simpa using hname]
      exact mem_map_of_mem (getElem_mem hlt)
    simp only [getElem?_eq_getElem hlt]
    split
    · have htake : ∀ type, (takeOverGlobal type sg d.globals[i]).name = d.globals[i].name := by
        intro type
        unfold takeOverGlobal mergeCopyGlobalData
        cases sg.initData with
        | none => rfl
        | some bytes =>
          simp only
          split
          · rfl
          · rfl
      have hglobals : ∀ type, (d.globals.set i (takeOverGlobal type sg d.globals[i])).map
          LrGlobal.name = d.globals.map LrGlobal.name := by
        intro type
        rw [map_set, htake, ← getElem_map LrGlobal.name (h := by simpa using hlt), set_getElem_self]
      refine ⟨⟨List.Subset.refl _, fun n hn => ?_⟩, ?_⟩
      · exact (congrArg (n ∈ ·) (hglobals _)).mpr hn
      · exact (congrArg (sg.name ∈ ·) (hglobals _)).mpr hmem
    · exact ⟨Contains.refl d, hmem⟩

theorem mergeGlobals_contains (globals : List LrGlobal) (d : LrModule) :
    Contains d (globals.foldl mergeGlobal d) ∧ globals.map LrGlobal.name ⊆
      (globals.foldl mergeGlobal d).globals.map LrGlobal.name := by
  induction globals generalizing d with
  | nil => exact ⟨Contains.refl d, nil_subset _⟩
  | cons sg rest ih =>
    obtain ⟨hkeep, hname⟩ := mergeGlobal_contains d sg
    obtain ⟨hkeep', hrest⟩ := ih (mergeGlobal d sg)
    exact ⟨hkeep.trans hkeep', cons_subset.2 ⟨hkeep'.globals hname, hrest⟩⟩

theorem merge_contains (h : lrModuleMerge d src = some d') : Contains d d' ∧ Contains src d' := by
  unfold lrModuleMerge at h
  obtain ⟨⟨symbols, symbolRemap⟩, hintern, h₁⟩ := bind_eq_some_iff.1 h
  obtain ⟨hkeep, hnew⟩ := internAll_contains hintern
  obtain ⟨hglobals, hsrc⟩ := mergeGlobals_contains src.globals { d with symbols := symbols }
  have hfuncs := mergeFuncs_contains h₁
  have hall := hglobals.trans hfuncs
  exact ⟨⟨List.Subset.trans hkeep hall.symbols, hall.globals⟩,
    ⟨List.Subset.trans hnew hall.symbols, List.Subset.trans hsrc hfuncs.globals⟩⟩

theorem MergedInto.contains {m : LrModule} (h : MergedInto m d) : Contains m d := by
  induction h with
  | self => exact Contains.refl m
  | merge h => exact (merge_contains h).2
  | later _ hmerge ih => exact ih.trans (merge_contains hmerge).1

end Merge

def unhexDigit (c : UInt8) : Nat := if c.toNat < 58 then c.toNat - 48 else c.toNat - 87

theorem unhex_hexDigit : ∀ d < 16, unhexDigit (hexDigit d) = d := by decide

theorem map_unhexDigit {ds : List Nat} (h : ∀ d ∈ ds, d < 16) :
    (ds.map hexDigit).map unhexDigit = ds := by
  induction ds with
  | nil => rfl
  | cons d ds ih =>
    rw [map_cons, map_cons, unhex_hexDigit d (h d mem_cons_self),
      ih fun e he => h e (mem_cons_of_mem d he)]

theorem pointerText_inj {a b : Nat} (h : pointerText a = pointerText b) : a = b := by
  have hdigits : (Nat.digits 16 a).map hexDigit = (Nat.digits 16 b).map hexDigit :=
    reverse_injective (cons.inj (cons.inj h).2).2
  have hmap := congrArg (List.map unhexDigit) hdigits
  have hlt : ∀ n, ∀ d ∈ Nat.digits 16 n, d < 16 := fun n d hd =>
    Nat.digits_lt_base (by decide) hd
  rw [map_unhexDigit (hlt a), map_unhexDigit (hlt b)] at hmap
  exact Nat.digits_inj_iff.1 hmap

/-- Names that get the address of the module. -/
def TakesScope (name : CStr) : Prop :=
  (strstr name localTag).isSome = false ∧
    sharedPrefixes.any (fun p => p.isPrefixOf name) = false ∧
    constaggPrefix.isPrefixOf name = false

theorem globalName_of_scope {addr : Nat} {g : GlobalText} (hlocal : g.linkageLocal = true)
    (h : TakesScope g.name.val) :
    globalName addr g = g.name.val ++ localTag ++ pointerText addr := by
  obtain ⟨htag, hshared, hconstagg⟩ := h
  rw [globalName, if_pos ⟨hlocal, by simp [hconstagg]⟩, scopedLocalGlobalName,
    if_neg (by simp [htag, g.name.property]), if_neg (by simp only [hshared]; exact nofun)]

/-- The names are those of two symbols and of two globals. -/
def Separate (d : LrModule) (x y : CStr) : Prop :=
  (∃ id id', lrModuleSymbolName d.symbols id = some x ∧
    lrModuleSymbolName d.symbols id' = some y ∧ id ≠ id') ∧
  ∃ g ∈ d.globals, ∃ g' ∈ d.globals, g.name = x ∧ g'.name = y ∧ g ≠ g'

theorem separate_of_contains {m m' d : LrModule} {g g' : GlobalText} {x y : CStr} (hne : x ≠ y)
    (hm : Contains m d) (hm' : Contains m' d) (hx : Stores m x (.global g))
    (hy : Stores m' y (.global g')) : Separate d x y := by
  have hx' := symbolName_idxOf (hm.symbols hx.1)
  have hy' := symbolName_idxOf (hm'.symbols hy.1)
  refine ⟨⟨_, _, hx', hy', fun heq => ?_⟩, ?_⟩
  · rw [heq, hy'] at hx'
    exact hne (Option.some.inj hx').symm
  · obtain ⟨-, e, he, hname, -⟩ := hx
    obtain ⟨-, e', he', hname', -⟩ := hy
    obtain ⟨f, hf, hfname⟩ := mem_map.1 (hm.globals (mem_map.2 ⟨e, he, rfl⟩))
    obtain ⟨f', hf', hfname'⟩ := mem_map.1 (hm'.globals (mem_map.2 ⟨e', he', rfl⟩))
    refine ⟨f, hf, f', hf', hfname.trans hname, hfname'.trans hname', ?_⟩
    rintro rfl
    exact hne ((hfname.trans hname).symm.trans (hfname'.trans hname'))

/-- References to definitions that satisfy `Cond` have the symbols of the definitions. -/
def ReferencesResolve
    (Cond : Nat → List TopLevel → Nat → Reference → Nat → TopLevel → Prop) : Prop :=
  ∀ addr nextAddr text, nameCount text < 2 ^ 30 →
    ∃ uss m, lrParseLlText addr nextAddr text = some (uss, m) ∧
      ∀ i t k r j d, text[i]? = some t → (references t)[k]? = some r → text[j]? = some d →
        nameOf d = r.name → Cond addr text i r j d → ResolvesTo addr m uss i k d

/-- Local globals of one name, if it satisfies `Cond`, stay apart in all modules into which
both texts have been merged. -/
def LocalsStayApart (Cond : CStr → Prop) : Prop :=
  ∀ addr addr' nextAddr nextAddr' text text' uss uss' m m' d, addr ≠ addr' →
    nameCount text < 2 ^ 30 → nameCount text' < 2 ^ 30 →
    lrParseLlText addr nextAddr text = some (uss, m) →
    lrParseLlText addr' nextAddr' text' = some (uss', m') → MergedInto m d → MergedInto m' d →
    ∀ g g', .global g ∈ text → .global g' ∈ text' → g.name = g'.name →
      g.linkageLocal = true → g'.linkageLocal = true → Cond g.name.val →
      Separate d (globalName addr g) (globalName addr' g')

theorem global_names_resolve :
    ReferencesResolve (fun addr text i r j d => OwnName addr text i r d ∨ LastAbove text i r j d) ∧
      LocalsStayApart TakesScope := by
  constructor
  · intro addr nextAddr text hfew
    obtain ⟨uss, m, hrun, hrefs, hstores⟩ := lrParseLlText_run addr nextAddr text hfew
    refine ⟨uss, m, hrun, fun i t k r j d hi hk hj hname hcond => ?_⟩
    exact resolvesTo_of_refsAt (hrefs i t hi) hk hj hname (hstores d (mem_of_getElem? hj)) hcond
  · intro addr addr' nextAddr nextAddr' text text' uss uss' m m' d haddr hfew hfew' hrun hrun'
      hmerged hmerged' g g' hg hg' hname hlocal hlocal' hscope
    have hstored : Stores m (globalName addr g) (.global g) := by
      obtain ⟨uss₁, m₁, hrun₁, -, hstores⟩ := lrParseLlText_run addr nextAddr text hfew
      obtain ⟨-, rfl⟩ := Prod.mk.inj (Option.some.inj (hrun₁.symm.trans hrun))
      exact hstores _ hg
    have hstored' : Stores m' (globalName addr' g') (.global g') := by
      obtain ⟨uss₁, m₁, hrun₁, -, hstores⟩ := lrParseLlText_run addr' nextAddr' text' hfew'
      obtain ⟨-, rfl⟩ := Prod.mk.inj (Option.some.inj (hrun₁.symm.trans hrun'))
      exact hstores _ hg'
    refine separate_of_contains ?_ hmerged.contains hmerged'.contains hstored hstored'
    rw [globalName_of_scope hlocal hscope, globalName_of_scope hlocal' (hname ▸ hscope), hname]
    intro heq
    exact haddr (pointerText_inj (append_cancel_left heq))

/-- `@x`, as `private global`, and a function that uses it. -/
def privateGlobal (name : GlobalId) : TopLevel :=
  .global
    { name := name, linkage := [.privateLinkage], isConst := false, type := .scalar 4 .i32,
      initData := none, sawInitializer := true, refs := [] }

def user (name : GlobalId) : TopLevel :=
  .func
    { name := ⟨[102], by decide⟩, linkage := [], isDecl := false, retType := .scalar 0 .void,
      paramTypes := [], vararg := false, operands := [name], body := fun _ => [] }

/-- `x` and `_copy_`. -/
def plainName : GlobalId := ⟨[120], by decide⟩
def sharedName : GlobalId := ⟨[95, 99, 111, 112, 121, 95], by decide⟩

theorem global_names_resolve_private :
    ∃ uss m, lrParseLlText 1 0 [privateGlobal plainName, user plainName] = some (uss, m) ∧
      ResolvesTo 1 m uss 1 0 (privateGlobal plainName) := by
  obtain ⟨uss, m, hrun, hall⟩ := global_names_resolve.1 1 0
    [privateGlobal plainName, user plainName] (by decide)
  refine ⟨uss, m, hrun, hall 1 _ 0 _ 0 _ rfl rfl rfl rfl (.inr ⟨rfl, rfl, by decide, ?_⟩)⟩
  intro k d' hk hk' hd' hlocal
  obtain rfl : k = 1 := by omega
  obtain rfl := Option.some.inj hd'
  cases hlocal

/-- A use above the definition gets the name itself, and a shared name is not scoped. -/
theorem names_not_scoped :
    ¬ ReferencesResolve (fun _ _ _ _ _ _ => True) ∧ ¬ LocalsStayApart fun _ => True := by
  constructor
  · intro h
    obtain ⟨uss, m, hrun, hall⟩ := h 1 0 [user plainName, privateGlobal plainName] (by decide)
    obtain ⟨us, u, hus, hu, hsym, -⟩ := hall 0 _ 0 _ 1 _ rfl rfl rfl rfl trivial
    have hfirst : (lrParseLlText 1 0 [user plainName, privateGlobal plainName]).map
        (fun r => (((r.1[0]?).bind fun us => us[0]?).bind (symbolOf r.2))) =
        some (some [120]) := by decide +kernel
    rw [hrun, map_some, hus, bind_some, hu, bind_some, hsym] at hfirst
    exact absurd hfirst (by decide +kernel)
  · intro h
    have hrun : ∀ addr, ∃ uss m,
        lrParseLlText addr 0 [privateGlobal sharedName] = some (uss, m) := by
      intro addr
      obtain ⟨uss, m, hrun, -⟩ := lrParseLlText_run addr 0 [privateGlobal sharedName] (by decide)
      exact ⟨uss, m, hrun⟩
    obtain ⟨uss, m, hrun₁⟩ := hrun 1
    obtain ⟨uss', m', hrun₂⟩ := hrun 2
    have hmerge : ((lrParseLlText 1 0 [privateGlobal sharedName]).bind fun r =>
        (lrParseLlText 2 0 [privateGlobal sharedName]).bind fun r' =>
          lrModuleMerge r.2 r'.2).map (fun d => d.globals.length) = some 1 := by decide +kernel
    rw [hrun₁, hrun₂] at hmerge
    obtain ⟨d, hd, hlen⟩ := map_eq_some_iff.1 hmerge
    obtain ⟨-, g, hg, g', hg', -, -, hne⟩ := h 1 2 0 0 _ _ uss uss' m m' d (by decide) (by decide)
      (by decide) hrun₁ hrun₂ (.later .self hd) (.merge hd) _ _ (mem_singleton.2 rfl)
      (mem_singleton.2 rfl) rfl rfl rfl trivial
    -- both have become the one global of the module
    obtain ⟨only, honly⟩ := length_eq_one_iff.1 hlen
    rw [honly, mem_singleton] at hg hg'
    exact hne (hg.trans hg'.symm)

end Liric.Guarantees.GlobalNames
