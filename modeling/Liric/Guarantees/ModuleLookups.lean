import Liric.Guarantees.CollisionFlag
import Liric.Source.Object.ModuleLookup

/-!
# Lookups through the caches of a module

The caches answer for the module as it was when they were built, and they are built again only
when a name outgrows them. A global or a function that comes under a name of an older symbol is
not found, and a function that has lost its name is. A global with a name that is no symbol yet
makes the rebuild write past the end of its array.
-/
namespace Liric.Guarantees.ModuleLookups
open Source.Ir Source.Object SymbolInterning List Option
open CollisionRuns (Grown Sound pass_run)
open CollisionFlag (Edit funcNames globalNames lrModuleCreate pass_kept)
open Lib (Along along_congr runSteps)

inductive Act where
  | intern (name : CStr)
  | edit (e : Edit)
  | findGlobal (name : CStr)
  | findFunc (name : CStr)

/-- A module, and what it was when its caches were built. -/
structure Traced where
  now : ObjModule
  built : Option LrModule := none

/-- A lookup of the name builds the caches. -/
def Builds (m : ObjModule) (name : CStr) : Prop :=
  name ≠ [] ∧ ∀ c ∈ m.caches, c.symToCap < (addName m.ir.symbols.symbolNames name).length

instance (m : ObjModule) (name : CStr) : Decidable (Builds m name) :=
  inferInstanceAs (Decidable (_ ∧ _))

/-- The module that a lookup of the name is answered for. -/
def shown (t : Traced) (name : CStr) : LrModule :=
  if Builds t.now name then t.now.ir else t.built.getD t.now.ir

def afterLookup (t : Traced) (name : CStr) (now : ObjModule) : Traced where
  now := now
  built := if Builds t.now name then some t.now.ir else t.built

def step (t : Traced) : Act → Option Traced
  | .intern name => (lrModuleInternSymbol t.now.ir.symbols name).map fun r =>
    { t with now := { t.now with ir := { t.now.ir with symbols := r.1 } } }
  | .edit e => (CollisionFlag.step t.now.ir e).map fun ir =>
    { t with now := { t.now with ir := ir } }
  | .findGlobal name => (objModuleGlobalByName t.now name).map fun r => afterLookup t name r.1
  | .findFunc name => (objModuleFuncByName t.now name).map fun r => afterLookup t name r.1

def start (addr nextAddr : Nat) : Traced := { now := { ir := lrModuleCreate addr nextAddr } }

/-- No entity has the name, or the answer is one that has it. -/
def Right (names : List CStr) (name : CStr) : Option Nat → Prop
  | none => name ∉ names
  | some place => names[place]? = some name

instance (names : List CStr) (name : CStr) : ∀ r, Decidable (Right names name r)
  | none => inferInstanceAs (Decidable (name ∉ names))
  | some place => inferInstanceAs (Decidable (names[place]? = some name))

def FindsGlobal (t : Traced) (name : CStr) : Prop :=
  ∃ r, objModuleGlobalByName t.now name = some r ∧ Right (globalNames t.now.ir) name r.2

def FindsFunc (t : Traced) (name : CStr) : Prop :=
  ∃ r, objModuleFuncByName t.now name = some r ∧ Right (funcNames t.now.ir) name r.2

instance (t : Traced) (name : CStr) : Decidable (FindsGlobal t name) :=
  inferInstanceAs (Decidable (∃ r ∈ objModuleGlobalByName t.now name, _))

instance (t : Traced) (name : CStr) : Decidable (FindsFunc t name) :=
  inferInstanceAs (Decidable (∃ r ∈ objModuleFuncByName t.now name, _))

/-- The answer of a lookup is right. -/
def Finds (t : Traced) : Act → Prop
  | .findGlobal name => FindsGlobal t name
  | .findFunc name => FindsFunc t name
  | _ => True

instance (t : Traced) : ∀ a : Act, Decidable (Finds t a)
  | .findGlobal name => inferInstanceAs (Decidable (FindsGlobal t name))
  | .findFunc name => inferInstanceAs (Decidable (FindsFunc t name))
  | .intern _ => .isTrue trivial
  | .edit _ => .isTrue trivial

/-- The last place of the name. -/
def lastNamed : List CStr → CStr → Option Nat
  | [], _ => none
  | x :: xs, name => ((lastNamed xs name).map (· + 1)).or (if x = name then some 0 else none)

/-- The symbol table takes the name, and a rebuild finds the names of all globals in it. -/
structure Safe (t : Traced) (name : CStr) : Prop where
  taken : (lrModuleInternSymbol t.now.ir.symbols name).isSome = true
  known : Builds t.now name → ∀ g ∈ t.now.ir.globals, g.name ≠ [] →
    g.name ∈ addName t.now.ir.symbols.symbolNames name

/-- The lookup is safe, and the name has come to no global since the caches were built. -/
def CurrentGlobal (t : Traced) (name : CStr) : Prop :=
  if name = [] then name ∉ globalNames t.now.ir
  else Safe t name ∧ (name ∈ globalNames t.now.ir → name ∈ globalNames (shown t name))

/-- The lookup is safe, and the last function that had the name when the caches were built still
has it, or the name has come to no function since. -/
def CurrentFunc (t : Traced) (name : CStr) : Prop :=
  if name = [] then name ∉ funcNames t.now.ir
  else Safe t name ∧ Right (funcNames t.now.ir) name (lastNamed (funcNames (shown t name)) name)

def Current (t : Traced) : Act → Prop
  | .findGlobal name => CurrentGlobal t name
  | .findFunc name => CurrentFunc t name
  | _ => True

section Last
variable {xs : List CStr} {x name : CStr} {place : Nat}

theorem lastNamed_none : lastNamed xs name = none ↔ name ∉ xs := by
  induction xs with
  | nil => simp [lastNamed]
  | cons x xs ih =>
    by_cases hx : x = name
    · simp [lastNamed, hx]
    · simp [lastNamed, hx, ih, Ne.symm hx]

theorem lastNamed_some (h : lastNamed xs name = some place) : xs[place]? = some name := by
  induction xs generalizing place with
  | nil => cases h
  | cons x xs ih =>
    cases hlast : lastNamed xs name with
    | some i =>
      rw [lastNamed, hlast] at h
      cases h
      exact ih hlast
    | none =>
      rw [lastNamed, hlast] at h
      by_cases hx : x = name
      · rw [if_pos hx] at h
        cases h
        rw [hx]
        rfl
      · rw [if_neg hx] at h
        cases h

/-- A name at the end has its last place there. -/
theorem lastNamed_concat : lastNamed (xs ++ [x]) name =
    if x = name then some xs.length else lastNamed xs name := by
  induction xs with
  | nil => simp [lastNamed]
  | cons y ys ih =>
    rw [cons_append, lastNamed, ih]
    by_cases hx : x = name
    · simp [hx]
    · simp only [if_neg hx, lastNamed]

end Last

/-- The slots of the symbols hold the last places of their names. -/
def Filled (symbols : SymbolTable) (names : List CStr) (slots : List (Option Nat)) : Prop :=
  ∀ id name, lrModuleSymbolName symbols id = some name → name ≠ [] →
    slots[id]? = some (lastNamed names name)

section Fill
variable {symbols : SymbolTable} {names : List CStr} {slots : List (Option Nat)} {name : CStr}

theorem filled_empty (symbols : SymbolTable) :
    Filled symbols [] (replicate symbols.numSymbols none) := by
  intro id name hid _
  rw [getElem?_replicate, if_pos (symbolName_lt hid)]
  rfl

theorem Filled.store (h : Filled symbols names slots) (hwf : WellFormed symbols) {id : Nat}
    (hid : lrModuleSymbolName symbols id = some name) (hname : name ≠ []) :
    Filled symbols (names ++ [name]) (slots.set id (some names.length)) := by
  intro other x hother hx
  rw [lastNamed_concat]
  by_cases hsame : name = x
  · subst hsame
    obtain rfl := symbolName_inj hwf hid hother
    have hlt : id < slots.length := (List.getElem?_eq_some_iff.1 (h id name hid hname)).1
    rw [if_pos rfl, getElem?_set_self hlt]
  · have hne : id ≠ other := by
      intro heq
      rw [heq, hother] at hid
      exact hsame (Option.some.inj hid).symm
    rw [if_neg hsame, getElem?_set_ne hne]
    exact h other x hother hx

theorem Filled.skip (h : Filled symbols names slots) : Filled symbols (names ++ [[]]) slots := by
  intro id name hid hname
  rw [lastNamed_concat, if_neg hname.symm]
  exact h id name hid hname

theorem storeSlot_lt {i : Nat} (h : i < slots.length) (place : Nat) :
    storeSlot slots i place = some (slots.set i (some place)) := if_pos h

section
variable (hwf : WellFormed symbols) (hbound : symbols.symbolIndex.length ≤ 2 ^ 31)
include hwf hbound

/-- An id of a symbol is none that means a failure. -/
theorem symbolId_ne_max {id : Nat} (hid : lrModuleSymbolName symbols id = some name) :
    id ≠ uint32Max := by
  have hlt := symbolName_lt hid
  have hload := hwf.load
  rw [uint32Max]
  omega

/-- Where the names of the globals are symbols, the table stays as it is. -/
theorem fillGlobals_known (rest : List LrGlobal) (hlen : slots.length = symbols.numSymbols)
    (hfilled : Filled symbols names slots)
    (hknown : ∀ g ∈ rest, g.name ≠ [] → g.name ∈ symbols.symbolNames) :
    ∃ gs, fillGlobals rest names.length symbols slots = some (symbols, gs) ∧
      gs.length = symbols.numSymbols ∧ Filled symbols (names ++ rest.map LrGlobal.name) gs := by
  induction rest generalizing names slots with
  | nil => exact ⟨slots, rfl, hlen, by rwa [map_nil, append_nil]⟩
  | cons g rest ih =>
    have hrest := fun g' hg' => hknown g' (mem_cons_of_mem g hg')
    have happend : names ++ (g :: rest).map LrGlobal.name =
        (names ++ [g.name]) ++ rest.map LrGlobal.name := by
      rw [map_cons, append_assoc, singleton_append]
    have hnext : names.length + 1 = (names ++ [g.name]).length := by
      rw [length_append, length_singleton]
    rw [happend, fillGlobals, hnext]
    by_cases hname : g.name = []
    · rw [if_pos hname]
      refine ih hlen ?_ hrest
      rw [hname]
      exact hfilled.skip
    · have hmem := hknown g mem_cons_self hname
      have hid := symbolName_idxOf hmem
      have hlt := symbolName_lt hid
      rw [if_neg hname, intern_known hwf hmem]
      simp only [bind_eq_bind, bind_some]
      rw [if_pos ⟨symbolId_ne_max hwf hbound hid, hlt⟩, storeSlot_lt (by rw [hlen]; exact hlt)]
      exact ih (by rw [length_set, hlen]) (hfilled.store hwf hid hname) hrest

/-- A name that is no symbol gets a number past the end of the array. -/
theorem fillGlobals_unknown (rest : List LrGlobal) (place : Nat)
    (hlen : slots.length = symbols.numSymbols)
    (hunknown : ∃ g ∈ rest, g.name ≠ [] ∧ g.name ∉ symbols.symbolNames) :
    fillGlobals rest place symbols slots = none := by
  induction rest generalizing place slots with
  | nil =>
    obtain ⟨g, hg, -⟩ := hunknown
    cases hg
  | cons g rest ih =>
    obtain ⟨g', hg', hne, hnew⟩ := hunknown
    have hlater : g.name = [] ∨ g.name ∈ symbols.symbolNames →
        ∃ g ∈ rest, g.name ≠ [] ∧ g.name ∉ symbols.symbolNames := by
      intro hold
      obtain rfl | hrest := mem_cons.1 hg'
      · exact absurd hold (not_or.2 ⟨hne, hnew⟩)
      · exact ⟨g', hrest, hne, hnew⟩
    rw [fillGlobals]
    by_cases hname : g.name = []
    · rw [if_pos hname]
      exact ih (place + 1) hlen (hlater (.inl hname))
    · rw [if_neg hname]
      by_cases hmem : g.name ∈ symbols.symbolNames
      · have hid := symbolName_idxOf hmem
        have hlt := symbolName_lt hid
        rw [intern_known hwf hmem]
        simp only [bind_eq_bind, bind_some]
        rw [if_pos ⟨symbolId_ne_max hwf hbound hid, hlt⟩, storeSlot_lt (by rw [hlen]; exact hlt)]
        exact ih (place + 1) (by rw [length_set, hlen]) (hlater (.inr hmem))
      · cases hintern : lrModuleInternSymbol symbols g.name with
        | none => rfl
        | some r =>
          obtain ⟨symbols', id⟩ := r
          obtain ⟨hwf', hbound', hnames', hid⟩ := lrModuleInternSymbol_run hwf hbound hintern
          have hadded : symbols'.symbolNames = symbols.symbolNames ++ [g.name] := by
            rw [hnames', addName, if_neg hmem]
          have hlast : id = symbols.numSymbols := by
            rw [hid, hadded, idxOf_append_of_notMem hmem, idxOf_cons_self]
            rfl
          have hname' : lrModuleSymbolName symbols' id = some g.name := by
            rw [symbolName_eq, hadded, hlast, SymbolTable.numSymbols, getElem?_concat_length]
          simp only [bind_eq_bind, bind_some]
          rw [if_pos ⟨symbolId_ne_max hwf' hbound' hname', symbolName_lt hname'⟩, storeSlot,
            if_neg (by rw [hlen, hlast]; exact lt_irrefl _)]
          rfl

end

/-- Functions are entered under the symbols of their names. -/
theorem fillFuncs_filled (hwf : WellFormed symbols) (rest : List LrFunc)
    (hlen : slots.length = symbols.numSymbols) (hfilled : Filled symbols names slots)
    (hinterned : ∀ f ∈ rest, lrModuleSymbolName symbols f.symbolId = some f.name) :
    ∃ fs, fillFuncs symbols.numSymbols rest names.length slots = some fs ∧
      Filled symbols (names ++ rest.map LrFunc.name) fs := by
  induction rest generalizing names slots with
  | nil => exact ⟨slots, rfl, by rwa [map_nil, append_nil]⟩
  | cons f rest ih =>
    have hrest := fun f' hf' => hinterned f' (mem_cons_of_mem f hf')
    have happend : names ++ (f :: rest).map LrFunc.name =
        (names ++ [f.name]) ++ rest.map LrFunc.name := by
      rw [map_cons, append_assoc, singleton_append]
    have hnext : names.length + 1 = (names ++ [f.name]).length := by
      rw [length_append, length_singleton]
    have hid := hinterned f mem_cons_self
    rw [happend, fillFuncs, hnext]
    by_cases hname : f.name = []
    · rw [if_neg fun h => h.1 hname]
      refine ih hlen ?_ hrest
      rw [hname]
      exact hfilled.skip
    · have hlt := symbolName_lt hid
      rw [if_pos ⟨hname, hlt⟩, storeSlot_lt (by rw [hlen]; exact hlt)]
      exact ih (by rw [length_set, hlen]) (hfilled.store hwf hid hname) hrest

end Fill

/-- The caches answer for a module under the symbols that they cover. -/
structure Shows (symbols : SymbolTable) (c : SymToCaches) (b : LrModule) : Prop where
  covers : c.symToCap ≤ symbols.numSymbols
  globals : ∀ id name, id < c.symToCap → lrModuleSymbolName symbols id = some name → name ≠ [] →
    c.symToGlobal[id]? = some (lastNamed (globalNames b) name)
  funcs : ∀ id name, id < c.symToCap → lrModuleSymbolName symbols id = some name → name ≠ [] →
    c.symToFunc[id]? = some (lastNamed (funcNames b) name)

/-- New symbols are not covered. -/
theorem Shows.grown {symbols symbols' : SymbolTable} {c : SymToCaches} {b : LrModule}
    (h : Shows symbols c b) (hextends : symbols.symbolNames <+: symbols'.symbolNames) :
    Shows symbols' c b := by
  have hold : ∀ id name, id < c.symToCap → lrModuleSymbolName symbols' id = some name →
      lrModuleSymbolName symbols id = some name := by
    intro id name hlt hname
    have hin := symbolName_of_lt (lt_of_lt_of_le hlt h.covers)
    rw [symbolName_of_extends hextends hin] at hname
    rw [hin]
    exact hname
  refine ⟨h.covers.trans hextends.length_le, ?_, ?_⟩
  · exact fun id name hlt hid => h.globals id name hlt (hold id name hlt hid)
  · exact fun id name hlt hid => h.funcs id name hlt (hold id name hlt hid)

section Ensure
variable {m : ObjModule}

theorem ensure_covered {c : SymToCaches} (hcaches : m.caches = some c)
    (hcovered : m.ir.symbols.numSymbols ≤ c.symToCap) : objEnsureSymToCaches m = some m := by
  unfold objEnsureSymToCaches
  by_cases hpos : 0 < m.ir.symbols.numSymbols
  · rw [if_pos ⟨by simpa [hcaches] using hcovered, hpos⟩]
  · rw [if_neg fun h => hpos h.2, if_pos (Nat.eq_zero_of_not_pos hpos)]

section
variable (hm : Sound m.ir) (hpos : 0 < m.ir.symbols.numSymbols)
  (hbuild : ∀ c ∈ m.caches, c.symToCap < m.ir.symbols.numSymbols)
include hm hpos hbuild

/-- Where the caches are to be built, and the names of the globals are symbols. -/
theorem ensure_built
    (hknown : ∀ g ∈ m.ir.globals, g.name ≠ [] → g.name ∈ m.ir.symbols.symbolNames) :
    ∃ c, objEnsureSymToCaches m = some { m with caches := some c } ∧
      c.symToCap = m.ir.symbols.numSymbols ∧ Shows m.ir.symbols c m.ir := by
  have huncovered : ¬ (m.caches.any (fun c => m.ir.symbols.numSymbols ≤ c.symToCap) = true ∧
      0 < m.ir.symbols.numSymbols) := by
    rintro ⟨hany, -⟩
    obtain ⟨c, hc, hle⟩ := (any_eq_true _ _).1 hany
    have hlt := hbuild c hc
    rw [decide_eq_true_eq] at hle
    omega
  obtain ⟨gs, hgs, -, hglobals⟩ := fillGlobals_known hm.symbols hm.bound m.ir.globals
    length_replicate (filled_empty m.ir.symbols) hknown
  obtain ⟨fs, hfs, hfuncs⟩ := fillFuncs_filled hm.symbols m.ir.funcs length_replicate
    (filled_empty m.ir.symbols) hm.interned
  rw [length_nil] at hgs hfs
  refine ⟨⟨gs, fs, m.ir.symbols.numSymbols⟩, ?_, rfl, le_rfl, ?_, ?_⟩
  · unfold objEnsureSymToCaches
    rw [if_neg huncovered, if_neg (ne_of_gt hpos), hgs]
    simp only [bind_eq_bind, bind_some, hfs]
  · exact fun id name _ => hglobals id name
  · exact fun id name _ => hfuncs id name

/-- Where the name of a global is no symbol, the rebuild writes past the end of its array. -/
theorem ensure_overrun
    (hunknown : ∃ g ∈ m.ir.globals, g.name ≠ [] ∧ g.name ∉ m.ir.symbols.symbolNames) :
    objEnsureSymToCaches m = none := by
  have huncovered : ¬ (m.caches.any (fun c => m.ir.symbols.numSymbols ≤ c.symToCap) = true ∧
      0 < m.ir.symbols.numSymbols) := by
    rintro ⟨hany, -⟩
    obtain ⟨c, hc, hle⟩ := (any_eq_true _ _).1 hany
    have hlt := hbuild c hc
    rw [decide_eq_true_eq] at hle
    omega
  have hgs : fillGlobals m.ir.globals 0 m.ir.symbols
      (replicate m.ir.symbols.numSymbols none) = none :=
    fillGlobals_unknown hm.symbols hm.bound m.ir.globals 0 length_replicate hunknown
  unfold objEnsureSymToCaches
  rw [if_neg huncovered, if_neg (ne_of_gt hpos), hgs]
  rfl

end

end Ensure

/-- The caches answer for the module as it was when they were built. -/
structure Kept (t : Traced) : Prop where
  sound : Sound t.now.ir
  caches : ∀ c, t.now.caches = some c → ∃ b, t.built = some b ∧ Shows t.now.ir.symbols c b ∧
    globalNames b <+: globalNames t.now.ir

/-- The name is a symbol, and the caches cover all symbols. -/
structure Settled (m : ObjModule) (name : CStr) : Prop where
  known : name ∈ m.ir.symbols.symbolNames
  covered : ∃ c, m.caches = some c ∧ m.ir.symbols.numSymbols ≤ c.symToCap

theorem Settled.not_builds {m : ObjModule} {name : CStr} (h : Settled m name) :
    ¬ Builds m name := by
  rintro ⟨-, hbuild⟩
  obtain ⟨c, hc, hle⟩ := h.covered
  have hlt := hbuild c hc
  rw [addName, if_pos h.known] at hlt
  exact lt_irrefl _ (lt_of_lt_of_le hlt hle)

theorem Settled.safe {t : Traced} {name : CStr} (h : Settled t.now name) (hkept : Kept t) :
    Safe t name :=
  ⟨by rw [intern_known hkept.sound.symbols h.known]; rfl, fun hbuilds => absurd hbuilds h.not_builds⟩

theorem shown_settled {t : Traced} {name : CStr} {now : ObjModule} (h : Settled now name) :
    shown (afterLookup t name now) name =
      (if Builds t.now name then some t.now.ir else t.built).getD now.ir :=
  if_neg h.not_builds

/-- What a lookup of a name answers: the last place of the name in the module that is shown. The
next lookup of the name changes nothing. -/
structure Answered (t : Traced) (name : CStr) (names : LrModule → List CStr)
    (r : ObjModule × Option Nat) : Prop where
  globals : r.1.ir.globals = t.now.ir.globals
  funcs : r.1.ir.funcs = t.now.ir.funcs
  place : r.2 = lastNamed (names (shown t name)) name
  kept : Kept (afterLookup t name r.1)
  settled : Settled r.1 name
  shown : shown (afterLookup t name r.1) name = shown t name
  same : Settled t.now name → r.1 = t.now

/-- The globals that are shown are the first ones. -/
theorem Kept.shown_prefix {t : Traced} {name : CStr} (h : Kept t) (hname : name ≠ []) :
    globalNames (shown t name) <+: globalNames t.now.ir := by
  unfold shown
  by_cases hbuilds : Builds t.now name
  · rw [if_pos hbuilds]
  · have hcaches : ∃ c, t.now.caches = some c := by
      by_contra hnone
      exact hbuilds ⟨hname, fun c hc => absurd ⟨c, hc⟩ hnone⟩
    obtain ⟨c, hc⟩ := hcaches
    obtain ⟨b, hb, -, hprefix⟩ := h.caches c hc
    rw [if_neg hbuilds, hb]
    exact hprefix

section Lookup
variable {t : Traced} {name : CStr} {slots : SymToCaches → List (Option Nat)}
  {names : LrModule → List CStr} {walk : LrModule → CStr → Option Nat}

/-- The array of a lookup holds the last places of the names of a kind of entity. -/
def Holds (slots : SymToCaches → List (Option Nat)) (names : LrModule → List CStr) : Prop :=
  ∀ {symbols c b id name}, Shows symbols c b → id < c.symToCap →
    lrModuleSymbolName symbols id = some name → name ≠ [] →
      (slots c)[id]? = some (lastNamed (names b) name)

theorem holds_globals : Holds SymToCaches.symToGlobal globalNames :=
  fun h hlt hid hname => h.globals _ _ hlt hid hname

theorem holds_funcs : Holds SymToCaches.symToFunc funcNames :=
  fun h hlt hid hname => h.funcs _ _ hlt hid hname

theorem moduleByName_safe (h : Kept t) (hname : name ≠ []) (hsafe : Safe t name)
    (hholds : Holds slots names)
    (hnames : ∀ symbols, names { t.now.ir with symbols := symbols } = names t.now.ir) :
    ∃ r, moduleByName slots walk t.now name = some r ∧ Answered t name names r := by
  obtain ⟨⟨symbols, id⟩, hintern⟩ := isSome_iff_exists.1 hsafe.taken
  obtain ⟨hwf, hbound, hadded, -⟩ := lrModuleInternSymbol_run h.sound.symbols h.sound.bound hintern
  obtain ⟨-, -, hextends, hid⟩ := intern_run h.sound.symbols h.sound.bound hintern
  have hsound : Sound { t.now.ir with symbols := symbols } :=
    ⟨hwf, hbound, fun f hf => symbolName_of_extends hextends (h.sound.interned f hf)⟩
  have hlt := symbolName_lt hid
  have hmax := symbolId_ne_max hwf hbound hid
  by_cases hbuilds : Builds t.now name
  · have hbuild : ∀ c ∈ t.now.caches, c.symToCap < symbols.numSymbols := by
      rw [SymbolTable.numSymbols, hadded]
      exact hbuilds.2
    have hknown := hsafe.known hbuilds
    rw [← hadded] at hknown
    obtain ⟨c, hensure, hcap, hshows⟩ :=
      ensure_built (m := { t.now with ir := { t.now.ir with symbols := symbols } }) hsound
        (Nat.zero_lt_of_lt hlt) hbuild hknown
    have hread := hholds hshows (hcap ▸ hlt) hid hname
    have hsettled : Settled ⟨{ t.now.ir with symbols := symbols }, some c⟩ name :=
      ⟨symbolName_mem hid, c, rfl, hcap.ge⟩
    refine ⟨(⟨{ t.now.ir with symbols := symbols }, some c⟩, lastNamed (names t.now.ir) name), ?_,
      rfl, rfl, ?_, ⟨hsound, ?_⟩, hsettled, ?_, fun hs => absurd hbuilds hs.not_builds⟩
    · simp only [moduleByName, if_neg hname, hintern, bind_eq_bind, bind_some, if_neg hmax, hensure]
      rw [if_pos (hcap ▸ hlt), hread, hnames]
      rfl
    · rw [shown, if_pos hbuilds]
    · intro c' hc'
      obtain rfl := Option.some.inj hc'
      exact ⟨t.now.ir, if_pos hbuilds, ⟨hshows.covers, hshows.globals, hshows.funcs⟩, prefix_rfl⟩
    · rw [shown_settled hsettled, if_pos hbuilds, shown, if_pos hbuilds, getD_some]
  · have hcovered : ∃ c, t.now.caches = some c ∧ symbols.numSymbols ≤ c.symToCap := by
      by_contra hnone
      refine hbuilds ⟨hname, fun c hc => ?_⟩
      rw [← hadded]
      exact Nat.lt_of_not_le fun hle => hnone ⟨c, hc, hle⟩
    obtain ⟨c, hc, hle⟩ := hcovered
    obtain ⟨b, hb, hshows, hprefix⟩ := h.caches c hc
    have hread := hholds (hshows.grown hextends) (lt_of_lt_of_le hlt hle) hid hname
    have hensure := ensure_covered (m := ⟨{ t.now.ir with symbols := symbols }, some c⟩) rfl hle
    have hsettled : Settled ⟨{ t.now.ir with symbols := symbols }, some c⟩ name :=
      ⟨symbolName_mem hid, c, rfl, hle⟩
    refine ⟨(⟨{ t.now.ir with symbols := symbols }, some c⟩, lastNamed (names b) name), ?_,
      rfl, rfl, ?_, ⟨hsound, ?_⟩, hsettled, ?_, fun hs => ?_⟩
    · simp only [moduleByName, if_neg hname, hintern, bind_eq_bind, bind_some,
        if_neg hmax, hensure, hc]
      rw [if_pos (lt_of_lt_of_le hlt hle), hread]
      rfl
    · rw [shown, if_neg hbuilds, hb, getD_some]
    · intro c' hc'
      obtain rfl := Option.some.inj hc'
      exact ⟨b, (if_neg hbuilds).trans hb, hshows.grown hextends, hprefix⟩
    · rw [shown_settled hsettled, if_neg hbuilds, shown, if_neg hbuilds, hb, getD_some, getD_some]
    · rw [intern_known h.sound.symbols hs.known] at hintern
      obtain rfl := congrArg Prod.fst (Option.some.inj hintern)
      rw [← hc]

/-- A lookup of a name for which all is set up changes nothing. -/
theorem moduleByName_settled (h : Kept t) (hname : name ≠ []) (hsettled : Settled t.now name)
    (hholds : Holds slots names)
    (hnames : ∀ symbols, names { t.now.ir with symbols := symbols } = names t.now.ir) :
    moduleByName slots walk t.now name = some (t.now, lastNamed (names (shown t name)) name) := by
  obtain ⟨⟨now, place⟩, hlookup, hanswered⟩ :
      ∃ r, moduleByName slots walk t.now name = some r ∧ Answered t name names r :=
    moduleByName_safe h hname (hsettled.safe h) hholds hnames
  obtain rfl : now = t.now := hanswered.same hsettled
  rw [hlookup, ← hanswered.place]

theorem moduleByName_overrun (h : Kept t) (hname : name ≠ []) (hlost : ¬ Safe t name) :
    moduleByName slots walk t.now name = none := by
  cases hintern : lrModuleInternSymbol t.now.ir.symbols name with
  | none =>
    rw [moduleByName, if_neg hname, hintern]
    rfl
  | some r =>
    obtain ⟨symbols, id⟩ := r
    obtain ⟨hwf, hbound, hadded, -⟩ :=
      lrModuleInternSymbol_run h.sound.symbols h.sound.bound hintern
    obtain ⟨-, -, hextends, hid⟩ := intern_run h.sound.symbols h.sound.bound hintern
    have hsound : Sound { t.now.ir with symbols := symbols } :=
      ⟨hwf, hbound, fun f hf => symbolName_of_extends hextends (h.sound.interned f hf)⟩
    have hunknown : ¬ (Builds t.now name → ∀ g ∈ t.now.ir.globals, g.name ≠ [] →
        g.name ∈ addName t.now.ir.symbols.symbolNames name) :=
      fun hknown => hlost ⟨by rw [hintern]; rfl, hknown⟩
    push Not at hunknown
    obtain ⟨hbuilds, hunknown⟩ := hunknown
    rw [← hadded] at hunknown
    have hbuild : ∀ c ∈ t.now.caches, c.symToCap < symbols.numSymbols := by
      rw [SymbolTable.numSymbols, hadded]
      exact hbuilds.2
    have hensure := ensure_overrun
      (m := { t.now with ir := { t.now.ir with symbols := symbols } }) hsound
      (Nat.zero_lt_of_lt (symbolName_lt hid)) hbuild hunknown
    simp only [moduleByName, if_neg hname, hintern, bind_eq_bind, bind_some,
      if_neg (symbolId_ne_max hwf hbound hid), hensure, bind_none]

end Lookup

section Edits
variable {m m' : LrModule}

theorem edit_sound {e : Edit} (hm : Sound m) (hrun : CollisionFlag.step m e = some m') :
    Sound m' := by
  cases e with
  | merge src => exact CollisionFlag.sound_merge hm hrun
  | call c =>
    cases c with
    | create name ret params vararg =>
      obtain ⟨⟨m₁, f⟩, hcreate, hrun⟩ := map_eq_some_iff.1 hrun
      cases hrun
      exact (hm.create hcreate).1
    | declare name ret params vararg => exact (hm.declare hrun).1
    | global name type isConst =>
      cases hrun
      exact ⟨hm.symbols, hm.bound, hm.interned⟩
    | block func name =>
      cases hrun
      exact hm.updateFunc fun f => ⟨rfl, rfl⟩
    | append func block inst =>
      cases hrun
      have hsound : Sound (updateFunc m func (CollisionRuns.appendInst block inst)) :=
        hm.updateFunc fun f => ⟨rfl, rfl⟩
      unfold lrBlockAppend
      dsimp only
      split
      · exact ⟨hsound.symbols, hsound.bound, hsound.interned⟩
      · exact hsound
    | disambiguate =>
      cases hdirty : m.localFunctionCollisionScanDirty with
      | false =>
        rw [CollisionFlag.step, CollisionRuns.step, lrModuleDisambiguateLocalFunctionCollisions,
          if_pos hdirty] at hrun
        cases hrun
        exact hm
      | true => exact (pass_run hm hdirty hrun).sound hm

/-- The globals stay, and symbols are only added. -/
structure Frame (m m' : LrModule) : Prop where
  globals : m'.globals = m.globals
  symbols : m.symbols.symbolNames <+: m'.symbols.symbolNames

theorem Frame.refl (m : LrModule) : Frame m m := ⟨rfl, prefix_rfl⟩

variable {params : List LrType}

theorem create_frame {name : CStr} {ret : LrType} {vararg : Bool}
    {f : LrFunc} (hm : Sound m) (hrun : lrFuncCreate m name ret params vararg = some (m', f)) :
    Frame m m' := by
  obtain ⟨⟨symbols, id⟩, hintern, hrun⟩ := bind_eq_some_iff.1 hrun
  cases hrun
  exact ⟨rfl, (intern_run hm.symbols hm.bound hintern).2.2.1⟩

theorem declare_frame {name : CStr} {ret : LrType} {vararg : Bool}
    (hm : Sound m) (hrun : lrFuncDeclare m name ret params vararg = some m') : Frame m m' := by
  rw [lrFuncDeclare] at hrun
  split at hrun
  · cases hrun
    exact .refl m
  · obtain ⟨⟨m₁, f⟩, hcreate, hrun⟩ := bind_eq_some_iff.1 hrun
    cases hrun
    have hframe := create_frame hm hcreate
    exact ⟨hframe.globals, hframe.symbols⟩

variable {symbolRemap : List Nat}

theorem mergeFunc_frame {sf : LrFunc} (hm : Sound m)
    (hrun : mergeFunc symbolRemap m sf = some m') : Frame m m' := by
  unfold mergeFunc at hrun
  split at hrun
  · have hcopied : Sound (inArena (inArena m (mergeRemapTypes m.builtin sf.paramTypes)).1
        (mergeRemapType m.builtin sf.retType)).1 := ⟨hm.symbols, hm.bound, hm.interned⟩
    simp only [mergeNewFunc] at hrun
    split at hrun
    · obtain ⟨⟨m₁, f⟩, hcreate, hrun⟩ := bind_eq_some_iff.1 hrun
      cases hrun
      have hframe := create_frame hcopied hcreate
      exact ⟨hframe.globals, hframe.symbols⟩
    · obtain ⟨m₁, hdeclare, hrun⟩ := bind_eq_some_iff.1 hrun
      cases hrun
      have hframe := declare_frame hcopied hdeclare
      exact ⟨hframe.globals, hframe.symbols⟩
  · split at hrun
    · cases hrun
    · split at hrun
      · obtain ⟨-, hrun⟩ := ite_none_left_eq_some.1 hrun
        cases hrun
        exact ⟨rfl, prefix_rfl⟩
      · cases hrun
        exact .refl _

theorem mergeFuncs_frame (rest : List LrFunc) (hm : Sound m)
    (hrun : rest.foldlM (mergeFunc symbolRemap) m = some m') : Frame m m' := by
  induction rest generalizing m with
  | nil =>
    cases hrun
    exact .refl _
  | cons sf rest ih =>
    rw [foldlM_cons] at hrun
    obtain ⟨m₁, hfirst, hrun⟩ := bind_eq_some_iff.1 hrun
    have hframe := mergeFunc_frame hm hfirst
    have hrest := ih (CollisionFlag.mergeFunc_kept hm hfirst).1 hrun
    exact ⟨hrest.globals.trans hframe.globals, hframe.symbols.trans hrest.symbols⟩

/-- A merge changes no name of a global, and appends names. -/
theorem mergeGlobal_grows (d : LrModule) (sg : LrGlobal) :
    globalNames d <+: globalNames (mergeGlobal d sg) := by
  cases hfind : d.globals.findIdx? (fun g => g.name == sg.name) with
  | none =>
    refine ⟨[sg.name], ?_⟩
    simp only [mergeGlobal, hfind, globalNames, lrGlobalCreate, inArena]
    rw [ModuleMerge.modify_append_last, map_append, map_singleton,
      (CollisionFlag.mergeCopyGlobalData_frame _ sg).1]
  | some i =>
    obtain ⟨hnew, -⟩ | ⟨hsame, -⟩ | ⟨j, dg, -, hget, -, heq⟩ := CollisionFlag.mergeGlobal_cases d sg
    · obtain ⟨hlt, hname, -⟩ := findIdx?_eq_some_iff_getElem.1 hfind
      exact absurd (beq_iff_eq.1 hname) (hnew _ (getElem_mem hlt))
    · rw [hsame]
    · obtain ⟨hlt, rfl⟩ := List.getElem?_eq_some_iff.1 hget
      rw [heq, globalNames, globalNames, map_set, (CollisionFlag.takeOverGlobal_frame _ sg _).1,
        ← map_set, set_getElem_self]

theorem mergeGlobals_grows (rest : List LrGlobal) (d : LrModule) :
    globalNames d <+: globalNames (rest.foldl mergeGlobal d) := by
  induction rest generalizing d with
  | nil => exact prefix_rfl
  | cons sg rest ih => exact (mergeGlobal_grows d sg).trans (ih (mergeGlobal d sg))

/-- No edit takes a symbol or a global away, or gives one another name. -/
structure Extended (m m' : LrModule) : Prop where
  globals : globalNames m <+: globalNames m'
  symbols : m.symbols.symbolNames <+: m'.symbols.symbolNames

theorem Frame.extended (h : Frame m m') : Extended m m' :=
  ⟨by rw [globalNames, globalNames, h.globals], h.symbols⟩

theorem edit_extended {e : Edit} (hm : Sound m) (hrun : CollisionFlag.step m e = some m') :
    Extended m m' := by
  cases e with
  | merge src =>
    obtain ⟨symbols, symbolRemap, hgrown, hsound, hfuncs⟩ := CollisionFlag.merge_stages hm hrun
    have hframe := (mergeFuncs_frame src.funcs hsound hfuncs).extended
    have hsymbols := (ModuleMerge.mergeGlobals_frame src.globals
      { m with symbols := symbols }).2.2
    refine ⟨(mergeGlobals_grows src.globals { m with symbols := symbols }).trans hframe.globals, ?_⟩
    exact (hgrown.extends'.trans (by rw [hsymbols])).trans hframe.symbols
  | call c =>
    cases c with
    | create name ret params vararg =>
      obtain ⟨⟨m₁, f⟩, hcreate, hrun⟩ := map_eq_some_iff.1 hrun
      cases hrun
      exact (create_frame hm hcreate).extended
    | declare name ret params vararg => exact (declare_frame hm hrun).extended
    | global name type isConst =>
      cases hrun
      refine ⟨⟨[name], ?_⟩, prefix_rfl⟩
      rw [globalNames, globalNames, lrGlobalCreate, map_append]
      rfl
    | block func name =>
      cases hrun
      exact ⟨prefix_rfl, prefix_rfl⟩
    | append func block inst =>
      cases hrun
      unfold lrBlockAppend
      dsimp only
      split <;> exact ⟨prefix_rfl, prefix_rfl⟩
    | disambiguate =>
      refine ⟨by rw [globalNames, globalNames, (pass_kept hrun).1], ?_⟩
      cases hdirty : m.localFunctionCollisionScanDirty with
      | false =>
        rw [CollisionFlag.step, CollisionRuns.step, lrModuleDisambiguateLocalFunctionCollisions,
          if_pos hdirty] at hrun
        cases hrun
        exact prefix_rfl
      | true => exact (pass_run hm hdirty hrun).grown.extends'

end Edits

section Runs
variable {t t' : Traced} {name : CStr}

theorem Kept.start (addr nextAddr : Nat) : Kept (start addr nextAddr) :=
  ⟨(CollisionFlag.good_lrModuleCreate addr nextAddr).sound, nofun⟩

theorem findGlobal_safe (h : Kept t) (hname : name ≠ []) (hsafe : Safe t name) :
    ∃ r, objModuleGlobalByName t.now name = some r ∧ Answered t name globalNames r :=
  moduleByName_safe h hname hsafe holds_globals fun _ => rfl

theorem findFunc_safe (h : Kept t) (hname : name ≠ []) (hsafe : Safe t name) :
    ∃ r, objModuleFuncByName t.now name = some r ∧ Answered t name funcNames r :=
  moduleByName_safe h hname hsafe holds_funcs fun _ => rfl

theorem moduleByName_nil (slots : SymToCaches → List (Option Nat))
    (walk : LrModule → CStr → Option Nat) (m : ObjModule) :
    moduleByName slots walk m [] = some (m, none) := if_pos rfl

theorem afterLookup_nil (t : Traced) (now : ObjModule) : afterLookup t [] now = ⟨now, t.built⟩ := by
  have hnot : ¬ Builds t.now [] := fun hbuilds => hbuilds.1 rfl
  rw [afterLookup, if_neg hnot]

/-- What a lookup keeps. -/
theorem Kept.found {slots : SymToCaches → List (Option Nat)} {names : LrModule → List CStr}
    {walk : LrModule → CStr → Option Nat} (h : Kept t) (hholds : Holds slots names)
    (hnames : ∀ symbols, names { t.now.ir with symbols := symbols } = names t.now.ir)
    (hrun : (moduleByName slots walk t.now name).map (fun r => afterLookup t name r.1) = some t') :
    Kept t' := by
  by_cases hname : name = []
  · subst hname
    rw [moduleByName_nil, map_some, afterLookup_nil] at hrun
    cases hrun
    exact h
  by_cases hsafe : Safe t name
  · obtain ⟨r, hlookup, hanswered⟩ :
        ∃ r, moduleByName slots walk t.now name = some r ∧ Answered t name names r :=
      moduleByName_safe h hname hsafe hholds hnames
    rw [hlookup] at hrun
    cases hrun
    exact hanswered.kept
  · rw [moduleByName_overrun h hname hsafe] at hrun
    cases hrun

theorem Kept.step {a : Act} (h : Kept t) (hrun : step t a = some t') : Kept t' := by
  cases a with
  | intern name =>
    obtain ⟨⟨symbols, id⟩, hintern, rfl⟩ := map_eq_some_iff.1 hrun
    obtain ⟨hwf, hbound, hextends, -⟩ := intern_run h.sound.symbols h.sound.bound hintern
    refine ⟨⟨hwf, hbound, ?_⟩, fun c hc => ?_⟩
    · exact fun f hf => symbolName_of_extends hextends (h.sound.interned f hf)
    · obtain ⟨b, hb, hshows, hprefix⟩ := h.caches c hc
      exact ⟨b, hb, hshows.grown hextends, hprefix⟩
  | edit e =>
    obtain ⟨ir, hedit, rfl⟩ := map_eq_some_iff.1 hrun
    refine ⟨edit_sound h.sound hedit, fun c hc => ?_⟩
    obtain ⟨b, hb, hshows, hprefix⟩ := h.caches c hc
    have hextended := edit_extended h.sound hedit
    exact ⟨b, hb, hshows.grown hextended.symbols, hprefix.trans hextended.globals⟩
  | findGlobal name => exact h.found holds_globals (fun _ => rfl) hrun
  | findFunc name => exact h.found holds_funcs (fun _ => rfl) hrun

theorem findsGlobal_iff (h : Kept t) : FindsGlobal t name ↔ CurrentGlobal t name := by
  unfold FindsGlobal CurrentGlobal
  by_cases hname : name = []
  · rw [if_pos hname, hname, objModuleGlobalByName, moduleByName_nil]
    constructor
    · rintro ⟨r, hr, hright⟩
      cases hr
      exact hright
    · exact fun hnone => ⟨_, rfl, hnone⟩
  rw [if_neg hname]
  by_cases hsafe : Safe t name
  · obtain ⟨r, hlookup, hanswered⟩ := findGlobal_safe h hname hsafe
    have hright : Right (globalNames t.now.ir) name r.2 ↔
        (name ∈ globalNames t.now.ir → name ∈ globalNames (shown t name)) := by
      rw [hanswered.place]
      cases hlast : lastNamed (globalNames (shown t name)) name with
      | none =>
        have hnone := lastNamed_none.1 hlast
        exact ⟨fun hright hmem => absurd hmem hright, fun hin hmem => hnone (hin hmem)⟩
      | some place =>
        have hplace := lastNamed_some hlast
        refine ⟨fun _ _ => mem_of_getElem? hplace, fun _ => ?_⟩
        obtain ⟨tail, htail⟩ := h.shown_prefix hname
        have hlt := (List.getElem?_eq_some_iff.1 hplace).1
        rw [Right, ← htail, getElem?_append_left hlt]
        exact hplace
    constructor
    · rintro ⟨r', hr', hanswer⟩
      obtain rfl := Option.some.inj (hr'.symm.trans hlookup)
      exact ⟨hsafe, hright.1 hanswer⟩
    · exact fun hcurrent => ⟨r, hlookup, hright.2 hcurrent.2⟩
  · constructor
    · rintro ⟨r, hr, -⟩
      rw [objModuleGlobalByName, moduleByName_overrun h hname hsafe] at hr
      cases hr
    · exact fun hcurrent => absurd hcurrent.1 hsafe

theorem findsFunc_iff (h : Kept t) : FindsFunc t name ↔ CurrentFunc t name := by
  unfold FindsFunc CurrentFunc
  by_cases hname : name = []
  · rw [if_pos hname, hname, objModuleFuncByName, moduleByName_nil]
    constructor
    · rintro ⟨r, hr, hright⟩
      cases hr
      exact hright
    · exact fun hnone => ⟨_, rfl, hnone⟩
  rw [if_neg hname]
  by_cases hsafe : Safe t name
  · obtain ⟨r, hlookup, hanswered⟩ := findFunc_safe h hname hsafe
    rw [← hanswered.place]
    constructor
    · rintro ⟨r', hr', hanswer⟩
      obtain rfl := Option.some.inj (hr'.symm.trans hlookup)
      exact ⟨hsafe, hanswer⟩
    · exact fun hcurrent => ⟨r, hlookup, hcurrent.2⟩
  · constructor
    · rintro ⟨r, hr, -⟩
      rw [objModuleFuncByName, moduleByName_overrun h hname hsafe] at hr
      cases hr
    · exact fun hcurrent => absurd hcurrent.1 hsafe

theorem finds_iff (h : Kept t) (a : Act) : Finds t a ↔ Current t a := by
  cases a with
  | intern name => exact Iff.rfl
  | edit e => exact Iff.rfl
  | findGlobal name => exact findsGlobal_iff h
  | findFunc name => exact findsFunc_iff h

end Runs

/-- The lookups of a run are all right exactly when each of them is current. -/
theorem lookups_right_iff (addr nextAddr : Nat) (acts : List Act) :
    Along step Finds (start addr nextAddr) acts ↔ Along step Current (start addr nextAddr) acts :=
  along_congr (fun _ _ _ h hrun => h.step hrun) (fun _ a h => finds_iff h a) acts
    (.start addr nextAddr)

/-- A lookup of a name without a global, the global, and the lookup again. -/
def staleActs : List Act :=
  [.findGlobal [120], .edit (.call (.global [120] none false)), .findGlobal [120]]

/-- A global whose name is no symbol, and the first lookup of another name. -/
def overrunActs : List Act :=
  [.edit (.call (.global [120] none false)), .findGlobal [121]]

theorem lookups_go_wrong :
    ¬ Along step Finds (start 0 20) staleActs ∧ ¬ Along step Finds (start 0 20) overrunActs := by
  decide +kernel

end Liric.Guarantees.ModuleLookups
