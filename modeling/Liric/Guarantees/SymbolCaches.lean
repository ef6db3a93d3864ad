import Liric.Guarantees.JitLookup
import Liric.Lib.Runs

/-!
# The caches of the symbol lookup

The last hit, the missing names and the answers of the host that are kept as symbols change
no answer. An answer that was found under another spelling of a name is kept too, under the
name: it is given again after the symbol it came from got another address, and to the
spellings of yet other names. As long as neither happens, a lookup answers as if it searched
the addresses that were given to names and nothing else.
-/
namespace Liric.Guarantees.SymbolCaches
open Source.Ir Source.Jit List
open JitLookup (findSymbolEntry_cons findSymbolEntry_map skipMark_ne)
open Lib (Along answers answers_eq nextOf padUp)

/-- The addresses that names stand for by themselves, 0 for none, and the data buffer that
gives words to local names. -/
structure Bindings where
  bound : CStr → Nat
  dataBuf : Nat
  dataSize : Nat
  dataCap : Nat

/-- The latest address of the name, else what the host answers. -/
def boundAddr (host : Host) (j : LrJit) (name : CStr) : Nat :=
  if name = [] then 0
  else
    match findSymbolEntry j name with
    | some e => e.addr
    | none => resolveSymbolFromProviders host name

def Bindings.of (host : Host) (j : LrJit) : Bindings where
  bound := boundAddr host j
  dataBuf := j.dataBuf
  dataSize := j.dataSize
  dataCap := j.dataCap

def Bindings.bind (b : Bindings) (name : CStr) (addr : Nat) : Bindings :=
  { b with bound := fun n => if n = name then addr else b.bound n }

/-- The name, without its mark, with or without an underscore, in front of the local tag. -/
def spellings (name : CStr) : List CStr :=
  [name, skipMark name, underscoreAlias (skipMark name), localBase (skipMark name)]

def firstNonzero : List Nat → Nat
  | [] => 0
  | a :: rest => if a ≠ 0 then a else firstNonzero rest

def Bindings.resolve (b : Bindings) (name : CStr) : Nat :=
  firstNonzero ((spellings name).map b.bound)

/-- A local name without an address is given a word of the data buffer. -/
def Bindings.wantsWord (b : Bindings) (name : CStr) : Bool :=
  (strstr (skipMark name) localTag).isSome && decide (padUp b.dataSize 8 + 8 ≤ b.dataCap)

def Bindings.word (b : Bindings) : Nat := b.dataBuf + padUp b.dataSize 8

def Bindings.giveWord (b : Bindings) (name : CStr) : Bindings :=
  { (b.bind name b.word).bind (skipMark name) b.word with dataSize := padUp b.dataSize 8 + 8 }

inductive Call where
  | add (name : CStr) (addr : Nat)
  | lookup (name : CStr)
  deriving DecidableEq

/-- A resolver that searches the bindings. `aliased` are the names it has answered under
another spelling since they were last bound; no answer depends on it. -/
structure Resolver where
  now : Bindings
  aliased : List CStr := []

namespace Resolver

def add (r : Resolver) (name : CStr) (addr : Nat) : Resolver :=
  if name = [] then r
  else { now := r.now.bind name addr, aliased := r.aliased.filter (· ≠ name) }

def lookup (r : Resolver) (name : CStr) : Resolver × Nat :=
  if name = [] then (r, 0)
  else if r.now.resolve name ≠ 0 then
    ({ r with aliased := if r.now.bound name = 0 then name :: r.aliased else r.aliased },
      r.now.resolve name)
  else if r.now.wantsWord name then
    ({ now := r.now.giveWord name
       aliased := r.aliased.filter fun n => n ≠ name ∧ n ≠ skipMark name }, r.now.word)
  else (r, 0)

def step (r : Resolver) : Call → Resolver × Option Nat
  | .add name addr => (r.add name addr, none)
  | .lookup name => ((r.lookup name).1, some (r.lookup name).2)

/-- The spellings that a lookup goes through before it finds an address. -/
def tried (r : Resolver) (name : CStr) : List CStr :=
  (spellings name).takeWhile fun s => r.now.bound s = 0

/-- The first name on the way that has been answered under another spelling resolves to the
same address. -/
def Straight (r : Resolver) (name : CStr) : Prop :=
  ∀ s ∈ (r.tried name).find? r.aliased.contains, r.now.resolve s = r.now.resolve name

/-- The call changes the address of no name that was answered under another spelling, and
a lookup goes straight. -/
def Careful (r : Resolver) (call : Call) : Prop :=
  (∀ n ∈ (r.step call).1.aliased, (r.step call).1.now.resolve n = r.now.resolve n) ∧
    match call with
    | .add _ _ => True
    | .lookup name => r.Straight name

instance (r : Resolver) (name : CStr) : Decidable (r.Straight name) :=
  inferInstanceAs (Decidable (∀ s ∈ (r.tried name).find? r.aliased.contains, _ = _))

instance (r : Resolver) : ∀ call : Call, Decidable (r.Careful call)
  | .add _ _ => inferInstanceAs (Decidable ((∀ n ∈ _, _ = _) ∧ True))
  | .lookup name => inferInstanceAs (Decidable ((∀ n ∈ _, _ = _) ∧ r.Straight name))

end Resolver

def stepJit (host : Host) (j : LrJit) : Call → LrJit × Option Nat
  | .add name addr => (lrJitAddSymbol host j name addr, none)
  | .lookup name => ((lookupSymbolHashed host j name).1, some (lookupSymbolHashed host j name).2)

/-- The host has no address for the names that are added. -/
def Unprovided (host : Host) : Call → Prop
  | .add name _ => resolveSymbolFromProviders host name = 0
  | .lookup _ => True

/-- The lookups of the run answer as those of a resolver without caches. -/
def Transparent (host : Host) (j : LrJit) (calls : List Call) : Prop :=
  answers (stepJit host) j calls = answers Resolver.step { now := .of host j } calls

/-- What the exact lookups of the JIT read. -/
structure Reads (host : Host) (j : LrJit) (b : Bindings) : Prop where
  idle : j.lazyFuncs = []
  missing : ∀ name ∈ j.miss, resolveSymbolFromProviders host name = 0
  bound : ∀ name, boundAddr host j name = b.bound name
  dataBuf : j.dataBuf = b.dataBuf
  dataSize : j.dataSize = b.dataSize
  dataCap : j.dataCap = b.dataCap

section Exact
variable {host : Host} {j : LrJit} {b : Bindings} {name : CStr}

theorem Reads.of_same {j' : LrJit} (h : Reads host j b) (same : JitLookup.SameCode j j')
    (dataSize : j'.dataSize = j.dataSize)
    (missing : ∀ n ∈ j'.miss, resolveSymbolFromProviders host n = 0)
    (bound : ∀ n, boundAddr host j' n = boundAddr host j n) : Reads host j' b where
  idle := same.lazyFuncs.trans h.idle
  missing := missing
  bound := fun n => (bound n).trans (h.bound n)
  dataBuf := same.dataBuf.trans h.dataBuf
  dataSize := dataSize.trans h.dataSize
  dataCap := same.dataCap.trans h.dataCap

/-- A name without an address, or that the host does not know, takes a new address. -/
theorem preserves_nothing {addr : Nat} (h : resolveSymbolFromProviders host name = 0 ∨ addr = 0) :
    symbolShouldPreserveHostBinding host name addr = false := by
  unfold symbolShouldPreserveHostBinding
  split
  · rfl
  · next hguard =>
    rcases h with hzero | hzero
    · unfold resolveSymbolFromProviders at hzero
      have hloaded : resolveSymbolFromLoadedLibraries host name = 0 := by
        by_contra hne
        simp [hne] at hzero
      simp only [hloaded, if_true] at hzero
      simp [hzero, hloaded]
    · simp [hzero] at hguard

/-- The name has this address from now on. -/
theorem Reads.addSymbol (h : Reads host j b) (hname : name ≠ []) (addr : Nat)
    (hfree : resolveSymbolFromProviders host name = 0 ∨ b.bound name = 0 ∨
      findSymbolEntry j name = none) :
    Reads host (lrJitAddSymbol host j name addr) (b.bind name addr) := by
  have hsame := JitLookup.lrJitAddSymbol_same host j name addr
  have hbound : ∀ n, boundAddr host (lrJitAddSymbol host j name addr) n =
      if n = name then addr else boundAddr host j n := by
    intro n
    unfold lrJitAddSymbol
    rw [if_neg hname]
    cases hfind : findSymbolEntry j name with
    | none =>
      unfold boundAddr findSymbolEntry
      simp only [findSymbolEntry_cons]
      by_cases hn : n = name
      · simp [hn, hname]
      · simp [hn]
    | some e =>
      have hexisting : resolveSymbolFromProviders host name = 0 ∨ e.addr = 0 := by
        have hread := h.bound name
        simp only [boundAddr, if_neg hname, hfind] at hread
        simpa [hread, hfind] using hfree
      simp only [preserves_nothing hexisting]
      unfold boundAddr findSymbolEntry
      simp only [Bool.false_eq_true, if_false, findSymbolEntry_map]
      by_cases hn : n = name
      · subst hn
        have hfind' : j.symbols.find? (fun e => e.name == n) = some e := hfind
        simp [hname, hfind']
      · cases hother : j.symbols.find? (fun e => e.name == n) <;> simp [hn]
  have hmiss : (lrJitAddSymbol host j name addr).miss = j.miss := by
    unfold lrJitAddSymbol
    split
    · rfl
    · split
      · split <;> rfl
      · rfl
  have hsize : (lrJitAddSymbol host j name addr).dataSize = j.dataSize := by
    unfold lrJitAddSymbol
    split
    · rfl
    · split
      · split <;> rfl
      · rfl
  refine ⟨hsame.lazyFuncs.trans h.idle, ?_, ?_, hsame.dataBuf.trans h.dataBuf,
    hsize.trans h.dataSize, hsame.dataCap.trans h.dataCap⟩
  · rw [hmiss]
    exact h.missing
  · intro n
    rw [hbound, h.bound]
    rfl

theorem Bindings.bind_self (b : Bindings) (name : CStr) : b.bind name (b.bound name) = b := by
  have hbound : (fun n => if n = name then b.bound name else b.bound n) = b.bound := by
    funext n
    split
    · next hn => rw [hn]
    · rfl
  simp only [Bindings.bind, hbound]

theorem lookupSymbolTables_reads (h : Reads host j b) (hname : name ≠ []) :
    (lookupSymbolTables host j name).2 = b.bound name ∧
      Reads host (lookupSymbolTables host j name).1 b := by
  have hread := h.bound name
  simp only [boundAddr, if_neg hname] at hread
  unfold lookupSymbolTables
  split
  · next e hlast =>
    have hfind : findSymbolEntry j name = some e := by
      unfold lastSymbolEntry at hlast
      split at hlast
      · exact hlast
      · cases hlast
    rw [hfind] at hread
    exact ⟨hread, h⟩
  · cases hfind : findSymbolEntry j name with
    | some e =>
      rw [hfind] at hread
      exact ⟨hread, h.of_same (by constructor <;> rfl) rfl h.missing fun n => rfl⟩
    | none =>
      rw [hfind] at hread
      by_cases hknown : missCacheContains j name = true
      · have hzero := h.missing name (by simpa [missCacheContains] using hknown)
        simp only [hknown, if_true]
        exact ⟨hzero.symm.trans hread, h⟩
      · simp only [hknown]
        by_cases hzero : resolveSymbolFromProviders host name = 0
        · simp only [hzero, if_true]
          refine ⟨hzero.symm.trans hread, ?_⟩
          have hmiss : ∀ n ∈ (missCacheAdd j name).miss,
              resolveSymbolFromProviders host n = 0 := by
            unfold missCacheAdd
            rw [if_neg hknown]
            exact forall_mem_cons.2 ⟨hzero, h.missing⟩
          have hsame : missCacheAdd j name = { j with miss := name :: j.miss } := by
            unfold missCacheAdd
            rw [if_neg hknown]
          rw [hsame] at hmiss ⊢
          exact h.of_same (by constructor <;> rfl) rfl hmiss fun n => rfl
        · simp only [hzero, if_false]
          have hanswer : resolveSymbolFromProviders host name = b.bound name := hread
          have hadded :=
            h.addSymbol hname (resolveSymbolFromProviders host name) (.inr (.inr hfind))
          have hsame : b.bind name (resolveSymbolFromProviders host name) = b := by
            rw [hanswer, Bindings.bind_self]
          rw [hsame] at hadded
          simp only [Bool.false_eq_true, if_false]
          exact ⟨hanswer, hadded⟩

theorem lookupSymbolHashedExact_reads (h : Reads host j b) (hname : name ≠ []) :
    (lookupSymbolHashedExact host j name).2 = b.bound name ∧
      Reads host (lookupSymbolHashedExact host j name).1 b := by
  have hlazy : findLazyFuncEntry j name = (j, none) := by
    unfold findLazyFuncEntry lastLazyEntry
    simp [h.idle, hname]
  unfold lookupSymbolHashedExact
  rw [hlazy]
  exact lookupSymbolTables_reads h hname

theorem Reads.empty (h : Reads host j b) : b.bound [] = 0 := by
  rw [← h.bound, boundAddr, if_pos rfl]

end Exact

/-- What the exact lookups read after a lookup, and its answer. -/
def Bindings.recall (b : Bindings) (name : CStr) : Bindings × Nat :=
  if name = [] then (b, 0)
  else if b.resolve name ≠ 0 then (b.bind name (b.resolve name), b.resolve name)
  else if b.wantsWord name then (b.giveWord name, b.word)
  else (b, 0)

theorem firstNonzero_ne {l : List Nat} {a : Nat} (h : a ≠ 0) : firstNonzero (a :: l) = a := by
  simp [firstNonzero, h]

@[simp] theorem firstNonzero_zero (l : List Nat) : firstNonzero (0 :: l) = firstNonzero l := rfl

theorem firstNonzero_single (a : Nat) : firstNonzero [a] = a := by
  by_cases h : a = 0
  · rw [h, firstNonzero_zero]
    rfl
  · exact firstNonzero_ne h

section Lookup
variable {host : Host} {j : LrJit} {b : Bindings} {name : CStr}

section
variable (h : Reads host j b) (hname : name ≠ []) (hzero : b.bound name = 0)
include h hname hzero

/-- An alias binds the name to the address it finds. -/
theorem lookupSymbolHashedAlias_reads (aliasName : CStr) :
    (lookupSymbolHashedAlias host j name aliasName).2 = b.bound aliasName ∧
      Reads host (lookupSymbolHashedAlias host j name aliasName).1
        (if b.bound aliasName = 0 then b else b.bind name (b.bound aliasName)) := by
  unfold lookupSymbolHashedAlias
  by_cases hskip : aliasName = [] ∨ name = aliasName
  · have hbound : b.bound aliasName = 0 := by
      rcases hskip with rfl | rfl
      · exact h.empty
      · exact hzero
    rw [if_pos hskip, if_pos hbound]
    exact ⟨hbound.symm, h⟩
  · obtain ⟨hanswer, hreads⟩ := lookupSymbolHashedExact_reads h fun heq => hskip (.inl heq)
    rw [if_neg hskip]
    simp only
    rw [hanswer]
    by_cases hbound : b.bound aliasName = 0
    · simp only [hbound, if_true]
      exact ⟨trivial, hreads⟩
    · simp only [hbound, if_false]
      exact ⟨trivial, hreads.addSymbol hname _ (.inr (.inl hzero))⟩

theorem localPlaceholder_reads (hcanonical : b.bound (skipMark name) = 0) :
    (localPlaceholder host j name (skipMark name)).2 =
        (if b.wantsWord name then b.word else 0) ∧
      Reads host (localPlaceholder host j name (skipMark name)).1
        (if b.wantsWord name then b.giveWord name else b) := by
  unfold localPlaceholder Bindings.wantsWord
  by_cases hlocal : (strstr (skipMark name) localTag).isSome = true
  · by_cases hroom : padUp j.dataSize 8 + 8 ≤ j.dataCap
    · have hroom' : padUp b.dataSize 8 + 8 ≤ b.dataCap := by
        rw [← h.dataSize, ← h.dataCap]
        exact hroom
      have hword : j.dataBuf + padUp j.dataSize 8 = b.word := by
        rw [Bindings.word, h.dataBuf, h.dataSize]
      have hgrown : Reads host
          { j with
            dataSize := padUp j.dataSize 8 + 8
            dataRanges := j.dataRanges ++ [⟨[name, skipMark name], padUp j.dataSize 8, 8⟩] }
          { b with dataSize := padUp b.dataSize 8 + 8 } :=
        ⟨h.idle, h.missing, h.bound, h.dataBuf, by rw [h.dataSize], h.dataCap⟩
      have hbound := hgrown.addSymbol hname b.word (.inr (.inl hzero))
      simp only [hlocal, hroom, hroom', if_true, decide_true, Bool.and_true, hword]
      refine ⟨trivial, ?_⟩
      by_cases hmark : skipMark name = name
      · rw [if_pos hmark]
        have hgive : b.giveWord name =
            ({ b with dataSize := padUp b.dataSize 8 + 8 }).bind name b.word := by
          simp only [Bindings.giveWord, Bindings.bind, hmark]
          congr 1
          funext n
          split <;> rfl
        rw [hgive]
        exact hbound
      · rw [if_neg hmark]
        refine hbound.addSymbol (skipMark_ne hname) b.word (.inr (.inl ?_))
        simp only [Bindings.bind, if_neg hmark]
        exact hcanonical
    · have hroom' : ¬ padUp b.dataSize 8 + 8 ≤ b.dataCap := by
        rw [← h.dataSize, ← h.dataCap]
        exact hroom
      simp only [hlocal, hroom, hroom', if_true, if_false, decide_false, Bool.and_false,
        Bool.false_eq_true]
      exact ⟨trivial, h⟩
  · simp only [hlocal, if_false, Bool.false_and, Bool.false_eq_true]
    exact ⟨trivial, h⟩

/-- The spellings behind the mark, and the word that is handed out last. -/
theorem lookupSymbolAliases_reads (hcanonical : b.bound (skipMark name) = 0) :
    (lookupSymbolAliases host j name (skipMark name)).2 = (b.recall name).2 ∧
      Reads host (lookupSymbolAliases host j name (skipMark name)).1 (b.recall name).1 := by
  unfold lookupSymbolAliases Bindings.recall
  simp only [hname, if_false]
  obtain ⟨hunder, hreads⟩ :=
    lookupSymbolHashedAlias_reads h hname hzero (underscoreAlias (skipMark name))
  rw [hunder]
  by_cases hunderscore : b.bound (underscoreAlias (skipMark name)) ≠ 0
  · have hresolve : b.resolve name = b.bound (underscoreAlias (skipMark name)) := by
      simp [Bindings.resolve, spellings, hzero, hcanonical, firstNonzero_ne hunderscore]
    rw [if_neg hunderscore] at hreads
    rw [if_pos hunderscore, hresolve, if_pos hunderscore]
    exact ⟨rfl, hreads⟩
  have hunderscore' := not_not.1 hunderscore
  rw [if_pos hunderscore'] at hreads
  rw [if_neg hunderscore]
  obtain ⟨hbase, hreads⟩ :=
    lookupSymbolHashedAlias_reads hreads hname hzero (localBase (skipMark name))
  rw [hbase]
  have hresolve : b.resolve name = b.bound (localBase (skipMark name)) := by
    simp only [Bindings.resolve, spellings, map_cons, map_nil, hzero, hcanonical,
      hunderscore', firstNonzero_zero, firstNonzero_single]
  rw [hresolve]
  by_cases hlocal : b.bound (localBase (skipMark name)) ≠ 0
  · rw [if_neg hlocal] at hreads
    rw [if_pos hlocal, if_pos hlocal]
    exact ⟨rfl, hreads⟩
  · rw [if_pos (not_not.1 hlocal)] at hreads
    obtain ⟨hword, hreads⟩ := localPlaceholder_reads hreads hname hzero hcanonical
    rw [if_neg hlocal, if_neg hlocal, hword]
    cases hwants : b.wantsWord name <;> rw [hwants] at hreads <;> exact ⟨rfl, hreads⟩

end

theorem lookupSymbolHashed_reads (h : Reads host j b) (name : CStr) :
    (lookupSymbolHashed host j name).2 = (b.recall name).2 ∧
      Reads host (lookupSymbolHashed host j name).1 (b.recall name).1 := by
  unfold lookupSymbolHashed
  by_cases hname : name = []
  · simp only [Bindings.recall, hname, if_true]
    exact ⟨trivial, h⟩
  have hrecall : b.recall name = if b.resolve name ≠ 0 then
      (b.bind name (b.resolve name), b.resolve name)
      else if b.wantsWord name then (b.giveWord name, b.word) else (b, 0) := by
    simp only [Bindings.recall, hname, if_false]
  simp only [hname, if_false]
  obtain ⟨hexact, hreads⟩ := lookupSymbolHashedExact_reads h hname
  rw [hexact]
  by_cases hown : b.bound name ≠ 0
  · have hresolve : b.resolve name = b.bound name := firstNonzero_ne hown
    rw [if_pos hown, hrecall, hresolve, if_pos hown, Bindings.bind_self]
    exact ⟨rfl, hreads⟩
  have hzero : b.bound name = 0 := not_not.1 hown
  rw [if_neg hown]
  obtain ⟨hmark, hreads⟩ := lookupSymbolHashedAlias_reads hreads hname hzero (skipMark name)
  rw [hmark]
  by_cases hcanonical : b.bound (skipMark name) ≠ 0
  · have hresolve : b.resolve name = b.bound (skipMark name) := by
      simp [Bindings.resolve, spellings, hzero, firstNonzero_ne hcanonical]
    rw [if_neg hcanonical] at hreads
    rw [if_pos hcanonical, hrecall, hresolve, if_pos hcanonical]
    exact ⟨rfl, hreads⟩
  have hcanonical' : b.bound (skipMark name) = 0 := not_not.1 hcanonical
  rw [if_pos hcanonical'] at hreads
  rw [if_neg hcanonical]
  exact lookupSymbolAliases_reads hreads hname hzero hcanonical'

end Lookup

/-- The names that were answered under another spelling read as they resolve, the others
as they are bound. -/
structure Recalls (b : Bindings) (r : Resolver) : Prop where
  aliased : ∀ n ∈ r.aliased, b.bound n = r.now.resolve n ∧ r.now.resolve n ≠ 0
  other : ∀ n, n ∉ r.aliased → b.bound n = r.now.bound n
  dataBuf : b.dataBuf = r.now.dataBuf
  dataSize : b.dataSize = r.now.dataSize
  dataCap : b.dataCap = r.now.dataCap

section Steps
variable {b : Bindings} {r : Resolver} {name : CStr}

theorem Bindings.resolve_of_bound (h : b.bound name ≠ 0) : b.resolve name = b.bound name :=
  firstNonzero_ne h

section
variable (h : Recalls b r)
include h

theorem Recalls.of_bound (hbound : r.now.bound name ≠ 0) : b.bound name = r.now.bound name := by
  by_cases hmem : name ∈ r.aliased
  · rw [(h.aliased name hmem).1, Bindings.resolve_of_bound hbound]
  · exact h.other name hmem

/-- The first of the names with an own address answers, or a name before it that was
answered under another spelling. -/
theorem Recalls.firstNonzero (names : List CStr) :
    firstNonzero (names.map b.bound) =
      match (names.takeWhile fun s => r.now.bound s = 0).find? r.aliased.contains with
      | none => firstNonzero (names.map r.now.bound)
      | some s => r.now.resolve s := by
  induction names with
  | nil => rfl
  | cons n rest ih =>
    by_cases hbound : r.now.bound n = 0
    · rw [takeWhile_cons_of_pos (by simpa using hbound)]
      by_cases hmem : n ∈ r.aliased
      · obtain ⟨hread, hne⟩ := h.aliased n hmem
        rw [List.find?_cons_of_pos (by simpa using hmem)]
        simp only [map_cons]
        rw [hread, firstNonzero_ne hne]
      · rw [List.find?_cons_of_neg (by simpa using hmem)]
        simp only [map_cons, h.other n hmem, hbound, firstNonzero_zero]
        exact ih
    · rw [takeWhile_cons_of_neg (by simpa using hbound)]
      simp only [List.find?_nil, map_cons]
      rw [h.of_bound hbound, firstNonzero_ne hbound, firstNonzero_ne hbound]

theorem Recalls.resolve (hstraight : r.Straight name) : b.resolve name = r.now.resolve name := by
  have hfirst := h.firstNonzero (spellings name)
  unfold Resolver.Straight Resolver.tried at hstraight
  cases hfound : ((spellings name).takeWhile fun s => r.now.bound s = 0).find?
    r.aliased.contains with
  | none =>
    rw [hfound] at hfirst
    exact hfirst
  | some s =>
    rw [hfound] at hfirst hstraight
    exact hfirst.trans (hstraight s rfl)

theorem Recalls.wantsWord (name : CStr) : b.wantsWord name = r.now.wantsWord name := by
  unfold Bindings.wantsWord
  rw [h.dataSize, h.dataCap]

theorem Recalls.word : b.word = r.now.word := by
  unfold Bindings.word
  rw [h.dataBuf, h.dataSize]

/-- A name that gets an address of its own is no longer one that was answered under
another spelling. -/
theorem Recalls.bind (addr : Nat) (hkeeps : ∀ n ∈ r.aliased.filter (· ≠ name),
      (r.now.bind name addr).resolve n = r.now.resolve n) :
    Recalls (b.bind name addr)
      { now := r.now.bind name addr, aliased := r.aliased.filter (· ≠ name) } := by
  refine ⟨?_, ?_, h.dataBuf, h.dataSize, h.dataCap⟩
  · intro n hmem
    obtain ⟨hold, hne⟩ := mem_filter.1 hmem
    have hother : n ≠ name := by simpa using hne
    rw [hkeeps n hmem]
    simp only [Bindings.bind, if_neg hother]
    exact h.aliased n hold
  · intro n hmem
    by_cases hn : n = name
    · simp only [Bindings.bind, if_pos hn]
    · simp only [Bindings.bind, if_neg hn]
      refine h.other n fun hold => hmem (mem_filter.2 ⟨hold, by simpa using hn⟩)

theorem Recalls.giveWord (hkeeps : ∀ n ∈ r.aliased.filter (fun n => n ≠ name ∧ n ≠ skipMark name),
      (r.now.giveWord name).resolve n = r.now.resolve n) :
    Recalls (b.giveWord name)
      { now := r.now.giveWord name
        aliased := r.aliased.filter fun n => n ≠ name ∧ n ≠ skipMark name } := by
  refine ⟨?_, ?_, h.dataBuf, by simp only [Bindings.giveWord, h.dataSize], h.dataCap⟩
  · intro n hmem
    obtain ⟨hold, hne⟩ := mem_filter.1 hmem
    have hother : n ≠ name ∧ n ≠ skipMark name := by simpa using hne
    rw [hkeeps n hmem]
    simp only [Bindings.giveWord, Bindings.bind, if_neg hother.1, if_neg hother.2]
    exact h.aliased n hold
  · intro n hmem
    simp only [Bindings.giveWord, Bindings.bind, h.word]
    by_cases hmark : n = skipMark name
    · rw [if_pos hmark, if_pos hmark]
    · rw [if_neg hmark, if_neg hmark]
      by_cases hn : n = name
      · rw [if_pos hn, if_pos hn]
      · rw [if_neg hn, if_neg hn]
        exact h.other n fun hold => hmem (mem_filter.2 ⟨hold, by simp [hn, hmark]⟩)

/-- An answer under another spelling is recalled under the name. -/
theorem Recalls.remember (hne : r.now.resolve name ≠ 0) :
    Recalls (b.bind name (r.now.resolve name))
      { r with aliased := if r.now.bound name = 0 then name :: r.aliased else r.aliased } := by
  refine ⟨?_, ?_, h.dataBuf, h.dataSize, h.dataCap⟩
  · intro n hmem
    by_cases hn : n = name
    · subst hn
      simp only [Bindings.bind, if_true]
      exact ⟨trivial, hne⟩
    · simp only [Bindings.bind, if_neg hn]
      refine h.aliased n ?_
      simp only at hmem
      split at hmem
      · exact (mem_cons.1 hmem).resolve_left hn
      · exact hmem
  · intro n hmem
    by_cases hn : n = name
    · subst hn
      simp only [Bindings.bind, if_true]
      refine Bindings.resolve_of_bound fun hzero => hmem ?_
      rw [if_pos hzero]
      exact mem_cons_self
    · simp only [Bindings.bind, if_neg hn]
      refine h.other n fun hold => hmem ?_
      simp only
      split
      · exact mem_cons_of_mem name hold
      · exact hold

theorem Recalls.lookup (hcareful : r.Careful (.lookup name)) :
    (b.recall name).2 = (r.lookup name).2 ∧ Recalls (b.recall name).1 (r.lookup name).1 := by
  obtain ⟨hkeeps, hstraight⟩ := hcareful
  have hresolve := h.resolve hstraight
  simp only [Resolver.step] at hkeeps
  unfold Resolver.lookup at hkeeps ⊢
  unfold Bindings.recall
  rw [hresolve, h.wantsWord, h.word]
  by_cases hname : name = []
  · rw [if_pos hname, if_pos hname]
    exact ⟨rfl, h⟩
  rw [if_neg hname, if_neg hname]
  rw [if_neg hname] at hkeeps
  by_cases hne : r.now.resolve name ≠ 0
  · rw [if_pos hne, if_pos hne]
    exact ⟨rfl, h.remember hne⟩
  rw [if_neg hne, if_neg hne]
  rw [if_neg hne] at hkeeps
  by_cases hwants : r.now.wantsWord name = true
  · rw [if_pos hwants, if_pos hwants]
    rw [if_pos hwants] at hkeeps
    exact ⟨rfl, h.giveWord hkeeps⟩
  · rw [if_neg hwants, if_neg hwants]
    exact ⟨rfl, h⟩

end

end Steps

/-- The JIT reads what the resolver has bound or answered. -/
def Simulates (host : Host) (j : LrJit) (r : Resolver) : Prop :=
  ∃ b, Reads host j b ∧ Recalls b r

theorem Simulates.step {host : Host} {j : LrJit} {r : Resolver} {call : Call}
    (h : Simulates host j r) (hcall : Unprovided host call) (hcareful : r.Careful call) :
    (stepJit host j call).2 = (r.step call).2 ∧
      Simulates host (stepJit host j call).1 (r.step call).1 := by
  obtain ⟨b, hreads, hrecalls⟩ := h
  cases call with
  | add name addr =>
    refine ⟨rfl, ?_⟩
    simp only [stepJit, Resolver.step, Resolver.add]
    by_cases hname : name = []
    · rw [if_pos hname, lrJitAddSymbol, if_pos hname]
      exact ⟨b, hreads, hrecalls⟩
    · have hkeeps := hcareful.1
      simp only [Resolver.step, Resolver.add, if_neg hname] at hkeeps
      rw [if_neg hname]
      exact ⟨_, hreads.addSymbol hname addr (.inl hcall), hrecalls.bind addr hkeeps⟩
  | lookup name =>
    obtain ⟨hread, hreads'⟩ := lookupSymbolHashed_reads hreads name
    obtain ⟨hanswer, hrecalls'⟩ := hrecalls.lookup hcareful
    exact ⟨congrArg some (hread.trans hanswer), _, hreads', hrecalls'⟩

/-- With no name answered under another spelling yet, everything reads as it is bound. -/
theorem Simulates.start {host : Host} {j : LrJit} (idle : j.lazyFuncs = [])
    (missing : ∀ name ∈ j.miss, resolveSymbolFromProviders host name = 0) :
    Simulates host j { now := .of host j } :=
  ⟨.of host j, ⟨idle, missing, fun _ => rfl, rfl, rfl, rfl⟩,
    ⟨fun _ hmem => absurd hmem not_mem_nil, fun _ _ => rfl, rfl, rfl, rfl⟩⟩

/-- In a run whose calls change no address that was answered under another spelling, and
whose lookups go straight, every lookup answers as without caches. -/
theorem careful_lookups_transparent (host : Host) (j : LrJit) (calls : List Call)
    (idle : j.lazyFuncs = []) (missing : ∀ name ∈ j.miss, resolveSymbolFromProviders host name = 0)
    (hadds : ∀ call ∈ calls, Unprovided host call)
    (hcareful : Along (nextOf Resolver.step) Resolver.Careful { now := .of host j } calls) :
    Transparent host j calls := by
  have hstep : ∀ j r call, Simulates host j r → Unprovided host call → r.Careful call →
      (stepJit host j call).2 = (r.step call).2 ∧
        Simulates host (stepJit host j call).1 (r.step call).1 :=
    fun _ _ _ hrel hcall hcare => hrel.step hcall hcare
  exact answers_eq hstep calls j _ (.start idle missing) hadds hcareful

/-- A host without symbols. -/
def quietHost : Host := ⟨[], ⟨fun _ => 0, fun _ => 0⟩⟩

theorem unprovided_quiet (call : Call) : Unprovided quietHost call := by
  cases call with
  | add name addr =>
    have hprocess : resolveSymbolFromProcess quietHost name = 0 := by
      unfold resolveSymbolFromProcess resolveSymbolFromLibrary quietHost
      split
      · rfl
      · simp only
        split <;> simp
    have hloaded : resolveSymbolFromLoadedLibraries quietHost name = 0 := by
      simp [resolveSymbolFromLoadedLibraries, quietHost]
    simp [Unprovided, resolveSymbolFromProviders, hloaded, hprocess]
  | lookup name => trivial

def emptyJit : LrJit := { codeBuf := 4096, codeCap := 4096, dataBuf := 8192, dataCap := 4096 }

/-- `f`, `_f` and `__f`. -/
def plainName : CStr := [102]
def underscored : CStr := 95 :: plainName
def twiceUnderscored : CStr := 95 :: underscored

/-- A local name whose word is found again, an alias that is looked up twice. -/
def steadyRun : List Call :=
  [.add plainName 16, .lookup underscored, .lookup underscored, .lookup localTag,
    .add underscored 32, .lookup underscored, .lookup localTag, .lookup plainName]

theorem steadyRun_transparent : Transparent quietHost emptyJit steadyRun :=
  careful_lookups_transparent quietHost emptyJit steadyRun rfl (by simp [emptyJit])
    (fun call _ => unprovided_quiet call) (by decide)

/-- `_f` keeps the address that `f` had. -/
def staleRun : List Call :=
  [.add plainName 16, .lookup underscored, .add plainName 32, .lookup underscored]

/-- `__f` is found through the answer that was kept for `_f`. -/
def chainedRun : List Call :=
  [.add plainName 16, .lookup twiceUnderscored, .lookup underscored, .lookup twiceUnderscored]

theorem kept_answers_seen :
    (∀ call ∈ staleRun ++ chainedRun, Unprovided quietHost call) ∧
    (answers (stepJit quietHost) emptyJit staleRun = [none, some 16, none, some 16] ∧
      answers Resolver.step { now := .of quietHost emptyJit } staleRun =
        [none, some 16, none, some 32] ∧ ¬ Transparent quietHost emptyJit staleRun) ∧
    (answers (stepJit quietHost) emptyJit chainedRun = [none, some 0, some 16, some 16] ∧
      answers Resolver.step { now := .of quietHost emptyJit } chainedRun =
        [none, some 0, some 16, some 0] ∧ ¬ Transparent quietHost emptyJit chainedRun) := by
  refine ⟨fun call _ => unprovided_quiet call, ?_⟩
  unfold Transparent
  decide

end Liric.Guarantees.SymbolCaches
