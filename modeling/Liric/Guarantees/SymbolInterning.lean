import Liric.Source.Ir.Symbols

/-!
# Symbol interning is a bijection over whole runs

`WellFormed` is the invariant of the symbol table: names are distinct, hashes
are those of the names, the index is a linear-probing table over the hashes with
a power of two of slots, and at most half of its slots are occupied. It is kept
by rebuilding at either capacity and by every intern call, and it makes every
probe loop end.

The empty name is interned like any other but never found: the guard
`!name[0]` of `lr_module_find_symbol_id` answers `UINT32_MAX` for it.
-/
namespace Liric.Guarantees.SymbolInterning
open Source.Ir List SymbolTable
open Lib (Probed probed_replicate)

variable {k minSymbols : Nat} {index : List Nat} {names calls : List CStr} {x : CStr}

/-- The home slot of a hash in an index of the given capacity. -/
def homeSlot (cap : Nat) (hash : BitVec 32) : Nat := hash.toNat &&& (cap - 1)

structure WellFormed (m : SymbolTable) : Prop where
  hashes : m.symbolHashes = m.symbolNames.map symbolHash
  distinct : m.symbolNames.Nodup
  size : m.symbolIndex = [] ∨ ∃ k, m.symbolIndex.length = 2 ^ k
  probed : Probed m.symbolIndex (m.symbolHashes.map (homeSlot m.symbolIndex.length))
  load : 2 * m.numSymbols ≤ m.symbolIndex.length

theorem wellFormed_empty : WellFormed empty where
  hashes := rfl
  distinct := nodup_nil
  size := Or.inl rfl
  probed := probed_replicate 0
  load := le_refl 0

theorem mask_step {len : Nat} (hlen : len = 2 ^ k) (s : Nat) :
    (s + 1) &&& (len - 1) = (s + 1) % len := by
  rw [hlen, Nat.and_two_pow_sub_one_eq_mod]

theorem homeSlot_lt {len : Nat} (hlen : len = 2 ^ k) (hash : BitVec 32) :
    homeSlot len hash < len := by
  rw [homeSlot, hlen, Nat.and_two_pow_sub_one_eq_mod]
  exact Nat.mod_lt _ (Nat.two_pow_pos k)

theorem indexInsert_probed {homes : List Nat} (hlen : index.length = 2 ^ k) (h : Probed index homes)
    (hroom : homes.length < index.length) (hash : BitVec 32) :
    ∃ index', indexInsert index hash homes.length = some index' ∧
      index'.length = index.length ∧ Probed index' (homes ++ [homeSlot index.length hash]) := by
  have hnext : ∀ s, s < index.length →
      (fun s => (s + 1) &&& (index.length - 1)) s = (s + 1) % index.length :=
    fun s _ => mask_step hlen s
  obtain ⟨slot, hrun, hprobed⟩ := h.place hnext (homeSlot_lt hlen hash) hroom
  refine ⟨index.set slot (homes.length + 1), ?_, by simp, hprobed⟩
  rw [homeSlot] at hrun
  rw [indexInsert, probeLoop, hrun]
  rfl

/-- Reinsertion of all symbols into a table with room for them. -/
theorem indexInsertAll_probed (hashes : List (BitVec 32)) {homes : List Nat}
    (hlen : index.length = 2 ^ k) (h : Probed index homes)
    (hroom : homes.length + hashes.length ≤ index.length) :
    ∃ index', indexInsertAll hashes homes.length index = some index' ∧
      index'.length = index.length ∧
      Probed index' (homes ++ hashes.map (homeSlot index.length)) := by
  induction hashes generalizing index homes with
  | nil => exact ⟨index, rfl, rfl, by simpa using h⟩
  | cons hash rest ih =>
    simp only [length_cons] at hroom
    obtain ⟨index₁, hins, hlen₁, hprobed₁⟩ := indexInsert_probed hlen h (by omega) hash
    obtain ⟨index₂, hrest, hlen₂, hprobed₂⟩ := ih (hlen₁.trans hlen) hprobed₁
      (by rw [length_append, hlen₁]; simp only [length_singleton]; omega)
    refine ⟨index₂, ?_, hlen₂.trans hlen₁, ?_⟩
    · rw [length_append, length_singleton] at hrest
      simp only [indexInsertAll, hins, Option.bind_eq_bind, Option.bind_some, hrest]
    · rw [hlen₁] at hprobed₂
      simpa using hprobed₂

/-- Doubling from a power of two ends at a power of two, without leaving 32 bits. -/
theorem rebuildCap_pow (minSymbols fuel k : Nat) (hmin : minSymbols * 2 ≤ 2 ^ 31) (hk : k ≤ 31)
    (hfuel : 31 < fuel + k) :
    ∃ k', rebuildCap minSymbols fuel (2 ^ k) = some (2 ^ k') ∧ minSymbols * 2 ≤ 2 ^ k' := by
  have hword : (minSymbols * 2) % 2 ^ 32 = minSymbols * 2 := Nat.mod_eq_of_lt (by omega)
  induction fuel generalizing k with
  | zero => omega
  | succ fuel ih =>
    rw [rebuildCap, hword]
    split
    · rename_i hlt
      have hk31 : k < 31 := by
        by_contra hge
        rw [show k = 31 by omega] at hlt
        omega
      have hdouble : (2 ^ k * 2) % 2 ^ 32 = 2 ^ (k + 1) := by
        rw [← Nat.pow_succ]
        exact Nat.mod_eq_of_lt (Nat.pow_lt_pow_right (by decide) (by omega))
      rw [hdouble]
      exact ih (k + 1) (by omega) (by omega)
    · rename_i hge
      exact ⟨k, rfl, by omega⟩

/-- A rebuild for at least the present symbols keeps the table well formed and
restores the load bound for the requested number. -/
theorem symbolIndexRebuild_wellFormed {m : SymbolTable} (h : WellFormed m) (minSymbols : Nat)
    (hmin : minSymbols * 2 ≤ 2 ^ 31) (hall : m.numSymbols ≤ minSymbols) :
    ∃ m', symbolIndexRebuild m minSymbols = some m' ∧ WellFormed m' ∧
      m'.symbolNames = m.symbolNames ∧ m'.symbolHashes = m.symbolHashes ∧
      minSymbols * 2 ≤ m'.symbolIndex.length ∧ 0 < m'.symbolIndex.length := by
  obtain ⟨k, hcap, hroom⟩ := rebuildCap_pow minSymbols 33 7 hmin (by decide) (by decide)
  have hcount : m.symbolHashes.length = m.numSymbols := by
    rw [h.hashes, length_map, numSymbols]
  obtain ⟨index, hins, hlen, hprobed⟩ := indexInsertAll_probed m.symbolHashes
    (length_replicate (n := 2 ^ k)) (probed_replicate (2 ^ k))
    (by simp only [length_nil, length_replicate]; omega)
  simp only [length_replicate, nil_append] at hlen hprobed
  refine ⟨{ m with symbolIndex := index }, ?_, ?_, rfl, rfl, ?_, ?_⟩
  · have hcap' : rebuildCap minSymbols 33 128 = some (2 ^ k) := hcap
    simp only [length_nil] at hins
    simp only [symbolIndexRebuild, hcap', hins, Option.bind_eq_bind, Option.bind_some]
    rfl
  · exact ⟨h.hashes, h.distinct, Or.inr ⟨k, hlen⟩, by simpa [hlen] using hprobed,
      by simp only [numSymbols] at hall ⊢; omega⟩
  · simp only [hlen]
    omega
  · simp only [hlen]
    exact Nat.two_pow_pos k

theorem isMatch_iff {m : SymbolTable} (h : WellFormed m) (name : CStr) (j : Nat) :
    (m.symbolHashes[j]? == some (symbolHash name) && m.symbolNames[j]? == some name) = true ↔
      m.symbolNames[j]? = some name := by
  rw [h.hashes, Bool.and_eq_true, beq_iff_eq, beq_iff_eq, getElem?_map]
  constructor
  · exact fun hboth => hboth.2
  · intro hname
    exact ⟨by rw [hname]; rfl, hname⟩

theorem eq_idxOf_of_getElem? (hnodup : names.Nodup) {j : Nat} {name : CStr}
    (hj : names[j]? = some name) : j = names.idxOf name := by
  obtain ⟨hlt, hget⟩ := List.getElem?_eq_some_iff.mp hj
  rw [← hget, hnodup.idxOf_getElem]

/-- The search loop ends at the symbol with the name, or at a free cell when no
symbol has it. -/
theorem searchLoop_spec {m : SymbolTable} (h : WellFormed m) (hpos : 0 < m.symbolIndex.length)
    (name : CStr) :
    searchLoop m (symbolHash name) name =
      some (if name ∈ m.symbolNames then m.symbolNames.idxOf name + 1 else 0) := by
  obtain ⟨k, hlen⟩ : ∃ k, m.symbolIndex.length = 2 ^ k := by
    rcases h.size with hnil | hk
    · rw [hnil] at hpos
      exact absurd hpos (lt_irrefl 0)
    · exact hk
  have hcount : (m.symbolHashes.map (homeSlot m.symbolIndex.length)).length = m.numSymbols := by
    rw [length_map, h.hashes, length_map, numSymbols]
  have hload := h.load
  split
  · rename_i hmem
    have hk : m.symbolNames[m.symbolNames.idxOf name]? = some name := getElem?_idxOf hmem
    have hhome : (m.symbolHashes.map (homeSlot m.symbolIndex.length))[m.symbolNames.idxOf name]? =
        some (homeSlot m.symbolIndex.length (symbolHash name)) := by
      rw [h.hashes, getElem?_map, getElem?_map, hk]
      rfl
    obtain ⟨slot, hrun, hcell⟩ := h.probed.search_hit (fun s _ => mask_step hlen s)
      (fun j => m.symbolHashes[j]? == some (symbolHash name) && m.symbolNames[j]? == some name)
      hhome ((isMatch_iff h name _).mpr hk)
      (fun j _ hj => eq_idxOf_of_getElem? h.distinct ((isMatch_iff h name j).mp hj))
    rw [homeSlot] at hrun
    rw [searchLoop, probeLoop, hrun]
    exact congrArg some hcell
  · rename_i hmem
    obtain ⟨slot, hrun, hcell⟩ := h.probed.search_miss (fun s _ => mask_step hlen s)
      (fun j => m.symbolHashes[j]? == some (symbolHash name) && m.symbolNames[j]? == some name)
      (homeSlot_lt hlen (symbolHash name)) (by omega)
      (fun j _ => by
        rw [Bool.eq_false_iff]
        intro hj
        exact hmem (mem_of_getElem? ((isMatch_iff h name j).mp hj)))
    rw [homeSlot] at hrun
    rw [searchLoop, probeLoop, hrun]
    exact congrArg some hcell

/-- The names known after a name has been seen. -/
def addName (names : List CStr) (name : CStr) : List CStr :=
  if name ∈ names then names else names ++ [name]

theorem allocateIndex_spec {m : SymbolTable} (h : WellFormed m) :
    ∃ m', allocateIndex m = some m' ∧ WellFormed m' ∧ m'.symbolNames = m.symbolNames ∧
      0 < m'.symbolIndex.length ∧ (m.symbolNames ≠ [] → m' = m) := by
  have hload := h.load
  unfold allocateIndex
  split
  · rename_i hzero
    have hnone : m.symbolNames = [] := by
      simp only [numSymbols] at hload
      exact eq_nil_of_length_eq_zero (by omega)
    obtain ⟨m', hrun, hwf, hnames, -, -, hpos⟩ := symbolIndexRebuild_wellFormed h 1
      (by decide) (by omega)
    exact ⟨m', hrun, hwf, hnames, hpos, fun hne => absurd hnone hne⟩
  · exact ⟨m, rfl, h, rfl, by omega, fun _ => rfl⟩

/-- Growing the name arrays touches only their capacity. -/
theorem growNames_spec {m : SymbolTable} (h : WellFormed m) :
    WellFormed (growNames m) ∧ (growNames m).symbolNames = m.symbolNames ∧
      (growNames m).symbolIndex = m.symbolIndex := by
  unfold growNames
  split
  · exact ⟨⟨h.hashes, h.distinct, h.size, h.probed, h.load⟩, rfl, rfl⟩
  · exact ⟨h, rfl, rfl⟩

/-- The load bound is restored for one more symbol. -/
theorem growIndex_spec {m : SymbolTable} (h : WellFormed m) (hfew : m.numSymbols + 1 < 2 ^ 30) :
    ∃ m', growIndex m = some m' ∧ WellFormed m' ∧ m'.symbolNames = m.symbolNames ∧
      2 * (m'.numSymbols + 1) ≤ m'.symbolIndex.length := by
  have hword : (m.numSymbols + 1) % 2 ^ 32 = m.numSymbols + 1 := Nat.mod_eq_of_lt (by omega)
  have hword₂ : (m.numSymbols + 1) * 2 % 2 ^ 32 = (m.numSymbols + 1) * 2 :=
    Nat.mod_eq_of_lt (by omega)
  rw [growIndex, hword, hword₂]
  split
  · obtain ⟨m', hrun, hwf, hnames, -, hroom, -⟩ := symbolIndexRebuild_wellFormed h
      (m.numSymbols + 1) (by omega) (by omega)
    refine ⟨m', hrun, hwf, hnames, ?_⟩
    simp only [numSymbols, hnames] at hroom ⊢
    omega
  · exact ⟨m, rfl, h, rfl, by omega⟩

/-- Appending a new symbol to a table with room for one more. -/
theorem appendSymbol_spec {m : SymbolTable} (h : WellFormed m) {name : CStr}
    (hnew : name ∉ m.symbolNames) (hroom : 2 * (m.numSymbols + 1) ≤ m.symbolIndex.length) :
    ∃ m', appendSymbol m (symbolHash name) name = some (m', m.numSymbols) ∧
      WellFormed m' ∧ m'.symbolNames = m.symbolNames ++ [name] ∧ 0 < m'.symbolIndex.length := by
  obtain ⟨k, hlen⟩ : ∃ k, m.symbolIndex.length = 2 ^ k := by
    rcases h.size with hnil | hk
    · rw [hnil, length_nil] at hroom
      omega
    · exact hk
  have hcount : (m.symbolHashes.map (homeSlot m.symbolIndex.length)).length = m.numSymbols := by
    rw [length_map, h.hashes, length_map, numSymbols]
  obtain ⟨index, hins, hlen', hprobed⟩ :=
    indexInsert_probed hlen h.probed (by omega) (symbolHash name)
  rw [hcount] at hins
  refine ⟨{ m with
    symbolNames := m.symbolNames ++ [name]
    symbolHashes := m.symbolHashes ++ [symbolHash name]
    symbolIndex := index }, ?_, ⟨?_, ?_, Or.inr ⟨k, hlen'.trans hlen⟩, ?_, ?_⟩, rfl, ?_⟩
  · simp only [appendSymbol, hins, Option.bind_eq_bind, Option.bind_some]
    rfl
  · simp [h.hashes]
  · exact nodup_append.mpr ⟨h.distinct, nodup_singleton _, by
      intro a ha b hb heq
      simp only [mem_singleton] at hb
      exact hnew (hb ▸ heq ▸ ha)⟩
  · simpa [hlen'] using hprobed
  · simp only [numSymbols, length_append, length_singleton] at hroom ⊢
    omega
  · simp only [hlen']
    omega

/-- Interning a name that is known changes nothing. -/
theorem intern_known {m : SymbolTable} {name : CStr} (h : WellFormed m)
    (hmem : name ∈ m.symbolNames) :
    lrModuleInternSymbol m name = some (m, m.symbolNames.idxOf name) := by
  obtain ⟨m₁, halloc, hwf₁, -, hpos₁, hsame₁⟩ := allocateIndex_spec h
  obtain rfl := hsame₁ (ne_nil_of_mem hmem)
  have hsearch := searchLoop_spec hwf₁ hpos₁ name
  simp only [lrModuleInternSymbol, halloc, hsearch, if_pos hmem, Option.bind_eq_bind,
    Option.bind_some]
  rfl

/-- Every call ends, keeps the table well formed, and answers with the position
of the name among the names now known. -/
theorem lrModuleInternSymbol_spec {m : SymbolTable} (h : WellFormed m) (name : CStr)
    (hfew : (addName m.symbolNames name).length < 2 ^ 30) :
    ∃ m', lrModuleInternSymbol m name = some (m', m'.symbolNames.idxOf name) ∧
      WellFormed m' ∧ m'.symbolNames = addName m.symbolNames name ∧
      0 < m'.symbolIndex.length ∧ (name ∈ m.symbolNames → m' = m) := by
  obtain ⟨m₁, halloc, hwf₁, hnames₁, hpos₁, hsame₁⟩ := allocateIndex_spec h
  have hsearch := searchLoop_spec hwf₁ hpos₁ name
  by_cases hmem : name ∈ m.symbolNames
  · obtain rfl := hsame₁ (ne_nil_of_mem hmem)
    exact ⟨m₁, intern_known h hmem, hwf₁, by rw [addName, if_pos hmem], hpos₁, fun _ => rfl⟩
  · have hnew : name ∉ m₁.symbolNames := hnames₁ ▸ hmem
    obtain ⟨hwf₂, hnames₂, -⟩ := growNames_spec hwf₁
    have hlen : (growNames m₁).numSymbols + 1 < 2 ^ 30 := by
      simpa [numSymbols, addName, hmem, hnames₂, hnames₁] using hfew
    obtain ⟨m₃, hgrow, hwf₃, hnames₃, hroom₃⟩ := growIndex_spec hwf₂ hlen
    have hnew₃ : name ∉ m₃.symbolNames := by rw [hnames₃, hnames₂]; exact hnew
    obtain ⟨m₄, happend, hwf₄, hnames₄, hpos₄⟩ := appendSymbol_spec hwf₃ hnew₃ hroom₃
    have hid : m₄.symbolNames.idxOf name = m₃.numSymbols := by
      rw [hnames₄, idxOf_append_of_notMem hnew₃]
      simp [numSymbols]
    refine ⟨m₄, ?_, hwf₄, ?_, hpos₄, fun hcontra => absurd hcontra hmem⟩
    · simp only [lrModuleInternSymbol, halloc, hsearch, if_neg hnew, Option.bind_eq_bind,
        Option.bind_some, hgrow, hid, ne_eq, not_true_eq_false, if_false, happend]
    · simp [addName, hmem, hnames₄, hnames₃, hnames₂, hnames₁]

/-! ## Calls that return

A table that would pass `2 ^ 31` slots is asked for a capacity that is never reached, so a
call that returns has kept the table within its 32 bits, whatever the number of symbols. -/

theorem rebuildCap_zero {fuel : Nat} (hneed : 0 < minSymbols * 2 % 2 ^ 32) :
    rebuildCap minSymbols fuel 0 = none := by
  induction fuel with
  | zero => rfl
  | succ fuel ih =>
    rw [rebuildCap, if_pos hneed]
    exact ih

theorem rebuildCap_run {fuel cap : Nat} (hk : k ≤ 31)
    (hrun : rebuildCap minSymbols fuel (2 ^ k) = some cap) :
    minSymbols * 2 % 2 ^ 32 ≤ cap ∧ cap ≤ 2 ^ 31 := by
  induction fuel generalizing k with
  | zero => cases hrun
  | succ fuel ih =>
    rw [rebuildCap] at hrun
    split at hrun
    · rename_i hlt
      by_cases hlast : k = 31
      · subst hlast
        rw [show 2 ^ 31 * 2 % 2 ^ 32 = 0 from rfl, rebuildCap_zero (by omega)] at hrun
        cases hrun
      · have hdouble : (2 ^ k * 2) % 2 ^ 32 = 2 ^ (k + 1) := by
          rw [← Nat.pow_succ]
          exact Nat.mod_eq_of_lt (Nat.pow_lt_pow_right (by decide) (by omega))
        rw [hdouble] at hrun
        exact ih (by omega) hrun
    · rename_i hge
      cases hrun
      exact ⟨Nat.not_lt.1 hge, Nat.pow_le_pow_right (by decide) hk⟩

theorem length_indexInsertAll {hashes : List (BitVec 32)} {id : Nat} {index' : List Nat}
    (hrun : indexInsertAll hashes id index = some index') : index'.length = index.length := by
  induction hashes generalizing id index with
  | nil =>
    cases hrun
    rfl
  | cons hash rest ih =>
    obtain ⟨index₁, hins, hrest⟩ := Option.bind_eq_some_iff.1 hrun
    obtain ⟨slot, -, rfl⟩ := Option.map_eq_some_iff.1 hins
    rw [ih hrest, length_set]

theorem symbolIndexRebuild_run {m m' : SymbolTable} (h : WellFormed m)
    (hmin : minSymbols * 2 < 2 ^ 32) (hall : m.numSymbols ≤ minSymbols)
    (hrun : symbolIndexRebuild m minSymbols = some m') :
    WellFormed m' ∧ m'.symbolNames = m.symbolNames ∧ minSymbols * 2 ≤ m'.symbolIndex.length ∧
      m'.symbolIndex.length ≤ 2 ^ 31 := by
  obtain ⟨cap, hcap, hfill⟩ := Option.bind_eq_some_iff.1 hrun
  obtain ⟨index, hins, hm'⟩ := Option.bind_eq_some_iff.1 hfill
  obtain ⟨hneed, hbound⟩ := rebuildCap_run (k := 7) (by decide) hcap
  rw [Nat.mod_eq_of_lt hmin] at hneed
  obtain ⟨m₁, hrun₁, hwf, hnames, -, hroom, -⟩ :=
    symbolIndexRebuild_wellFormed h minSymbols (by omega) hall
  obtain rfl : m₁ = m' := Option.some.inj (hrun₁.symm.trans hrun)
  refine ⟨hwf, hnames, hroom, ?_⟩
  cases hm'
  rw [length_indexInsertAll hins, length_replicate]
  exact hbound

theorem growIndex_run {m m' : SymbolTable} (h : WellFormed m)
    (hbound : m.symbolIndex.length ≤ 2 ^ 31) (hrun : growIndex m = some m') :
    WellFormed m' ∧ m'.symbolNames = m.symbolNames ∧
      2 * (m'.numSymbols + 1) ≤ m'.symbolIndex.length ∧ m'.symbolIndex.length ≤ 2 ^ 31 := by
  have hload := h.load
  have hword : (m.numSymbols + 1) % 2 ^ 32 = m.numSymbols + 1 := Nat.mod_eq_of_lt (by omega)
  have hword₂ : (m.numSymbols + 1) * 2 % 2 ^ 32 = (m.numSymbols + 1) * 2 :=
    Nat.mod_eq_of_lt (by omega)
  rw [growIndex, hword, hword₂] at hrun
  split at hrun
  · obtain ⟨hwf, hnames, hroom, hbound'⟩ :=
      symbolIndexRebuild_run h (by omega) (by omega) hrun
    have hcount : m'.numSymbols = m.numSymbols := congrArg List.length hnames
    exact ⟨hwf, hnames, by omega, hbound'⟩
  · cases hrun
    exact ⟨h, rfl, by omega, hbound⟩

/-- A call that returns, for any number of symbols. -/
theorem lrModuleInternSymbol_run {m m' : SymbolTable} {name : CStr} {id : Nat} (h : WellFormed m)
    (hbound : m.symbolIndex.length ≤ 2 ^ 31) (hrun : lrModuleInternSymbol m name = some (m', id)) :
    WellFormed m' ∧ m'.symbolIndex.length ≤ 2 ^ 31 ∧
      m'.symbolNames = addName m.symbolNames name ∧ id = m'.symbolNames.idxOf name := by
  obtain ⟨m₁, halloc, hrest⟩ := Option.bind_eq_some_iff.1 hrun
  obtain ⟨m₁', halloc', hwf₁, hnames₁, hpos₁, -⟩ := allocateIndex_spec h
  obtain rfl : m₁' = m₁ := Option.some.inj (halloc'.symm.trans halloc)
  have hbound₁ : m₁'.symbolIndex.length ≤ 2 ^ 31 := by
    rw [allocateIndex] at halloc
    split at halloc
    · exact (symbolIndexRebuild_run h (by decide) (by have := h.load; omega) halloc).2.2.2
    · cases halloc
      exact hbound
  rw [searchLoop_spec hwf₁ hpos₁, hnames₁] at hrest
  by_cases hmem : name ∈ m.symbolNames
  · rw [if_pos hmem] at hrest
    cases hrest
    exact ⟨hwf₁, hbound₁, by rw [hnames₁, addName, if_pos hmem], by rw [hnames₁]; rfl⟩
  · rw [if_neg hmem] at hrest
    replace hrest : (growIndex (growNames m₁')).bind
        (fun m => appendSymbol m (symbolHash name) name) = some (m', id) := hrest
    obtain ⟨m₃, hgrow, happend⟩ := Option.bind_eq_some_iff.1 hrest
    obtain ⟨hwf₂, hnames₂, hindex₂⟩ := growNames_spec hwf₁
    obtain ⟨hwf₃, hnames₃, hroom₃, hbound₃⟩ := growIndex_run hwf₂ (by rw [hindex₂]; exact hbound₁)
      hgrow
    have hnew₃ : name ∉ m₃.symbolNames := by
      rw [hnames₃, hnames₂, hnames₁]
      exact hmem
    obtain ⟨m₄, happend', hwf₄, hnames₄, -⟩ := appendSymbol_spec hwf₃ hnew₃ hroom₃
    obtain rfl : m₄ = m' := congrArg Prod.fst (Option.some.inj (happend'.symm.trans happend))
    obtain ⟨index, hins, heq⟩ := Option.bind_eq_some_iff.1 happend
    obtain ⟨slot, -, rfl⟩ := Option.map_eq_some_iff.1 hins
    have hid : id = m₃.numSymbols :=
      (congrArg Prod.snd (Option.some.inj (happend'.symm.trans happend))).symm
    refine ⟨hwf₄, ?_, ?_, ?_⟩
    · cases heq
      rw [length_set]
      exact hbound₃
    · rw [hnames₄, hnames₃, hnames₂, hnames₁, addName, if_neg hmem]
    · rw [hid, hnames₄, idxOf_append_of_notMem hnew₃]
      simp [numSymbols]

theorem lrModuleFindSymbolId_spec {m : SymbolTable} (h : WellFormed m) (name : CStr) :
    lrModuleFindSymbolId m name =
      some (if name ≠ [] ∧ name ∈ m.symbolNames then m.symbolNames.idxOf name
        else uint32Max) := by
  unfold lrModuleFindSymbolId
  by_cases hempty : name = []
  · simp [hempty]
  · by_cases hzero : m.symbolIndex.length = 0
    · have hload := h.load
      have hnone : m.symbolNames = [] := by
        simp only [numSymbols] at hload
        exact eq_nil_of_length_eq_zero (by omega)
      simp [hzero, hnone]
    · rw [if_neg (by simp [hempty, hzero]), searchLoop_spec h (by omega)]
      by_cases hmem : name ∈ m.symbolNames
      · simp [hempty, hmem]
      · simp [hmem]

/-- The distinct names of a run in the order they are first seen. -/
def firstSeen (calls : List CStr) : List CStr := calls.foldl addName []

theorem addName_extends (names : List CStr) (name : CStr) : names <+: addName names name := by
  unfold addName
  split
  · exact prefix_rfl
  · exact prefix_append names [name]

theorem foldl_addName_extends (calls names : List CStr) : names <+: calls.foldl addName names := by
  induction calls generalizing names with
  | nil => exact prefix_rfl
  | cons name rest ih => exact (addName_extends names name).trans (ih _)

theorem mem_addName {name : CStr} : x ∈ addName names name ↔ x ∈ names ∨ x = name := by
  unfold addName
  split
  · rename_i hmem
    exact ⟨Or.inl, fun hor => hor.elim id (fun heq => heq ▸ hmem)⟩
  · simp

theorem mem_foldl_addName : x ∈ calls.foldl addName names ↔ x ∈ names ∨ x ∈ calls := by
  induction calls generalizing names with
  | nil => simp
  | cons name rest ih => rw [foldl_cons, ih, mem_addName, mem_cons, or_assoc]

theorem mem_firstSeen : x ∈ firstSeen calls ↔ x ∈ calls := by
  simp [firstSeen, mem_foldl_addName]

theorem nodup_addName (h : names.Nodup) (name : CStr) : (addName names name).Nodup := by
  unfold addName
  split
  · exact h
  · rename_i hnew
    exact nodup_append.mpr ⟨h, nodup_singleton name, fun a ha b hb heq =>
      hnew (mem_singleton.mp hb ▸ heq ▸ ha)⟩

theorem nodup_firstSeen (calls : List CStr) : (firstSeen calls).Nodup := by
  suffices h : ∀ names : List CStr, names.Nodup → (calls.foldl addName names).Nodup from
    h [] nodup_nil
  induction calls with
  | nil => exact fun _ h => h
  | cons name rest ih => exact fun names h => ih _ (nodup_addName h name)

theorem firstSeen_append (calls more : List CStr) :
    firstSeen (calls ++ more) = more.foldl addName (firstSeen calls) := foldl_append

theorem firstSeen_of_nodup (h : calls.Nodup) : firstSeen calls = calls := by
  induction calls using reverseRecOn with
  | nil => rfl
  | append_singleton calls name ih =>
    obtain ⟨hcalls, -, hdisjoint⟩ := nodup_append.mp h
    have hnew : name ∉ calls := fun hmem => hdisjoint name hmem name (mem_singleton_self name) rfl
    rw [firstSeen_append, ih hcalls, foldl_cons, foldl_nil, addName, if_neg hnew]

/-- A repeated name leaves fewer names than calls. -/
theorem length_firstSeen_lt (h : ¬ calls.Nodup) : (firstSeen calls).length < calls.length := by
  have hsub : (firstSeen calls).Subperm calls :=
    (nodup_firstSeen calls).subperm fun _ hx => mem_firstSeen.mp hx
  by_contra hge
  exact h ((hsub.perm_of_length_le (Nat.not_lt.mp hge)).nodup (nodup_firstSeen calls))

/-- A call gets its own place in the run as its id exactly if no name has been repeated yet. -/
theorem getElem?_firstSeen_iff (hk : k < calls.length) :
    (firstSeen calls)[k]? = calls[k]? ↔ (calls.take (k + 1)).Nodup := by
  have hpre : firstSeen (calls.take (k + 1)) <+: firstSeen calls := by
    have hsplit := firstSeen_append (calls.take (k + 1)) (calls.drop (k + 1))
    rw [take_append_drop] at hsplit
    rw [hsplit]
    exact foldl_addName_extends _ _
  constructor
  · intro hsame
    by_contra hrepeated
    have hlen := length_firstSeen_lt hrepeated
    rw [length_take] at hlen
    -- the name stands at an earlier place, and every name stands at one place
    have hmem : calls[k] ∈ firstSeen (calls.take (k + 1)) :=
      mem_firstSeen.mpr (mem_take_iff_getElem.mpr ⟨k, by omega, rfl⟩)
    obtain ⟨j, hj, hget⟩ := getElem_of_mem hmem
    have hjk : (firstSeen calls)[j]? = (firstSeen calls)[k]? := by
      rw [hsame, getElem?_eq_getElem hk, ← hget]
      exact (prefix_iff_getElem?.mp hpre) j hj
    have heq := (getElem?_inj (lt_of_lt_of_le hj hpre.length_le)
      (nodup_firstSeen calls)).mp hjk
    omega
  · intro hnodup
    rw [firstSeen_of_nodup hnodup] at hpre
    have hlen : k < (calls.take (k + 1)).length := by
      rw [length_take]
      omega
    rw [prefix_iff_getElem?.mp hpre k hlen, getElem_take, getElem?_eq_getElem hk]

theorem length_addName_le (names : List CStr) (name : CStr) :
    (addName names name).length ≤ names.length + 1 := by
  unfold addName
  split
  · omega
  · simp

theorem length_foldl_addName_le (calls names : List CStr) :
    (calls.foldl addName names).length ≤ names.length + calls.length := by
  induction calls generalizing names with
  | nil => simp
  | cons name calls ih =>
    have hadd := length_addName_le names name
    have hrest := ih (addName names name)
    simp only [foldl_cons, length_cons]
    omega

section Names
variable {m m' : SymbolTable} {id : Nat} {name : CStr}

theorem symbolName_eq (m : SymbolTable) (id : Nat) :
    lrModuleSymbolName m id = m.symbolNames[id]? := by
  rw [lrModuleSymbolName]
  split
  · rename_i hge
    exact (getElem?_eq_none hge).symm
  · rfl

theorem symbolName_lt (h : lrModuleSymbolName m id = some name) : id < m.numSymbols := by
  rw [symbolName_eq] at h
  exact (List.getElem?_eq_some_iff.mp h).1

theorem symbolName_mem (h : lrModuleSymbolName m id = some name) : name ∈ m.symbolNames := by
  rw [symbolName_eq] at h
  exact mem_of_getElem? h

theorem symbolName_of_lt (h : id < m.symbolNames.length) :
    lrModuleSymbolName m id = some m.symbolNames[id] := by
  rw [symbolName_eq, getElem?_eq_getElem h]

theorem symbolName_idxOf (h : name ∈ m.symbolNames) :
    lrModuleSymbolName m (m.symbolNames.idxOf name) = some name := by
  rw [symbolName_eq, getElem?_idxOf h]

theorem symbolName_of_extends (hpre : m.symbolNames <+: m'.symbolNames)
    (h : lrModuleSymbolName m id = some name) : lrModuleSymbolName m' id = some name := by
  have hlt := symbolName_lt h
  rw [symbolName_eq] at h ⊢
  obtain ⟨tail, htail⟩ := hpre
  rw [← htail, getElem?_append_left hlt, h]

/-- Two ids have one name only if they are one id. -/
theorem symbolName_inj (h : WellFormed m) {i j : Nat} (hi : lrModuleSymbolName m i = some name)
    (hj : lrModuleSymbolName m j = some name) : i = j := by
  have hlt := symbolName_lt hi
  rw [symbolName_eq] at hi hj
  exact (getElem?_inj hlt h.distinct).mp (hi.trans hj.symm)

/-- A name is interned under an id that has this name from then on. -/
theorem intern_named (h : WellFormed m) (name : CStr) (hfew : m.numSymbols + 1 < 2 ^ 30) :
    ∃ m' id, lrModuleInternSymbol m name = some (m', id) ∧ WellFormed m' ∧
      m.symbolNames <+: m'.symbolNames ∧ m'.numSymbols ≤ m.numSymbols + 1 ∧
      lrModuleSymbolName m' id = some name := by
  have hlen := length_addName_le m.symbolNames name
  obtain ⟨m', hrun, hwf, hnames, -, -⟩ :=
    lrModuleInternSymbol_spec h name (lt_of_le_of_lt hlen hfew)
  refine ⟨m', _, hrun, hwf, ?_, ?_, ?_⟩
  · rw [hnames]
    exact addName_extends _ _
  · rw [numSymbols, hnames]
    exact hlen
  · exact symbolName_idxOf (by rw [hnames, mem_addName]; exact .inr rfl)

/-- As `intern_named`, for a call that returns. -/
theorem intern_run (h : WellFormed m) (hbound : m.symbolIndex.length ≤ 2 ^ 31)
    (hrun : lrModuleInternSymbol m name = some (m', id)) :
    WellFormed m' ∧ m'.symbolIndex.length ≤ 2 ^ 31 ∧ m.symbolNames <+: m'.symbolNames ∧
      lrModuleSymbolName m' id = some name := by
  obtain ⟨hwf, hbound', hnames, rfl⟩ := lrModuleInternSymbol_run h hbound hrun
  refine ⟨hwf, hbound', ?_, ?_⟩
  · rw [hnames]
    exact addName_extends _ _
  · exact symbolName_idxOf (by rw [hnames, mem_addName]; exact .inr rfl)

end Names

/-- A position once given out is not changed by later names. -/
theorem idxOf_of_extends {more : List CStr} (hpre : names <+: more) (hmem : x ∈ names) :
    more.idxOf x = names.idxOf x := by
  obtain ⟨tail, rfl⟩ := hpre
  exact idxOf_append_of_mem hmem

theorem internAll_spec (calls : List CStr) {m : SymbolTable} (h : WellFormed m)
    (hfew : (calls.foldl addName m.symbolNames).length < 2 ^ 30) :
    ∃ m' ids, internAll m calls = some (m', ids) ∧ WellFormed m' ∧
      m'.symbolNames = calls.foldl addName m.symbolNames ∧
      ids = calls.map (fun s => m'.symbolNames.idxOf s) ∧
      (calls ≠ [] → 0 < m'.symbolIndex.length) := by
  induction calls generalizing m with
  | nil => exact ⟨m, [], rfl, h, rfl, rfl, fun hne => absurd rfl hne⟩
  | cons name rest ih =>
    have hprefix := foldl_addName_extends rest (addName m.symbolNames name)
    obtain ⟨m₁, hrun₁, hwf₁, hnames₁, hpos₁, -⟩ := lrModuleInternSymbol_spec h name
      (lt_of_le_of_lt hprefix.length_le hfew)
    obtain ⟨m₂, ids, hrun₂, hwf₂, hnames₂, hids₂, hpos₂⟩ := ih hwf₁ (by rw [hnames₁]; exact hfew)
    refine ⟨m₂, m₁.symbolNames.idxOf name :: ids, ?_, hwf₂, ?_, ?_, ?_⟩
    · simp only [internAll, hrun₁, Option.bind_eq_bind, Option.bind_some, hrun₂]
      rfl
    · rw [hnames₂, hnames₁, foldl_cons]
    · rw [map_cons, ← hids₂]
      congr 1
      rw [hnames₂]
      exact (idxOf_of_extends (foldl_addName_extends rest m₁.symbolNames)
        (by rw [hnames₁, mem_addName]; exact Or.inr rfl)).symm
    · intro _
      cases rest with
      | nil =>
        simp only [internAll, Option.some.injEq, Prod.mk.injEq] at hrun₂
        exact hrun₂.1 ▸ hpos₁
      | cons => exact hpos₂ (by simp)

theorem exists_free_cell {m : SymbolTable} (h : WellFormed m) (hpos : 0 < m.symbolIndex.length) :
    0 ∈ m.symbolIndex := by
  have hcount : (m.symbolHashes.map (homeSlot m.symbolIndex.length)).length = m.numSymbols := by
    rw [length_map, h.hashes, length_map, numSymbols]
  have hload := h.load
  obtain ⟨s, hs, hfree⟩ := h.probed.exists_free (by omega)
  rw [getD_eq_getElem?_getD, getElem?_eq_getElem hs, Option.getD_some] at hfree
  exact hfree ▸ getElem_mem hs

/-- After any run of intern calls on a fresh module with fewer than `2 ^ 30`
distinct names: the run ends, the ids are the positions of the names in
first-seen order (so exactly `0 … n - 1` are handed out and a repeated name gets
its first id again), names and ids translate back and forth, a non-empty name
is found exactly if it was interned, the empty name is never found, and the
index keeps a free slot. -/
theorem intern_run_bijection (calls : List CStr) (hfew : (firstSeen calls).length < 2 ^ 30) :
    ∃ m ids, internAll empty calls = some (m, ids) ∧
      ids = calls.map (fun s => (firstSeen calls).idxOf s) ∧
      (∀ id, id ∈ ids ↔ id < (firstSeen calls).length) ∧
      (∀ s ∈ calls,
        lrModuleInternSymbol m s = some (m, (firstSeen calls).idxOf s) ∧
        lrModuleSymbolName m ((firstSeen calls).idxOf s) = some s ∧
        (s ≠ [] → lrModuleFindSymbolId m s = some ((firstSeen calls).idxOf s))) ∧
      (∀ s, s ∉ calls → lrModuleFindSymbolId m s = some uint32Max) ∧
      lrModuleFindSymbolId m [] = some uint32Max ∧
      (calls ≠ [] → 0 ∈ m.symbolIndex) := by
  obtain ⟨m, ids, hrun, hwf, hnames, hids, hpos⟩ := internAll_spec calls wellFormed_empty hfew
  replace hnames : m.symbolNames = firstSeen calls := hnames
  rw [hnames] at hids
  refine ⟨m, ids, hrun, hids, ?_, ?_, ?_, ?_, ?_⟩
  · intro id
    rw [hids, mem_map]
    constructor
    · rintro ⟨s, hs, rfl⟩
      exact idxOf_lt_length_of_mem (mem_firstSeen.mpr hs)
    · intro hid
      refine ⟨(firstSeen calls)[id], mem_firstSeen.mp (getElem_mem hid), ?_⟩
      exact (hnames ▸ hwf.distinct).idxOf_getElem id hid
  · intro s hs
    have hmem : s ∈ m.symbolNames := by rw [hnames]; exact mem_firstSeen.mpr hs
    have hid : m.symbolNames.idxOf s = (firstSeen calls).idxOf s := by rw [hnames]
    refine ⟨?_, ?_, ?_⟩
    · obtain ⟨m', hagain, -, -, -, hsame⟩ := lrModuleInternSymbol_spec hwf s
        (by rw [addName, if_pos hmem, hnames]; exact hfew)
      rw [hagain, hsame hmem, hid]
    · have hlt : ¬ m.symbolNames.idxOf s ≥ m.numSymbols :=
        Nat.not_le.mpr (idxOf_lt_length_of_mem hmem)
      rw [← hid, lrModuleSymbolName, if_neg hlt, getElem?_idxOf hmem]
    · intro hne
      rw [lrModuleFindSymbolId_spec hwf, if_pos ⟨hne, hmem⟩, hid]
  · intro s hs
    rw [lrModuleFindSymbolId_spec hwf, if_neg]
    rintro ⟨-, hmem⟩
    rw [hnames] at hmem
    exact hs (mem_firstSeen.mp hmem)
  · rw [lrModuleFindSymbolId_spec hwf, if_neg (by simp)]
  · exact fun hne => exists_free_cell hwf (hpos hne)

/-- Interning `a`, `b`, `a` hands out `0, 1, 0`. -/
theorem intern_run_bijection_aba :
    (firstSeen [[97], [98], [97]]).length < 2 ^ 30 ∧
    ∃ m ids, internAll empty [[97], [98], [97]] = some (m, ids) ∧ ids = [0, 1, 0] := by
  have hfew : (firstSeen [[97], [98], [97]]).length < 2 ^ 30 := by decide
  obtain ⟨m, ids, hrun, hids, -⟩ := intern_run_bijection [[97], [98], [97]] hfew
  exact ⟨hfew, m, ids, hrun, hids.trans (by decide)⟩

/-- The empty string is interned under id 0 and still not found. -/
theorem interned_empty_name_not_found :
    ∃ m, internAll empty [[]] = some (m, [0]) ∧
      lrModuleSymbolName m 0 = some [] ∧ lrModuleFindSymbolId m [] ≠ some 0 := by
  obtain ⟨m, ids, hrun, hwf, hnames, hids, -⟩ := internAll_spec [[]] wellFormed_empty (by decide)
  replace hnames : m.symbolNames = [[]] := hnames
  rw [hnames] at hids
  obtain rfl : ids = [0] := hids
  refine ⟨m, hrun, ?_, ?_⟩
  · rw [lrModuleSymbolName, numSymbols, hnames]
    rfl
  · rw [lrModuleFindSymbolId_spec hwf, if_neg (by simp)]
    decide

end Liric.Guarantees.SymbolInterning
