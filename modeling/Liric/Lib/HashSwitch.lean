import Mathlib.Data.List.Perm.Basic
import Mathlib.Data.List.Nodup

/-!
# Dispatch on a hash

A switch over the hash of a key compares one key in each case. If the hashes of the keys differ,
the switch finds what a search of the table of the keys finds.
-/
namespace Liric.Lib.HashSwitch
open List

variable {κ η τ : Type} [DecidableEq κ] [DecidableEq η] {hash : κ → η}

/-- The first entry with the key. -/
def search (table : List (κ × τ)) (key : κ) : Option τ :=
  (table.find? fun entry => entry.1 == key).map Prod.snd

/-- Labels of cases, and the key and the result of each. -/
def dispatch (hash : κ → η) (cases : List (η × κ × τ)) (key : κ) : Option τ :=
  match cases.find? fun row => row.1 == hash key with
  | some (_, k, result) => if key = k then some result else none
  | none => none

/-- Each label is the hash of its key, no label is there twice, and the keys are those of the
table. -/
structure Perfect (hash : κ → η) (cases : List (η × κ × τ)) (table : List (κ × τ)) : Prop where
  labels : ∀ row ∈ cases, row.1 = hash row.2.1
  distinct : (cases.map Prod.fst).Nodup
  entries : (cases.map Prod.snd).Perm table

instance (cases : List (η × κ × τ)) (table : List (κ × τ)) [DecidableEq τ] :
    Decidable (Perfect hash cases table) :=
  decidable_of_iff ((∀ row ∈ cases, row.1 = hash row.2.1) ∧ (cases.map Prod.fst).Nodup ∧
      (cases.map Prod.snd).Perm table)
    ⟨fun h => ⟨h.1, h.2.1, h.2.2⟩, fun h => ⟨h.labels, h.distinct, h.entries⟩⟩

variable {cases : List (η × κ × τ)} {table : List (κ × τ)}

variable {key : κ} {result : τ}

/-- A result is the one of a case. -/
theorem mem_of_dispatch (h : dispatch hash cases key = some result) :
    result ∈ cases.map fun row => row.2.2 := by
  unfold dispatch at h
  split at h
  · next label k found hfind =>
    split at h
    · cases h
      exact mem_map_of_mem (mem_of_find?_eq_some hfind)
    · cases h
  · cases h

theorem search_eq_none : search table key = none ↔ ∀ entry ∈ table, entry.1 ≠ key := by
  simp [search]

/-- The first table hides the second. -/
theorem search_append (table names : List (κ × τ)) (key : κ) :
    search (table ++ names) key = (search table key).or (search names key) := by
  unfold search
  rw [find?_append, Option.map_or]

theorem mem_of_search (h : search table key = some result) : (key, result) ∈ table := by
  unfold search at h
  cases hfind : table.find? fun entry => entry.1 == key with
  | none => simp [hfind] at h
  | some entry =>
    have hmem := mem_of_find?_eq_some hfind
    have hkey : entry.1 = key := by simpa using find?_some hfind
    have hresult : entry.2 = result := by simpa [hfind] using h
    rwa [← hkey, ← hresult]

theorem search_of_mem (hkeys : (table.map Prod.fst).Nodup)
    (h : (key, result) ∈ table) : search table key = some result := by
  induction table with
  | nil => cases h
  | cons entry table ih =>
    rw [map_cons, nodup_cons] at hkeys
    rcases mem_cons.1 h with rfl | hmem
    · simp [search]
    · have hother : entry.1 ≠ key := by
        intro hsame
        exact hkeys.1 (hsame ▸ mem_map_of_mem hmem)
      have hrest := ih hkeys.2 hmem
      simpa [search, hother] using hrest

theorem dispatch_eq_search (h : Perfect hash cases table) (key : κ) :
    dispatch hash cases key = search table key := by
  have hfound : ∀ result, dispatch hash cases key = some result ↔ (key, result) ∈ table := by
    intro result
    rw [← h.entries.mem_iff]
    constructor
    · intro hdispatch
      unfold dispatch at hdispatch
      split at hdispatch
      · next label k r hfind =>
        split at hdispatch
        · next hkey =>
          cases hdispatch
          rw [hkey]
          exact mem_map_of_mem (mem_of_find?_eq_some hfind)
        · cases hdispatch
      · cases hdispatch
    · intro hmem
      obtain ⟨row, hrow, hpair⟩ := mem_map.1 hmem
      have hlabel : row.1 = hash key := by rw [h.labels row hrow, hpair]
      have hfind : (cases.find? fun row => row.1 == hash key) = some row := by
        have hsearch : search cases row.1 = some row.2 := search_of_mem h.distinct hrow
        unfold search at hsearch
        rw [hlabel] at hsearch
        cases hother : cases.find? fun row => row.1 == hash key with
        | none => simp [hother] at hsearch
        | some other =>
          have hfst : other.1 = row.1 := by
            rw [hlabel]
            simpa using find?_some hother
          have hsnd : other.2 = row.2 := by simpa [hother] using hsearch
          rw [Prod.ext hfst hsnd]
      simp [dispatch, hfind, hpair]
  cases hsearch : search table key with
  | some result => exact (hfound result).2 (mem_of_search hsearch)
  | none =>
    cases hdispatch : dispatch hash cases key with
    | none => rfl
    | some result => exact absurd rfl (search_eq_none.1 hsearch _ ((hfound result).1 hdispatch))

end Liric.Lib.HashSwitch
