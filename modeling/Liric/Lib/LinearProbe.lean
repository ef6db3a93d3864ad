import Mathlib.Data.List.Basic
import Mathlib.Data.Nat.Find

/-!
# Linear probing

A circular table of cells holds `0` (free) or `k + 1` (entry number `k`). Entry
`k` has a home slot and is stored at the first slot from its home that was free
when it was placed. `Probed` is the invariant of such a table: no entry is
separated from its home by a free slot, and the number of occupied cells is the
number of entries. While one cell stays free, every probe ends, at the entry it
looks for or at a free slot.
-/
namespace Liric.Lib
open List

/-- Follow `next` from a slot until `stop` holds; `none` when the fuel runs out. -/
def iterateUntil (next : Nat → Nat) (stop : Nat → Bool) : Nat → Nat → Option Nat
  | 0, _ => none
  | fuel + 1, slot => if stop slot then some slot else iterateUntil next stop fuel (next slot)

/-- Where it ends `stop` holds. -/
theorem iterateUntil_stops {next : Nat → Nat} {stop : Nat → Bool} {fuel slot s : Nat}
    (h : iterateUntil next stop fuel slot = some s) : stop s = true := by
  induction fuel generalizing slot with
  | zero => cases h
  | succ fuel ih =>
    unfold iterateUntil at h
    split at h
    · next hstop =>
      cases h
      exact hstop
    · exact ih h

section Circular

variable {n : Nat} {next : Nat → Nat} (hnext : ∀ s, s < n → next s = (s + 1) % n)
include hnext

theorem iterateUntil_eq_some (stop : Nat → Bool) (fuel d slot : Nat) (hslot : slot < n)
    (hd : d < fuel) (hstop : stop ((slot + d) % n) = true)
    (hbefore : ∀ e, e < d → stop ((slot + e) % n) = false) :
    iterateUntil next stop fuel slot = some ((slot + d) % n) := by
  induction d generalizing slot fuel with
  | zero =>
    obtain ⟨fuel, rfl⟩ : ∃ k, fuel = k + 1 := ⟨fuel - 1, by omega⟩
    have hhere : (slot + 0) % n = slot := Nat.mod_eq_of_lt hslot
    rw [hhere] at hstop ⊢
    rw [iterateUntil, if_pos hstop]
  | succ d ih =>
    obtain ⟨fuel, rfl⟩ : ∃ k, fuel = k + 1 := ⟨fuel - 1, by omega⟩
    have hpos : 0 < n := by omega
    have hhere : stop slot = false := by
      simpa [Nat.mod_eq_of_lt hslot] using hbefore 0 (by omega)
    have hshift : ∀ e, (next slot + e) % n = (slot + (e + 1)) % n := by
      intro e
      rw [hnext slot hslot, Nat.mod_add_mod]
      congr 1
      omega
    have hrec := ih fuel (next slot) (by rw [hnext slot hslot]; exact Nat.mod_lt _ hpos)
      (by omega) (by rw [hshift]; exact hstop)
      (fun e he => by rw [hshift]; exact hbefore (e + 1) (by omega))
    rw [iterateUntil, if_neg (by simp [hhere]), hrec, hshift]

/-- A circular walk reaches the first stopping slot, if there is any at all. -/
theorem iterateUntil_of_exists (stop : Nat → Bool) (slot : Nat) (hslot : slot < n)
    (hex : ∃ s, s < n ∧ stop s = true) :
    ∃ d, d < n ∧ iterateUntil next stop n slot = some ((slot + d) % n) ∧
      stop ((slot + d) % n) = true ∧ ∀ e, e < d → stop ((slot + e) % n) = false := by
  have hreach : ∃ d, d < n ∧ stop ((slot + d) % n) = true := by
    obtain ⟨s, hs, hstop⟩ := hex
    refine ⟨(s + n - slot) % n, Nat.mod_lt _ (by omega), ?_⟩
    rw [Nat.add_mod_mod, show slot + (s + n - slot) = s + n by omega, Nat.add_mod_right,
      Nat.mod_eq_of_lt hs]
    exact hstop
  classical
  obtain ⟨hlt, hstop⟩ := Nat.find_spec hreach
  have hbefore : ∀ e, e < Nat.find hreach → stop ((slot + e) % n) = false := by
    intro e he
    have hmin := Nat.find_min hreach he
    rw [not_and] at hmin
    simpa using hmin (by omega)
  exact ⟨Nat.find hreach, hlt,
    iterateUntil_eq_some hnext stop n _ slot hslot hlt hstop hbefore, hstop, hbefore⟩

end Circular

/-- `homes` lists the home slots of entries `0, 1, …` in order. -/
structure Probed (table homes : List Nat) : Prop where
  homes_lt : ∀ h ∈ homes, h < table.length
  occupied : table.countP (· != 0) = homes.length
  range : ∀ s, table.getD s 0 ≤ homes.length
  placed : ∀ k h, homes[k]? = some h → ∃ d, d < table.length ∧
    table.getD ((h + d) % table.length) 0 = k + 1 ∧
    ∀ e, e < d → table.getD ((h + e) % table.length) 0 ≠ 0

theorem probed_replicate (n : Nat) : Probed (replicate n 0) [] where
  homes_lt := by simp
  occupied := by simp [countP_replicate]
  range := by
    intro s
    rw [getD_eq_getElem?_getD, getElem?_replicate]
    split <;> simp
  placed := by simp

namespace Probed

variable {table homes : List Nat}

theorem exists_free (h : Probed table homes) (hroom : homes.length < table.length) :
    ∃ s, s < table.length ∧ table.getD s 0 = 0 := by
  by_contra hnone
  have hall : ∀ v ∈ table, (v != 0) = true := by
    intro v hv
    obtain ⟨s, hs, rfl⟩ := mem_iff_getElem.mp hv
    have hcell : table.getD s 0 ≠ 0 := fun hz => hnone ⟨s, hs, hz⟩
    simpa [getD_eq_getElem?_getD, getElem?_eq_getElem hs] using hcell
  have hfull := countP_eq_length.mpr hall
  rw [h.occupied] at hfull
  omega

/-- Storing a new entry at the first free slot from its home keeps the invariant. -/
theorem insert (h : Probed table homes) (home d : Nat) (hhome : home < table.length)
    (hfree : table.getD ((home + d) % table.length) 0 = 0)
    (hfull : ∀ e, e < d → table.getD ((home + e) % table.length) 0 ≠ 0) (hd : d < table.length) :
    Probed (table.set ((home + d) % table.length) (homes.length + 1)) (homes ++ [home]) := by
  have hslot : (home + d) % table.length < table.length := Nat.mod_lt _ (by omega)
  generalize hs : (home + d) % table.length = slot at *
  have hcell : ∀ s, (table.set slot (homes.length + 1)).getD s 0 =
      if s = slot then homes.length + 1 else table.getD s 0 := by
    intro s
    rw [getD_eq_getElem?_getD, getElem?_set]
    split
    · rename_i heq
      subst heq
      simp
    · rename_i hne
      rw [if_neg (fun e => hne e.symm), getD_eq_getElem?_getD]
  have hkeep : ∀ s, table.getD s 0 ≠ 0 →
      (table.set slot (homes.length + 1)).getD s 0 = table.getD s 0 := by
    intro s hne
    rw [hcell, if_neg (by rintro rfl; exact hne hfree)]
  refine ⟨?_, ?_, ?_, ?_⟩
  · intro x hx
    rw [length_set]
    rcases mem_append.mp hx with hx | hx
    · exact h.homes_lt x hx
    · simp only [mem_singleton] at hx
      exact hx ▸ hhome
  · have hold : table[slot] = 0 := by
      simpa [getD_eq_getElem?_getD, getElem?_eq_getElem hslot] using hfree
    rw [countP_set hslot, hold, h.occupied]
    simp
  · intro s
    rw [hcell, length_append, length_singleton]
    split
    · exact le_rfl
    · exact Nat.le_succ_of_le (h.range s)
  · intro k x hk
    rw [length_set]
    by_cases hlast : k < homes.length
    · rw [getElem?_append_left hlast] at hk
      obtain ⟨dk, hdk, hat, hbefore⟩ := h.placed k x hk
      refine ⟨dk, hdk, ?_, ?_⟩
      · rw [hkeep _ (by rw [hat]; omega), hat]
      · intro e he
        rw [hkeep _ (hbefore e he)]
        exact hbefore e he
    · rw [getElem?_append_right (by omega)] at hk
      obtain ⟨hk0, rfl⟩ : k = homes.length ∧ home = x := by
        have hidx : k - homes.length = 0 := by
          by_contra hne
          rw [getElem?_eq_none (by simp; omega)] at hk
          cases hk
        rw [hidx] at hk
        exact ⟨by omega, by simpa using hk⟩
      refine ⟨d, hd, ?_, ?_⟩
      · rw [hs, hcell, if_pos rfl, hk0]
      · intro e he
        rw [hkeep _ (hfull e he)]
        exact hfull e he

section Search

variable {next : Nat → Nat} (hnext : ∀ s, s < table.length → next s = (s + 1) % table.length)
include hnext

variable {home : Nat}

/-- A search for an entry that is present ends at that entry: the cells before
it on its probe sequence are occupied, and only it matches. -/
theorem search_hit (h : Probed table homes) (isMatch : Nat → Bool) {k : Nat}
    (hk : homes[k]? = some home) (hmatch : isMatch k = true)
    (hunique : ∀ j, j < homes.length → isMatch j = true → j = k) :
    ∃ slot, iterateUntil next (fun s => table.getD s 0 == 0 || isMatch (table.getD s 0 - 1))
        table.length home = some slot ∧ table.getD slot 0 = k + 1 := by
  obtain ⟨d, hd, hat, hbefore⟩ := h.placed k home hk
  have hhome := h.homes_lt home (mem_of_getElem? hk)
  obtain ⟨d', hd', hrun, hstop, hnot⟩ := iterateUntil_of_exists hnext
    (fun s => table.getD s 0 == 0 || isMatch (table.getD s 0 - 1)) home hhome
    ⟨(home + d) % table.length, Nat.mod_lt _ (by omega), by rw [hat]; simp [hmatch]⟩
  refine ⟨_, hrun, ?_⟩
  -- the walk cannot pass the entry, and every cell before the entry is occupied
  have hle : d' ≤ d := by
    by_contra hgt
    have hpassed := hnot d (by omega)
    rw [hat] at hpassed
    simp [hmatch] at hpassed
  have hocc : table.getD ((home + d') % table.length) 0 ≠ 0 := by
    rcases lt_or_ge d' d with hlt | hge
    · exact hbefore d' hlt
    · rw [show d' = d by omega, hat]
      omega
  have hhit : isMatch (table.getD ((home + d') % table.length) 0 - 1) = true := by
    simp only [Bool.or_eq_true, beq_iff_eq] at hstop
    exact hstop.resolve_left hocc
  have hrange := h.range ((home + d') % table.length)
  have hentry := hunique _ (by omega) hhit
  omega

/-- A search for an entry that is absent ends at a free slot. -/
theorem search_miss (h : Probed table homes) (isMatch : Nat → Bool) (hhome : home < table.length)
    (hroom : homes.length < table.length) (habsent : ∀ j, j < homes.length → isMatch j = false) :
    ∃ slot, iterateUntil next (fun s => table.getD s 0 == 0 || isMatch (table.getD s 0 - 1))
        table.length home = some slot ∧ table.getD slot 0 = 0 := by
  obtain ⟨s, hs, hfree⟩ := h.exists_free hroom
  obtain ⟨d, hd, hrun, hstop, -⟩ := iterateUntil_of_exists hnext
    (fun s => table.getD s 0 == 0 || isMatch (table.getD s 0 - 1)) home hhome
    ⟨s, hs, by rw [hfree]; rfl⟩
  refine ⟨_, hrun, ?_⟩
  by_contra hocc
  have hrange := h.range ((home + d) % table.length)
  have hno := habsent (table.getD ((home + d) % table.length) 0 - 1) (by omega)
  simp only [hno, Bool.or_false, beq_iff_eq] at hstop
  exact hocc hstop

/-- Placing an entry ends at a free slot and keeps the invariant. -/
theorem place (h : Probed table homes) (hhome : home < table.length)
    (hroom : homes.length < table.length) :
    ∃ slot, iterateUntil next (fun s => table.getD s 0 == 0) table.length home = some slot ∧
      Probed (table.set slot (homes.length + 1)) (homes ++ [home]) := by
  obtain ⟨s, hs, hfree⟩ := h.exists_free hroom
  obtain ⟨d, hd, hrun, hstop, hnot⟩ := iterateUntil_of_exists hnext
    (fun s => table.getD s 0 == 0) home hhome ⟨s, hs, by rw [hfree]; rfl⟩
  exact ⟨_, hrun, h.insert home d hhome (by simpa using hstop)
    (fun e he => by simpa using hnot e he) hd⟩

end Search

end Probed

end Liric.Lib
