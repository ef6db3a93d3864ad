import Mathlib.Data.List.Induction

/-!
# Hash indexes with chains

An index is built from a list of entries: each goes in front of the chain of its bucket. A
search walks the chain of the bucket of a key and looks at the entries that have the key. It
meets exactly the entries of the list with that key, whatever the hash is, the last first.
-/
namespace Liric.Lib

variable {K E : Type}

/-- The chain of each bucket. -/
def chained (hash : K → Nat) (key : E → K) (entries : List E) : Nat → List E :=
  entries.foldl (fun chains e => fun b => if b = hash (key e) then e :: chains b else chains b)
    fun _ => []

theorem chained_append_singleton (hash : K → Nat) (key : E → K) (entries : List E) (e : E)
    (b : Nat) : chained hash key (entries ++ [e]) b =
      if b = hash (key e) then e :: chained hash key entries b else chained hash key entries b := by
  rw [chained, List.foldl_append]
  rfl

/-- A chain has the entries of its bucket, the last first. -/
theorem chained_eq_filter (hash : K → Nat) (key : E → K) (entries : List E) (b : Nat) :
    chained hash key entries b = entries.reverse.filter fun e => b == hash (key e) := by
  induction entries using List.reverseRecOn with
  | nil => rfl
  | append_singleton entries e ih =>
    rw [chained_append_singleton, ih, List.reverse_append]
    by_cases h : b = hash (key e) <;> simp [h]

/-- What a search for a key meets. -/
theorem any_chained [DecidableEq K] (hash : K → Nat) (key : E → K) (entries : List E) (k : K) (p : E → Bool) :
    ((chained hash key entries (hash k)).any fun e => key e == k && p e) =
      entries.any fun e => key e == k && p e := by
  rw [Bool.eq_iff_iff, chained_eq_filter]
  simp only [List.any_eq_true, List.mem_filter, List.mem_reverse, Bool.and_eq_true, beq_iff_eq]
  constructor
  · rintro ⟨e, ⟨he, -⟩, hkey, hp⟩
    exact ⟨e, he, hkey, hp⟩
  · rintro ⟨e, he, hkey, hp⟩
    exact ⟨e, ⟨he, by rw [hkey]⟩, hkey, hp⟩

end Liric.Lib
