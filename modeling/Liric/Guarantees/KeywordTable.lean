import Liric.Source.Ll.Lexer

/-!
# Keywords

The switch over the hash of a word finds the keywords of the table, and with the fast path the
names of the integer types. Every other word is the name of a local value.
-/
namespace Liric.Guarantees.KeywordTable
open Lib.HashSwitch
open Source.Ir (CStr)
open Source.Ll

/-- The names that are not in the table of `keywords`. -/
def integerNames : List (CStr × TokKind) :=
  [("i1", .tokI1), ("i8", .tokI8), ("i16", .tokI16), ("i32", .tokI32), ("i64", .tokI64)].map
    fun row => (spelled row.1, row.2)

theorem keywordCases_perfect : Perfect keywordHash keywordCases keywords := by decide +kernel

theorem keywordSwitch_eq (s : CStr) : keywordSwitch s = search keywords s :=
  dispatch_eq_search keywordCases_perfect s

/-- No word is empty or stands for the end of the text or a name. -/
theorem names_proper : ∀ entry ∈ keywords ++ integerNames, entry.1 ≠ [] ∧
    entry.2 ≠ .tokEof ∧ entry.2 ≠ .tokLocalId := by decide +kernel

theorem integerNames_eq : integerNames =
    [([105, 49], .tokI1), ([105, 56], .tokI8), ([105, 49, 54], .tokI16), ([105, 51, 50], .tokI32),
      ([105, 54, 52], .tokI64)] := by decide

/-- The fast path is a search of the five names. -/
theorem lookupInteger_eq (s : CStr) : lookupInteger s = search integerNames s := by
  rw [integerNames_eq]
  unfold lookupInteger
  split
  · next a =>
    by_cases hone : a = 49
    · simp [search, hone]
    · by_cases height : a = 56
      · simp [search, height]
      · simp [search, hone, height, Ne.symm hone, Ne.symm height]
  · next a b =>
    by_cases hsixteen : a = 49 ∧ b = 54
    · simp [search, hsixteen]
    · by_cases hthirty : a = 51 ∧ b = 50
      · simp [search, hthirty]
      · by_cases hsixty : a = 54 ∧ b = 52
        · simp [search, hsixty]
        · rw [if_neg hsixteen, if_neg hthirty, if_neg hsixty]
          symm
          rw [search_eq_none]
          intro entry hmem hentry
          simp only [List.mem_cons, List.not_mem_nil, or_false] at hmem
          rcases hmem with rfl | rfl | rfl | rfl | rfl <;> simp at hentry <;> grind
  · next htwo hthree =>
    symm
    rw [search_eq_none]
    rintro entry hmem rfl
    simp only [List.mem_cons, List.not_mem_nil, or_false] at hmem
    rcases hmem with rfl | rfl | rfl | rfl | rfl <;> simp at htwo hthree

/-- No name of an integer type is a keyword of the table too. -/
theorem names_apart : ∀ name ∈ integerNames, ∀ entry ∈ keywords, entry.1 ≠ name.1 := by
  decide +kernel

theorem search_swap (s : CStr) :
    (search integerNames s).or (search keywords s) = search (keywords ++ integerNames) s := by
  rw [search_append]
  cases hname : search integerNames s with
  | none => cases search keywords s <;> rfl
  | some kind =>
    have hnone : search keywords s = none := by
      rw [search_eq_none]
      exact names_apart _ (mem_of_search hname)
    rw [hnone]
    rfl

/-- The switch returns what a search of the table and of the names of the integer types returns,
and the kind of a name exactly for the words that are in neither. -/
theorem keyword_dispatch (s : CStr) :
    lookupKeyword s = (search (keywords ++ integerNames) s).getD .tokEof ∧
      identKind s = (search (keywords ++ integerNames) s).getD .tokLocalId ∧
      (identKind s = .tokLocalId ↔ ∀ entry ∈ keywords ++ integerNames, entry.1 ≠ s) := by
  have hlookup : lookupKeyword s = (search (keywords ++ integerNames) s).getD .tokEof := by
    unfold lookupKeyword
    split
    · next hempty =>
      have hnone : search (keywords ++ integerNames) s = none := by
        rw [search_eq_none, List.isEmpty_iff.1 hempty]
        exact fun entry hmem => (names_proper entry hmem).1
      rw [hnone]
      rfl
    · rw [lookupInteger_eq, keywordSwitch_eq, search_swap]
  have hident : identKind s = (search (keywords ++ integerNames) s).getD .tokLocalId := by
    unfold identKind
    rw [hlookup]
    cases hsearch : search (keywords ++ integerNames) s with
    | none => rfl
    | some kind => exact if_pos (names_proper _ (mem_of_search hsearch)).2.1
  refine ⟨hlookup, hident, ?_⟩
  rw [hident, ← search_eq_none]
  cases hsearch : search (keywords ++ integerNames) s with
  | none => simp
  | some kind => simpa using (names_proper _ (mem_of_search hsearch)).2.2

end Liric.Guarantees.KeywordTable
