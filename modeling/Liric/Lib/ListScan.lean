import Liric.Lib.StateTriple
import Mathlib.Data.List.Basic

/-!
# Lists that a parser reads into arrays of a fixed length

A scan steps over a text and finds the length of the longest list in it. A parser agrees with a
scan if it ends at the same place of the text where all lists fit, and has no result elsewhere.
-/
namespace Liric.Lib

variable {τ : Type}

/-- The tokens behind a text, and the length of the longest list in it. -/
abbrev Scan (τ : Type) := List τ → List τ × Nat

namespace Scan

def skip : Scan τ := fun toks => (toks, 0)

/-- The end of a list of length `n`. -/
def count (n : Nat) : Scan τ := fun toks => (toks, n)

def seq (s t : Scan τ) : Scan τ := fun toks =>
  ((t (s toks).1).1, max (s toks).2 (t (s toks).1).2)

/-- `s` behind a token with `c`, else `t`. -/
def onTok (c : τ → Bool) (s t : Scan τ) : Scan τ
  | x :: rest => if c x then s rest else t (x :: rest)
  | [] => t []

/-- As `onTok`, but the token stays. -/
def peek (c : τ → Bool) (s t : Scan τ) : Scan τ
  | x :: rest => if c x then s (x :: rest) else t (x :: rest)
  | [] => t []

def withFuel (s : Nat → Scan τ) : Scan τ := fun toks => s (toks.length + 1) toks

/-- The elements of a list behind the first `n`, each behind a separator. A `stop` behind a
separator ends the list. -/
def more (sep stop : τ → Bool) (elem : Scan τ) : Nat → Nat → Scan τ
  | 0, n => count n
  | fuel + 1, n =>
    onTok sep (onTok stop (count n) (seq elem (more sep stop elem fuel (n + 1)))) (count n)

@[simp] theorem onTok_never (s t : Scan τ) : onTok (fun _ => false) s t = t := by
  funext toks
  cases toks with
  | nil => rfl
  | cons x rest => rfl

theorem le_more (sep stop : τ → Bool) (elem : Scan τ) (fuel n : Nat) (toks : List τ) :
    n ≤ (more sep stop elem fuel n toks).2 := by
  induction fuel generalizing n toks with
  | zero => exact Nat.le_refl n
  | succ fuel ih =>
    rw [more]
    cases toks with
    | nil => exact Nat.le_refl n
    | cons x rest =>
      rw [onTok]
      split
      · cases rest with
        | nil => exact Nat.le_trans (Nat.le_of_succ_le (ih (n + 1) _)) (Nat.le_max_right _ _)
        | cons y rest =>
          simp only [onTok]
          split
          · exact Nat.le_refl n
          · exact Nat.le_trans (Nat.le_of_succ_le (ih (n + 1) _)) (Nat.le_max_right _ _)
      · exact Nat.le_refl n

end Scan

section Agreement
variable {σ α β : Type} (toks : σ → List τ) (cap : Nat)

/-- From `p` the computation ends where `s` does if all lists fit, and has no result otherwise. -/
def AgreesAt (p : σ) (x : StateT σ Option α) (s : Scan τ) : Prop :=
  ((s (toks p)).2 ≤ cap → ∃ a q, x p = some (a, q) ∧ toks q = (s (toks p)).1 ∧
    (toks q).length ≤ (toks p).length) ∧
  (¬ (s (toks p)).2 ≤ cap → x p = none)

/-- Agreement on texts of less than `n` tokens. -/
def Agrees (n : Nat) (x : StateT σ Option α) (s : Scan τ) : Prop :=
  ∀ p, (toks p).length < n → AgreesAt toks cap p x s

variable {toks cap}

theorem AgreesAt.congr {p : σ} {x y : StateT σ Option α} {s t : Scan τ}
    (h : AgreesAt toks cap p y t) (hx : x p = y p) (hs : s (toks p) = t (toks p)) :
    AgreesAt toks cap p x s := by
  rw [AgreesAt, hs, hx]
  exact h

/-- A computation that keeps the text and reads no list. -/
theorem AgreesAt.skip {p : σ} {x : StateT σ Option α}
    (h : ∃ a q, x p = some (a, q) ∧ toks q = toks p) : AgreesAt toks cap p x Scan.skip := by
  obtain ⟨a, q, hrun, hq⟩ := h
  exact ⟨fun _ => ⟨a, q, hrun, hq, Nat.le_of_eq (congrArg _ hq)⟩,
    fun hlong => absurd (Nat.zero_le cap) hlong⟩

namespace Agrees
variable {n : Nat}

theorem mono {m : Nat} {x : StateT σ Option α} {s : Scan τ} (h : Agrees toks cap n x s)
    (hle : m ≤ n) : Agrees toks cap m x s :=
  fun p hp => h p (Nat.lt_of_lt_of_le hp hle)

theorem skip {x : StateT σ Option α} (h : ∀ p, ∃ a q, x p = some (a, q) ∧ toks q = toks p) :
    Agrees toks cap n x Scan.skip :=
  fun p _ => AgreesAt.skip (h p)

theorem pure (a : α) : Agrees toks cap n (Pure.pure a : StateT σ Option α) Scan.skip :=
  skip fun p => ⟨a, p, rfl, rfl⟩

/-- The end of a list that fits. -/
theorem count {len : Nat} (a : α) (h : len ≤ cap) :
    Agrees toks cap n (Pure.pure a : StateT σ Option α) (Scan.count len) :=
  fun p _ => ⟨fun _ => ⟨a, p, rfl, rfl, Nat.le_refl _⟩, fun hlong => absurd h hlong⟩

variable {f : α → StateT σ Option β}

theorem bind {x : StateT σ Option α} {s t : Scan τ}
    (hx : Agrees toks cap n x s) (hf : ∀ a, Agrees toks cap n (f a) t) :
    Agrees toks cap n (x >>= f) (s.seq t) := by
  intro p hp
  by_cases hs : (s (toks p)).2 ≤ cap
  · obtain ⟨a, q, hrun, hq, hshort⟩ := (hx p hp).1 hs
    have hrest := hf a q (Nat.lt_of_le_of_lt hshort hp)
    rw [AgreesAt, hq] at hrest
    constructor
    · intro hmax
      obtain ⟨b, r, hrun', hr, hshort'⟩ := hrest.1 (Nat.le_trans (Nat.le_max_right _ _) hmax)
      rw [hq] at hshort
      exact ⟨b, r, (run_bind hrun).trans hrun', hr, Nat.le_trans hshort' hshort⟩
    · intro hmax
      have ht : ¬ (t (s (toks p)).1).2 ≤ cap := fun ht => hmax (Nat.max_le.2 ⟨hs, ht⟩)
      exact (run_bind hrun).trans (hrest.2 ht)
  · constructor
    · intro hmax
      exact absurd (Nat.le_trans (Nat.le_max_left _ _) hmax) hs
    · intro _
      simp [Bind.bind, StateT.bind, (hx p hp).2 hs]

/-- An element of a list of length `len`: the list is at an end if it does not fit. -/
theorem element {x : StateT σ Option α} {s t : Scan τ} {len : Nat}
    (hx : Agrees toks cap n x s) (hlen : ∀ text, len < (t text).2)
    (hin : len < cap → ∀ a, Agrees toks cap n (f a) t) (hout : ¬ len < cap → ∀ a p, f a p = none) :
    Agrees toks cap n (x >>= f) (s.seq t) := by
  by_cases h : len < cap
  · exact bind hx (hin h)
  · intro p hp
    have hlong : ¬ ((s.seq t) (toks p)).2 ≤ cap := by
      intro hmax
      have ht : (t (s (toks p)).1).2 ≤ cap := Nat.le_trans (Nat.le_max_right _ _) hmax
      exact h (Nat.lt_of_lt_of_le (hlen _) ht)
    refine ⟨fun hmax => absurd hmax hlong, fun _ => ?_⟩
    by_cases hs : (s (toks p)).2 ≤ cap
    · obtain ⟨a, q, hrun, -, -⟩ := (hx p hp).1 hs
      exact (run_bind hrun).trans (hout h a q)
    · simp [Bind.bind, StateT.bind, (hx p hp).2 hs]

/-- A loop whose fuel is the length of the text. -/
theorem withFuel {loop : Nat → StateT σ Option α} {s : Nat → Scan τ}
    (h : ∀ fuel ≤ n, Agrees toks cap fuel (loop fuel) (s fuel)) :
    Agrees toks cap n (fun p => loop ((toks p).length + 1) p) (Scan.withFuel s) :=
  fun p hp => h _ hp p (Nat.lt_succ_self _)

/-- Behind its first token `x` continues as `y`. -/
theorem behind {x : StateT σ Option α} {y : StateT σ Option α} {s t : Scan τ} {p q : σ} {tok : τ}
    (hp : (toks p).length < n + 1) (htoks : toks p = tok :: toks q)
    (hx : x p = y q) (ht : t (tok :: toks q) = s (toks q)) (h : Agrees toks cap n y s) :
    AgreesAt toks cap p x t := by
  have hq : (toks q).length < n := by
    rw [htoks] at hp
    exact Nat.lt_of_succ_lt_succ hp
  have hrest := h q hq
  rw [AgreesAt, htoks, ht, hx]
  refine ⟨fun hfits => ?_, hrest.2⟩
  obtain ⟨a, r, hrun, hr, hshort⟩ := hrest.1 hfits
  exact ⟨a, r, hrun, hr, Nat.le_succ_of_le hshort⟩

/-- No token with `c` is in front. -/
def Misses (c : τ → Bool) (text : List τ) : Prop := ∀ x ∈ text.head?, c x = false

variable {c : τ → Bool} {x y z : StateT σ Option α} {s t : Scan τ}

theorem peek (hhit : ∀ p tok rest, toks p = tok :: rest → c tok = true → x p = y p)
    (hmiss : ∀ p, Misses c (toks p) → x p = z p)
    (hs : Agrees toks cap n y s) (ht : Agrees toks cap n z t) :
    Agrees toks cap n x (Scan.peek c s t) := by
  intro p hp
  by_cases h : Misses c (toks p)
  · have hother : Scan.peek c s t (toks p) = t (toks p) := by
      cases htoks : toks p with
      | nil => rfl
      | cons tok rest => simp [Scan.peek, h tok (by rw [htoks]; rfl)]
    exact (ht p hp).congr (hmiss p h) hother
  · cases htoks : toks p with
    | nil => exact absurd (by simp [Misses, htoks]) h
    | cons tok rest =>
      have hc : c tok = true := by simpa [Misses, htoks] using h
      have hthis : Scan.peek c s t (toks p) = s (toks p) := by
        rw [htoks]
        simp [Scan.peek, hc]
      exact (hs p hp).congr (hhit p tok rest htoks hc) hthis

end Agrees

end Agreement

end Liric.Lib
