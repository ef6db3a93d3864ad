import Mathlib.Data.List.Nodup

/-!
# Moves made one after the other

Each move copies a register or a constant into a register of its own, a constant on
its way perhaps through a further register. All moves together are meant to act at
once. They do exactly if no move reads a register in which an earlier one has left
another value.
-/
namespace Liric.Lib
open List Function

variable {R V : Type}

/-- `conv` is what a value becomes on the way. -/
structure SeqMove (R V : Type) where
  dst : R
  src : R ⊕ V
  conv : V → V
  via : Option R := none

namespace SeqMove
variable [DecidableEq R]

/-- What a move writes: nothing if the value is where it should be. -/
def writes (m : SeqMove R V) (σ : R → V) : List (R × V) :=
  match m.src with
  | .inl r => if r = m.dst then [] else [(m.dst, m.conv (σ r))]
  | .inr v => (m.via.map fun t => (t, v)).toList ++ [(m.dst, m.conv v)]

def store (σ : R → V) (ws : List (R × V)) : R → V := ws.foldl (fun σ w => update σ w.1 w.2) σ

def run (m : SeqMove R V) (σ : R → V) : R → V := store σ (m.writes σ)

def runAll (ms : List (SeqMove R V)) (σ : R → V) : R → V := ms.foldl (fun σ m => m.run σ) σ

/-- The value that the move is meant to bring. -/
def value (m : SeqMove R V) (σ : R → V) : V :=
  match m.src with
  | .inl r => m.conv (σ r)
  | .inr v => m.conv v

/-- From `σ` on: the moves read no register in which an earlier one has left another
value. `τ` has what the earlier ones are meant to leave. -/
def Clear (σ : R → V) : (R → V) → List (SeqMove R V) → Prop
  | _, [] => True
  | τ, m :: ms => m.value τ = m.value σ ∧ Clear σ (store τ (m.writes σ)) ms

/-- The destinations are different, and no later move goes through one. -/
def Apart (ms : List (SeqMove R V)) : Prop :=
  (ms.map fun m => m.dst).Nodup ∧ ∀ m ∈ ms, ∀ m' ∈ ms, m'.via ≠ some m.dst

variable {ms : List (SeqMove R V)} {m : SeqMove R V}

omit [DecidableEq R] in
theorem Apart.tail (h : Apart (m :: ms)) : Apart ms :=
  ⟨(nodup_cons.1 h.1).2, fun a ha b hb =>
    h.2 a (mem_cons_of_mem m ha) b (mem_cons_of_mem m hb)⟩

/-- A move writes its destination and the register on the way. -/
theorem run_of_ne (m : SeqMove R V) (σ : R → V) {r : R} (hdst : r ≠ m.dst)
    (hvia : m.via ≠ some r) : m.run σ r = σ r := by
  unfold run writes
  cases m.src with
  | inl s =>
    simp only
    split
    · rfl
    · exact update_of_ne hdst _ σ
  | inr v =>
    cases hv : m.via with
    | none => exact update_of_ne hdst _ σ
    | some t =>
      have hne : r ≠ t := fun heq => hvia (by rw [hv, heq])
      change update (update σ t v) m.dst (m.conv v) r = σ r
      rw [update_of_ne hdst, update_of_ne hne]

theorem runAll_of_ne (σ : R → V) {r : R}
    (hdst : ∀ m ∈ ms, r ≠ m.dst) (hvia : ∀ m ∈ ms, m.via ≠ some r) :
    runAll ms σ r = σ r := by
  induction ms generalizing σ with
  | nil => rfl
  | cons m ms ih =>
    have hrest := ih (m.run σ) (fun a ha => hdst a (mem_cons_of_mem m ha))
      fun a ha => hvia a (mem_cons_of_mem m ha)
    exact hrest.trans (run_of_ne m σ (hdst m mem_cons_self) (hvia m mem_cons_self))

/-- What a move brings when it is its turn. -/
theorem conv_run (m : SeqMove R V) (σ : R → V) (hconv : ∀ v, m.conv (m.conv v) = m.conv v) :
    m.conv (m.run σ m.dst) = m.value σ := by
  unfold run writes value
  cases m.src with
  | inl s =>
    simp only
    split
    · next heq => rw [heq]; rfl
    · change m.conv (update σ m.dst (m.conv (σ s)) m.dst) = _
      rw [update_self, hconv]
  | inr v =>
    cases m.via with
    | none =>
      change m.conv (update σ m.dst (m.conv v) m.dst) = _
      rw [update_self, hconv]
    | some t =>
      change m.conv (update (update σ t v) m.dst (m.conv v) m.dst) = _
      rw [update_self, hconv]

/-- If the head brings the value it is meant to, what it writes is what it is meant to
write. -/
theorem writes_of_value {σ τ : R → V} (h : m.value τ = m.value σ) : m.writes τ = m.writes σ := by
  unfold writes
  unfold value at h
  cases hsrc : m.src with
  | inl s =>
    rw [hsrc] at h
    simp only at h ⊢
    rw [h]
  | inr v => rfl

/-- A constant is brought whatever the other moves do. -/
theorem const_brought (h : Apart ms) (hm : m ∈ ms)
    {v : V} (hsrc : m.src = .inr v) (hconv : ∀ v, m.conv (m.conv v) = m.conv v) (τ : R → V) :
    m.conv (runAll ms τ m.dst) = m.conv v := by
  induction ms generalizing τ with
  | nil => cases hm
  | cons a ms ih =>
    obtain rfl | hm := mem_cons.1 hm
    · have hdst : ∀ a ∈ ms, m.dst ≠ a.dst := fun a ha heq =>
        (nodup_cons.1 h.1).1 (mem_map.2 ⟨a, ha, heq.symm⟩)
      have hkept : runAll (m :: ms) τ m.dst = m.run τ m.dst := runAll_of_ne _ hdst fun a ha =>
        h.2 m mem_cons_self a (mem_cons_of_mem m ha)
      rw [hkept, conv_run m τ hconv, value, hsrc]
    · exact ih h.tail hm (a.run τ)

/-- Registers that hold the same go on doing so. -/
theorem run_congr {T : R → Prop} {σ τ : R → V} (hsrc : ∀ r, m.src = .inl r → T r)
    (h : ∀ r, T r → σ r = τ r) : ∀ r, T r → m.run σ r = m.run τ r := by
  have hwrites : m.writes σ = m.writes τ := by
    unfold writes
    cases hs : m.src with
    | inl s =>
      simp only
      rw [h s (hsrc s hs)]
    | inr v => rfl
  unfold run
  rw [hwrites]
  clear hwrites
  generalize m.writes τ = ws
  induction ws generalizing σ τ with
  | nil => exact h
  | cons w ws ih =>
    refine ih fun r hr => ?_
    change update σ w.1 w.2 r = update τ w.1 w.2 r
    by_cases hrw : r = w.1
    · rw [hrw, update_self, update_self]
    · rw [update_of_ne hrw, update_of_ne hrw]
      exact h r hr

/-- All moves bring the values they are meant to exactly if the moves are clear. -/
theorem all_brought_iff (h : Apart ms)
    (hconv : ∀ m ∈ ms, ∀ v, m.conv (m.conv v) = m.conv v) (σ τ : R → V) :
    (∀ m ∈ ms, m.conv (runAll ms τ m.dst) = m.value σ) ↔ Clear σ τ ms := by
  induction ms generalizing τ with
  | nil => exact iff_of_true nofun trivial
  | cons m ms ih =>
    have hdst : ∀ a ∈ ms, m.dst ≠ a.dst := fun a ha heq =>
      (nodup_cons.1 h.1).1 (mem_map.2 ⟨a, ha, heq.symm⟩)
    have hvia : ∀ a ∈ ms, a.via ≠ some m.dst := fun a ha =>
      h.2 m mem_cons_self a (mem_cons_of_mem m ha)
    have hhead : m.conv (runAll (m :: ms) τ m.dst) = m.value τ := by
      have hkept : runAll (m :: ms) τ m.dst = m.run τ m.dst := runAll_of_ne _ hdst hvia
      rw [hkept, conv_run m τ (hconv m mem_cons_self)]
    have hrest := ih h.tail (fun a ha => hconv a (mem_cons_of_mem m ha)) (m.run τ)
    rw [forall_mem_cons, hhead, Clear]
    refine and_congr_right fun hvalue => ?_
    rw [← writes_of_value hvalue]
    exact hrest

end SeqMove
end Liric.Lib
