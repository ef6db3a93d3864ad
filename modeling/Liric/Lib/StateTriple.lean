import Mathlib.Data.Nat.Notation

/-!
# Pre- and postconditions for state readers

`Triple P x Q`: from a state with `P` the computation `x` ends in a state that
satisfies `Q` of its result. `Frame R x`: if a computation that may have no result
has one, its final state is related to its initial one by `R`. One rule for each
way to build a computation.
-/
namespace Liric.Lib

universe u
variable {σ α β : Type u}

def Triple (P : σ → Prop) (x : StateM σ α) (Q : α → σ → Prop) : Prop :=
  ∀ s, P s → Q (x s).1 (x s).2

/-- `x` preserves `P`. -/
class Keeps (P : σ → Prop) (x : StateM σ α) : Prop where
  run : Triple P x fun _ => P

variable {a : α} {s : σ}

/-- A computation continues where its first part ended. -/
theorem bind_run {x : StateM σ α} {f : α → StateM σ β} {t : σ} (h : x s = (a, t)) :
    (x >>= f) s = f a t := by
  change (f (x s).1) (x s).2 = f a t
  rw [h]

variable {c : Prop}

namespace Triple

variable {P P' : σ → Prop} {Q Q' : α → σ → Prop}

theorem pure (h : ∀ s, P s → Q a s) : Triple P (Pure.pure a) Q := h

variable {R : β → σ → Prop}

theorem bind {x : StateM σ α} {f : α → StateM σ β} (hx : Triple P x Q)
    (hf : ∀ a, Triple (Q a) (f a) R) : Triple P (x >>= f) R := by
  intro s hs
  exact hf _ _ (hx s hs)

/-- `bind` where the first part establishes a fact about its result only. -/
theorem bindFact {p : α → Prop} {x : StateM σ α} {f : α → StateM σ β}
    (hx : Triple P x (fun a _ => p a)) (hf : ∀ a, p a → Triple (fun _ => True) (f a) R) :
    Triple P (x >>= f) R := by
  intro s hs
  exact hf _ (hx s hs) _ trivial

theorem weaken {x : StateM σ α} (h : Triple P x Q) (hpre : ∀ s, P' s → P s)
    (hpost : ∀ a s, Q a s → Q' a s) : Triple P' x Q' := by
  intro s hs
  exact hpost _ _ (h s (hpre s hs))

/-- A fact that does not depend on the state. -/
theorem assume {p : Prop} {x : StateM σ α} (h : p → Triple P x Q) :
    Triple (fun s => p ∧ P s) x Q := by
  intro s hs
  exact h hs.1 s hs.2

theorem ite [Decidable c] {x y : StateM σ α} (hx : c → Triple P x Q)
    (hy : ¬ c → Triple P y Q) : Triple P (if c then x else y) Q := by
  by_cases h : c
  · rw [if_pos h]
    exact hx h
  · rw [if_neg h]
    exact hy h

end Triple

namespace Keeps

variable {P : σ → Prop}

instance pure (a : α) : Keeps P (Pure.pure a : StateM σ α) := ⟨fun _ hs => hs⟩

instance bind {x : StateM σ α} {f : α → StateM σ β} [hx : Keeps P x] [hf : ∀ a, Keeps P (f a)] :
    Keeps P (x >>= f) := ⟨Triple.bind hx.run fun a => (hf a).run⟩

instance ite {c : Prop} [Decidable c] {x y : StateM σ α} [hx : Keeps P x] [hy : Keeps P y] :
    Keeps P (if c then x else y) := ⟨Triple.ite (fun _ => hx.run) fun _ => hy.run⟩

end Keeps

/-- Every result of `x` ends in a state that `R` relates to the initial one. -/
class Frame (R : σ → σ → Prop) (x : StateT σ Option α) : Prop where
  run : ∀ s a s', x s = some (a, s') → R s s'

variable {x : StateT σ Option α} {f : α → StateT σ Option β}

namespace Frame

variable {R : σ → σ → Prop}

theorem pure (hrefl : ∀ s, R s s) (a : α) : Frame R (Pure.pure a : StateT σ Option α) := by
  constructor
  intro s b s' h
  cases h
  exact hrefl s

theorem bind (htrans : ∀ s t u, R s t → R t u → R s u) (hx : Frame R x) (hf : ∀ a, Frame R (f a)) :
    Frame R (x >>= f) := by
  constructor
  intro s b s' h
  obtain ⟨⟨a, t⟩, hrun, hrest⟩ := Option.bind_eq_some_iff.mp h
  exact htrans _ _ _ (hx.run s a t hrun) ((hf a).run t b s' hrest)

instance ite {c : Prop} [Decidable c] {x y : StateT σ Option α} [hx : Frame R x]
    [hy : Frame R y] : Frame R (if c then x else y) := by
  split
  · exact hx
  · exact hy

end Frame

/-- `Frame` for computations that may also stop with an error and keep their state. -/
theorem Frame.bindExcept {ε : Type u} {R : σ → σ → Prop}
    (htrans : ∀ s t v, R s t → R t v → R s v) {x : ExceptT ε (StateT σ Option) α}
    {f : α → ExceptT ε (StateT σ Option) β} (hx : Frame R x.run) (hf : ∀ a, Frame R (f a).run) :
    Frame R (x >>= f).run := by
  constructor
  intro s b s' h
  obtain ⟨⟨r, t⟩, hrun, hrest⟩ := Option.bind_eq_some_iff.mp h
  have hfirst := hx.run s r t hrun
  cases r with
  | error e =>
    cases hrest
    exact hfirst
  | ok a => exact htrans _ _ _ hfirst ((hf a).run t b s' hrest)

/-- As `bind_run`, for a computation that may stop with an error. -/
theorem run_bindExcept {ε : Type u} {x : ExceptT ε (StateT σ Option) α}
    {f : α → ExceptT ε (StateT σ Option) β} {t : σ}
    (h : x s = some (.ok a, t)) : (x >>= f) s = f a t := by
  change (x s).bind (fun r => ExceptT.bindCont f r.1 r.2) = f a t
  rw [h]
  rfl

/-- As `bind_run`, for a computation that may have no result. -/
theorem run_bind {t : σ} (h : x s = some (a, t)) : (x >>= f) s = f a t := by
  simp only [bind, StateT.bind, h, Option.bind]

/-- The two parts of a computation that has a result. -/
theorem run_bind_inv {s' : σ} {b : β}
    (h : (x >>= f) s = some (b, s')) : ∃ a t, x s = some (a, t) ∧ f a t = some (b, s') := by
  obtain ⟨⟨a, t⟩, hrun, hrest⟩ := Option.bind_eq_some_iff.mp h
  exact ⟨a, t, hrun, hrest⟩

/-- From a state with `P`, every result of `x` and its final state satisfy `Q`. -/
def Partial (P : σ → Prop) (x : StateT σ Option α) (Q : α → σ → Prop) : Prop :=
  ∀ s a s', P s → x s = some (a, s') → Q a s'

variable {y : StateT σ Option α}

namespace Partial

variable {P : σ → Prop} {Q : α → σ → Prop} {R : β → σ → Prop}

theorem pure (h : ∀ s, P s → Q a s) : Partial P (Pure.pure a) Q := by
  intro s b s' hs hrun
  cases hrun
  exact h s hs

theorem bind (hx : Partial P x Q) (hf : ∀ a, Partial (Q a) (f a) R) : Partial P (x >>= f) R := by
  intro s b s' hs hrun
  obtain ⟨a, t, hfirst, hrest⟩ := run_bind_inv hrun
  exact hf a t b s' (hx s a t hs hfirst) hrest

theorem ite [Decidable c] (hx : Partial P x Q)
    (hy : Partial P y Q) : Partial P (if c then x else y) Q := by
  by_cases h : c
  · rw [if_pos h]
    exact hx
  · rw [if_neg h]
    exact hy

theorem get {Q : σ → σ → Prop} (h : ∀ s, P s → Q s s) :
    Partial P (MonadState.get : StateT σ Option σ) Q := by
  intro s a s' hs hrun
  cases hrun
  exact h s hs

/-- A computation without results. -/
theorem fail : Partial P (fun _ => none : StateT σ Option α) Q := by
  intro s a s' _ hrun
  cases hrun

/-- A fact that does not depend on the state. -/
theorem assume {p : Prop} (h : p → Partial P x Q) :
    Partial (fun s => p ∧ P s) x Q :=
  fun s a s' hs hrun => h hs.1 s a s' hs.2 hrun

end Partial

/-- `x` preserves `P` wherever it has a result. -/
class Stays (P : σ → Prop) (x : StateT σ Option α) : Prop where
  run : Partial P x fun _ => P

namespace Stays

variable {P : σ → Prop}

instance pure (a : α) : Stays P (Pure.pure a : StateT σ Option α) := ⟨Partial.pure fun _ hs => hs⟩

theorem bind (hx : Stays P x)
    (hf : ∀ a, Stays P (f a)) : Stays P (x >>= f) := ⟨Partial.bind hx.run fun a => (hf a).run⟩

theorem ite [Decidable c] (hx : Stays P x)
    (hy : Stays P y) : Stays P (if c then x else y) := ⟨Partial.ite hx.run hy.run⟩

instance get : Stays P (MonadState.get : StateT σ Option σ) := ⟨Partial.get fun _ hs => hs⟩

instance bind_steps {x : StateT σ Option α} {f : α → StateT σ Option β} [hx : Stays P x]
    [hf : ∀ a, Stays P (f a)] : Stays P (x >>= f) := bind hx hf

instance ite_steps {c : Prop} [Decidable c] {x y : StateT σ Option α} [hx : Stays P x]
    [hy : Stays P y] : Stays P (if c then x else y) := ite hx hy

end Stays

theorem stays_modify {σ : Type} {P : σ → Prop} {f : σ → σ} (h : ∀ s, P s → P (f s)) :
    Stays P (modify f : StateT σ Option PUnit) := by
  constructor
  intro s a s' hs hrun
  cases hrun
  exact h s hs

/-- A computation without results preserves anything. -/
instance stays_fail {P : σ → Prop} : Stays P (fun _ => none : StateT σ Option α) := ⟨Partial.fail⟩

/-- From a state with `P` either the three computations do the same, or the third has no result and
the first can only end in a state with `B`. -/
def Forks (P B : σ → Prop) (x y z : StateT σ Option α) : Prop :=
  ∀ s, P s → (x s = y s ∧ x s = z s) ∨ (z s = none ∧ ∀ a t, x s = some (a, t) → B t)

namespace Forks

variable {P B : σ → Prop}

theorem refl (x : StateT σ Option α) : Forks P B x x x := fun _ _ => Or.inl ⟨rfl, rfl⟩

theorem stop (hx : Partial P x fun _ => B) :
    Forks P B x y fun _ => none :=
  fun s hs => Or.inr ⟨rfl, fun a t hrun => hx s a t hs hrun⟩

variable {g h : α → StateT σ Option β} {z : StateT σ Option α}

theorem bind
    (hx : Forks P B x y z) [hstays : Stays P x] (hf : ∀ a, Forks P B (f a) (g a) (h a))
    [hbad : ∀ a, Stays B (f a)] : Forks P B (x >>= f) (y >>= g) (z >>= h) := by
  intro s hs
  rcases hx s hs with ⟨hsecond, hthird⟩ | ⟨hnone, hend⟩
  · cases hrun : x s with
    | none =>
      have hfails : ∀ {w : StateT σ Option α} {k : α → StateT σ Option β}, x s = w s →
          (w >>= k) s = none := by
        intro w k hw
        simp only [Bind.bind, StateT.bind, ← hw, hrun, Option.bind]
      rw [hfails rfl, hfails hsecond, hfails hthird]
      exact Or.inl ⟨rfl, rfl⟩
    | some r =>
      rw [run_bind hrun, run_bind (hsecond.symm.trans hrun), run_bind (hthird.symm.trans hrun)]
      exact hf r.1 r.2 (hstays.run s r.1 r.2 hs hrun)
  · refine Or.inr ⟨by simp only [Bind.bind, StateT.bind, hnone, Option.bind], ?_⟩
    intro b u hrun
    obtain ⟨a, t, hfirst, hrest⟩ := run_bind_inv hrun
    exact (hbad a).run t b u (hend a t hfirst) hrest

/-- After a part that the three share. -/
theorem bindSame [hstays : Stays P x]
    (hf : ∀ a, Forks P B (f a) (g a) (h a)) : Forks P B (x >>= f) (x >>= g) (x >>= h) := by
  intro s hs
  cases hrun : x s with
  | none =>
    have hfails : ∀ k : α → StateT σ Option β, (x >>= k) s = none := by
      intro k
      simp only [Bind.bind, StateT.bind, hrun, Option.bind]
    rw [hfails, hfails, hfails]
    exact Or.inl ⟨rfl, rfl⟩
  | some r =>
    rw [run_bind hrun, run_bind hrun, run_bind hrun]
    exact hf r.1 r.2 (hstays.run s r.1 r.2 hs hrun)

theorem ite [Decidable c] {x' y' z' : StateT σ Option α} (h : Forks P B x y z)
    (h' : Forks P B x' y' z') :
    Forks P B (if c then x else x') (if c then y else y') (if c then z else z') := by
  by_cases hc : c
  · simp only [if_pos hc]
    exact h
  · simp only [if_neg hc]
    exact h'

end Forks

end Liric.Lib
