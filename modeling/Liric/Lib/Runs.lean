import Mathlib.Data.Option.Basic

/-!
# Runs of a partial step function

A run takes a list of steps from a state. `Along p` says that `p` holds at each step
of a run, `ownSteps` picks the steps of one party out of a run of several.
-/
namespace Liric.Lib

section Runs
variable {State Call : Type*} (step : State → Call → Option State)

def runSteps : State → List Call → Option State
  | s, [] => some s
  | s, c :: rest => (step s c).bind fun s => runSteps s rest

/-- Every step of the run meets `p` in the state before it. -/
def Along (p : State → Call → Prop) : State → List Call → Prop
  | _, [] => True
  | s, c :: rest => p s c ∧ match step s c with
    | none => True
    | some s' => Along p s' rest

instance Along.decide (p : State → Call → Prop) [∀ s c, Decidable (p s c)] :
    ∀ (s : State) (calls : List Call), Decidable (Along step p s calls)
  | _, [] => .isTrue trivial
  | s, c :: rest =>
    match hstep : step s c with
    | none => decidable_of_iff (p s c) (by simp [Along, hstep])
    | some s' =>
      have := Along.decide p s' rest
      decidable_of_iff (p s c ∧ Along step p s' rest) (by simp [Along, hstep])

/-- The steps of a run that are its owner's. -/
def ownSteps (own : State → Call → Bool) : State → List Call → List Call
  | _, [] => []
  | s, c :: rest =>
    match step s c with
    | none => []
    | some s' => if own s c then c :: ownSteps own s' rest else ownSteps own s' rest

variable {step}

theorem runSteps_append (pre post : List Call) : ∀ s : State,
    runSteps step s (pre ++ post) = (runSteps step s pre).bind fun s => runSteps step s post := by
  induction pre with
  | nil => exact fun s => rfl
  | cons c rest ih =>
    intro s
    simp only [List.cons_append, runSteps, Option.bind_assoc]
    exact congrArg _ (funext ih)

theorem Along.tail {p : State → Call → Prop} {s s' : State} {c : Call} {rest : List Call}
    (h : Along step p s (c :: rest)) (hstep : step s c = some s') : Along step p s' rest := by
  have hrest := h.2
  rw [hstep] at hrest
  exact hrest

theorem Along.append {p : State → Call → Prop} {post : List Call} :
    ∀ {pre : List Call} {s s' : State}, Along step p s (pre ++ post) →
      runSteps step s pre = some s' → Along step p s' post
  | [], s, s', h, hrun => by
    cases hrun
    exact h
  | c :: rest, s, s', h, hrun => by
    obtain ⟨s₁, hfirst, hrest⟩ := Option.bind_eq_some_iff.1 hrun
    exact Along.append (h.tail hfirst) hrest

/-- The steps of an earlier part of a run. -/
theorem Along.left {p : State → Call → Prop} {post : List Call} :
    ∀ {pre : List Call} {s : State}, Along step p s (pre ++ post) → Along step p s pre
  | [], _, _ => trivial
  | c :: rest, s, h => by
    refine ⟨h.1, ?_⟩
    cases hstep : step s c with
    | none => trivial
    | some s' => exact Along.left (h.tail hstep)

/-- A condition on the calls alone joins one on the steps. -/
theorem Along.join {p : State → Call → Prop} {q : Call → Prop} :
    ∀ {calls : List Call} {s : State}, Along step p s calls → (∀ c ∈ calls, q c) →
      Along step (fun s c => q c ∧ p s c) s calls
  | [], _, _, _ => trivial
  | c :: rest, s, h, hq => by
    refine ⟨⟨hq c List.mem_cons_self, h.1⟩, ?_⟩
    cases hstep : step s c with
    | none => trivial
    | some s' => exact Along.join (h.tail hstep) fun c' hc' => hq c' (List.mem_cons_of_mem c hc')

theorem runSteps_concat (pre : List Call) (c : Call) (s : State) :
    runSteps step s (pre ++ [c]) = (runSteps step s pre).bind fun s => step s c := by
  rw [runSteps_append]
  congr 1
  funext s'
  simp only [runSteps]
  cases step s' c <;> rfl

/-- What each step keeps, a run keeps. -/
theorem runSteps_invariant {inv : State → Prop}
    (hstep : ∀ s c s', inv s → step s c = some s' → inv s') :
    ∀ (calls : List Call) (s s' : State), inv s → runSteps step s calls = some s' → inv s'
  | [], s, s', hinv, hrun => by
    cases hrun
    exact hinv
  | c :: rest, s, s', hinv, hrun => by
    obtain ⟨s₁, hfirst, hrest⟩ := Option.bind_eq_some_iff.1 hrun
    exact runSteps_invariant hstep rest s₁ s' (hstep s c s₁ hinv hfirst) hrest

/-- Two conditions that agree where an invariant holds agree along its runs. -/
theorem along_congr {inv : State → Prop} {p q : State → Call → Prop}
    (hstep : ∀ s c s', inv s → step s c = some s' → inv s')
    (hiff : ∀ s c, inv s → (p s c ↔ q s c)) :
    ∀ (calls : List Call) {s : State}, inv s → (Along step p s calls ↔ Along step q s calls)
  | [], _, _ => Iff.rfl
  | c :: rest, s, hinv => by
    unfold Along
    rw [hiff s c hinv]
    cases hnext : step s c with
    | none => exact Iff.rfl
    | some s' =>
      exact and_congr_right fun _ => along_congr hstep hiff rest (hstep s c s' hinv hnext)

/-- What each step that meets `p` keeps, a run along `p` keeps. -/
theorem runSteps_along {inv : State → Prop} {p : State → Call → Prop}
    (hstep : ∀ s c s', inv s → p s c → step s c = some s' → inv s') :
    ∀ (calls : List Call) {s s' : State}, inv s → Along step p s calls →
      runSteps step s calls = some s' → inv s'
  | [], _, _, hinv, _, hrun => by
    cases hrun
    exact hinv
  | c :: rest, s, s', hinv, halong, hrun => by
    obtain ⟨s₁, hfirst, hrest⟩ := Option.bind_eq_some_iff.1 hrun
    exact runSteps_along hstep rest (hstep s c s₁ hinv halong.1 hfirst) (halong.tail hfirst) hrest

/-- A relation that the owner's steps keep on both sides, and the others' steps on
one side, leads from a run of all to the run of the owner alone. -/
theorem runSteps_own {own : State → Call → Bool} {p : State → Call → Prop}
    {rel : State → State → Prop}
    (hown : ∀ s t c s', rel s t → p s c → step s c = some s' → own s c = true →
      ∃ t', step t c = some t' ∧ rel s' t')
    (hother : ∀ s t c s', rel s t → p s c → step s c = some s' → own s c = false → rel s' t) :
    ∀ (calls : List Call) (s t s' : State), rel s t → Along step p s calls →
      runSteps step s calls = some s' →
      ∃ t', runSteps step t (ownSteps step own s calls) = some t' ∧ rel s' t'
  | [], s, t, s', hrel, _, hrun => by
    cases hrun
    exact ⟨t, rfl, hrel⟩
  | c :: rest, s, t, s', hrel, halong, hrun => by
    obtain ⟨s₁, hfirst, hrest⟩ := Option.bind_eq_some_iff.1 hrun
    have halong₁ := halong.tail hfirst
    cases hc : own s c with
    | true =>
      obtain ⟨t₁, hfirst', hrel₁⟩ := hown s t c s₁ hrel halong.1 hfirst hc
      obtain ⟨t', hrun', hrel'⟩ := runSteps_own hown hother rest s₁ t₁ s' hrel₁ halong₁ hrest
      refine ⟨t', ?_, hrel'⟩
      simp only [ownSteps, hfirst, hc, if_true, runSteps, hfirst', Option.bind_some]
      exact hrun'
    | false =>
      have hrel₁ := hother s t c s₁ hrel halong.1 hfirst hc
      obtain ⟨t', hrun', hrel'⟩ := runSteps_own hown hother rest s₁ t s' hrel₁ halong₁ hrest
      refine ⟨t', ?_, hrel'⟩
      simp only [ownSteps, hfirst, hc]
      exact hrun'

end Runs

section Answers
variable {State Spec Call Answer : Type*}

/-- What the calls of a run answer, one after the other. -/
def answers (step : State → Call → State × Answer) : State → List Call → List Answer
  | _, [] => []
  | s, c :: rest => (step s c).2 :: answers step (step s c).1 rest

/-- The next state of a step that always has one. -/
def nextOf (step : State → Call → State × Answer) (s : State) (c : Call) : Option State :=
  some (step s c).1

/-- Two machines whose answers agree and whose states stay related answer alike, as long
as the second one's steps meet `p`. -/
theorem answers_eq {step : State → Call → State × Answer} {spec : Spec → Call → Spec × Answer}
    {rel : State → Spec → Prop} {p : Spec → Call → Prop} {q : Call → Prop}
    (hstep : ∀ s t c, rel s t → q c → p t c →
      (step s c).2 = (spec t c).2 ∧ rel (step s c).1 (spec t c).1) :
    ∀ (calls : List Call) (s : State) (t : Spec), rel s t → (∀ c ∈ calls, q c) →
      Along (nextOf spec) p t calls → answers step s calls = answers spec t calls
  | [], _, _, _, _, _ => rfl
  | c :: rest, s, t, hrel, hcalls, halong => by
    obtain ⟨hanswer, hnext⟩ := hstep s t c hrel (hcalls c List.mem_cons_self) halong.1
    have hrest := answers_eq hstep rest _ _ hnext
      (fun c' hc' => hcalls c' (List.mem_cons_of_mem c hc')) (halong.tail rfl)
    simp only [answers, hanswer, hrest]

end Answers
end Liric.Lib
