import Mathlib.Data.List.Basic

/-!
# Code generators and the code they append

A generator appends instructions to the code in its state. `Appends x` says that `x`
does no more than that, and that its steps are related by the generator's `frame`.
`Emits x c s Post` is about the generator and about the machine that runs the new code:
from the states `c` and `s` of the two, `Post` holds of both after it. `F` is what is
known of the state in which the whole generator ends; the frame takes it back to the
states before.
-/
namespace Liric.Lib
open List

/-- The states of a generator, and what its instructions do to a machine. -/
structure Generator (C I S : Type) where
  code : C → List I
  exec : I → S → S
  /-- The next instruction follows. -/
  plain : I → Bool
  /-- What every part of the generator leaves alone. -/
  frame : C → C → Prop
  frame_refl : ∀ c, frame c c
  frame_trans : ∀ {c d e}, frame c d → frame d e → frame c e

namespace Generator
variable {C I S : Type} (g : Generator C I S)

def run (insts : List I) (s : S) : S := insts.foldl (fun s inst => g.exec inst s) s

theorem run_append (xs ys : List I) (s : S) : g.run (xs ++ ys) s = g.run ys (g.run xs s) :=
  foldl_append

/-- The instructions of `d` after those of `c`. -/
def newCode (c d : C) : List I := (g.code d).drop (g.code c).length

variable {c d : C}

theorem newCode_of_append {insts : List I} (h : g.code d = g.code c ++ insts) :
    g.newCode c d = insts := by
  rw [newCode, h, drop_left]

/-- `d` has the instructions of `c` and plain ones after them. -/
def Extends (c d : C) : Prop :=
  g.frame c d ∧ ∃ insts, g.code d = g.code c ++ insts ∧ ∀ inst ∈ insts, g.plain inst = true

theorem Extends.refl (c : C) : g.Extends c c :=
  ⟨g.frame_refl c, [], (append_nil _).symm, by simp⟩

variable {g}

theorem Extends.trans {e : C} (h : g.Extends c d) (h' : g.Extends d e) : g.Extends c e := by
  obtain ⟨hframe, insts, hcode, hplain⟩ := h
  obtain ⟨hframe', insts', hcode', hplain'⟩ := h'
  refine ⟨g.frame_trans hframe hframe', insts ++ insts', ?_, ?_⟩
  · rw [hcode', hcode, append_assoc]
  · intro inst hmem
    cases mem_append.1 hmem with
    | inl h => exact hplain inst h
    | inr h => exact hplain' inst h

theorem Extends.newCode_trans {e : C} (h : g.Extends c d) (h' : g.Extends d e) :
    g.newCode c e = g.newCode c d ++ g.newCode d e := by
  obtain ⟨-, insts, hcode, -⟩ := h
  obtain ⟨-, insts', hcode', -⟩ := h'
  have hwhole : g.code e = g.code c ++ (insts ++ insts') := by
    rw [hcode', hcode, append_assoc]
  rw [g.newCode_of_append hcode, g.newCode_of_append hcode', g.newCode_of_append hwhole]

theorem Extends.code_eq (h : g.Extends c d) : g.code d = g.code c ++ g.newCode c d := by
  obtain ⟨-, insts, hcode, -⟩ := h
  rw [g.newCode_of_append hcode, hcode]

theorem Extends.plain (h : g.Extends c d) : ∀ inst ∈ g.newCode c d, g.plain inst = true := by
  obtain ⟨-, insts, hcode, hplain⟩ := h
  rw [g.newCode_of_append hcode]
  exact hplain

end Generator

variable {C I S : Type} {α β : Type}

class Appends (g : Generator C I S) (x : StateM C α) : Prop where
  step : ∀ c, g.Extends c (x c).2

namespace Appends
variable {g : Generator C I S}

instance pure (a : α) : Appends g (Pure.pure a) := ⟨fun c => Generator.Extends.refl g c⟩

instance bind {x : StateM C α} {f : α → StateM C β} [hx : Appends g x]
    [hf : ∀ a, Appends g (f a)] : Appends g (x >>= f) := by
  constructor
  intro c
  have hbind : (x >>= f) c = f (x c).1 (x c).2 := rfl
  rw [hbind]
  exact (hx.step c).trans ((hf _).step _)

instance ite {p : Prop} [Decidable p] {x y : StateM C α} [hx : Appends g x] [hy : Appends g y] :
    Appends g (if p then x else y) := by
  split
  · exact hx
  · exact hy

instance get {f : C → StateM C α} [h : ∀ c, Appends g (f c)] :
    Appends g (MonadState.get >>= f) := ⟨fun c => (h c).step c⟩

/-- A change of the generator's state that emits nothing. -/
theorem change {f : C → C} (hframe : ∀ c, g.frame c (f c))
    (hcode : ∀ c, g.code (f c) = g.code c) : Appends g (modify f : StateM C PUnit) :=
  ⟨fun c => ⟨hframe c, [], (hcode c).trans (append_nil _).symm, by simp⟩⟩

instance forM {γ : Type} {f : γ → StateM C PUnit} {xs : List γ} [h : ∀ x, Appends g (f x)] :
    Appends g (xs.forM f) := by
  induction xs with
  | nil => exact pure _
  | cons x xs ih => exact bind

end Appends

structure Emits (g : Generator C I S) (F : C → Prop) (x : StateM C α) (c : C) (s : S)
    (Post : α → C → S → Prop) : Prop where
  after : F (x c).2 → Post (x c).1 (x c).2 (g.run (g.newCode c (x c).2) s)

/-- A property of states that the steps of the generator take back. -/
def Generator.Final (g : Generator C I S) (F : C → Prop) : Prop :=
  ∀ c d, g.frame c d → F d → F c

namespace Emits
variable {g : Generator C I S} {F : C → Prop} {c : C} {s : S}

variable {Post : α → C → S → Prop} {x : StateM C α}

/-- What emits nothing. -/
theorem silent (hcode : g.code (x c).2 = g.code c)
    (h : Post (x c).1 (x c).2 s) : Emits g F x c s Post := by
  constructor
  intro _
  have hnew : g.newCode c (x c).2 = [] := g.newCode_of_append (hcode.trans (append_nil _).symm)
  rw [hnew]
  exact h

theorem pure {a : α} (h : Post a c s) :
    Emits g F (Pure.pure a) c s Post := silent rfl h

variable {f : α → StateM C β}

theorem bind {Post : β → C → S → Prop} (hF : g.Final F) [hax : Appends g x]
    [haf : ∀ a, Appends g (f a)] (h : Emits g F x c s fun a c' s' => Emits g F (f a) c' s' Post) :
    Emits g F (x >>= f) c s Post := by
  constructor
  intro hfinal
  have hbind : (x >>= f) c = f (x c).1 (x c).2 := rfl
  rw [hbind] at hfinal ⊢
  have hnext := (haf (x c).1).step (x c).2
  rw [(hax.step c).newCode_trans hnext, g.run_append]
  exact (h.after (hF _ _ hnext.1 hfinal)).after hfinal

theorem mono {Post' : α → C → S → Prop} (h : Emits g F x c s Post)
    (hpost : ∀ a c' s', F c' → Post a c' s' → Post' a c' s') : Emits g F x c s Post' :=
  ⟨fun hfinal => hpost _ _ _ hfinal (h.after hfinal)⟩

/-- `bind` with a postcondition of the first part. -/
theorem seq {Mid : α → C → S → Prop} {Post : β → C → S → Prop} (hF : g.Final F) [Appends g x]
    [∀ a, Appends g (f a)] (hx : Emits g F x c s Mid)
    (h : ∀ a c' s', F c' → Mid a c' s' → Emits g F (f a) c' s' Post) :
    Emits g F (x >>= f) c s Post := bind hF (hx.mono h)

theorem ite {p : Prop} [Decidable p] {y : StateM C α}
    (hx : p → Emits g F x c s Post) (hy : ¬ p → Emits g F y c s Post) :
    Emits g F (if p then x else y) c s Post := by
  by_cases h : p
  · rw [if_pos h]
    exact hx h
  · rw [if_neg h]
    exact hy h

/-- What is known of the generator's state alone. -/
theorem withState {P : C → Prop} (hP : P (x c).2)
    (h : Emits g F x c s Post) : Emits g F x c s fun a c' s' => P c' ∧ Post a c' s' :=
  ⟨fun hfinal => ⟨hP, h.after hfinal⟩⟩

/-- An assumption on the end that is one on the beginning. -/
theorem suppose {P : C → Prop} (hP : P (x c).2 → P c)
    (h : P c → Emits g F x c s Post) : Emits g F x c s fun a c' s' => P c' → Post a c' s' :=
  ⟨fun hfinal hend => (h (hP hend)).after hfinal⟩

/-- What holds in the end holds from the beginning. -/
theorem assume (hF : g.Final F) [hax : Appends g x]
    (h : F c → Emits g F x c s Post) : Emits g F x c s Post := by
  constructor
  intro hfinal
  exact (h (hF _ _ (hax.step c).1 hfinal)).after hfinal

/-- A counting loop keeps what one round carries on. -/
theorem forM_range {f : Nat → StateM C PUnit} (Inv : Nat → C → S → Prop) {start n : Nat}
    (hF : g.Final F) [∀ k, Appends g (f k)]
    (hstep : ∀ k c s, k < start + n → Inv k c s →
      Emits g F (f k) c s fun _ c' s' => Inv (k + 1) c' s') (h : Inv start c s) :
    Emits g F ((range' start n).forM f) c s fun _ c' s' => Inv (start + n) c' s' := by
  induction n generalizing start c s with
  | zero => exact pure h
  | succ n ih =>
    have hround := hstep start c s (by omega) h
    apply bind hF
    apply hround.mono
    intro _ c' s' _ hnext
    have hrest : Emits g F ((range' (start + 1) n).forM f) c' s' fun _ c' s' =>
        Inv (start + 1 + n) c' s' := ih (fun k d t hk => hstep k d t (by omega)) hnext
    rwa [show start + 1 + n = start + (n + 1) by omega] at hrest

/-- What two generators do alike from here. -/
theorem congr {y : StateM C α} (hxy : x c = y c)
    (h : Emits g F y c s Post) : Emits g F x c s Post := by
  constructor
  rw [hxy]
  exact h.after

/-- A branch on the state of the generator. -/
theorem get {f : C → StateM C α} (h : Emits g F (f c) c s Post) :
    Emits g F (MonadState.get >>= f) c s Post := ⟨h.after⟩

end Emits
end Liric.Lib
