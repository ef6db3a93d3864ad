import Mathlib.Data.List.Basic

/-!
# Properties throughout a fold

A fold meets each element of a list in a state. `Throughout` says something of every
element and the state in which it is met, and `mapFold` lists what each gives rise to. An
invariant of the fold is used with `Throughout.congr`: it is enough that two properties
agree, and that the invariant is kept, where the invariant holds.
-/
namespace Liric.Lib

variable {S A B : Type} {next : S → A → S}

def Throughout (next : S → A → S) (P : S → A → Prop) : S → List A → Prop
  | _, [] => True
  | s, a :: as => P s a ∧ Throughout next P (next s a) as

def mapFold (next : S → A → S) (f : S → A → B) : S → List A → List B
  | _, [] => []
  | s, a :: as => f s a :: mapFold next f (next s a) as

@[simp] theorem length_mapFold (f : S → A → B) (s : S) (as : List A) :
    (mapFold next f s as).length = as.length := by
  induction as generalizing s with
  | nil => rfl
  | cons a as ih => simp [mapFold, ih]

theorem mapFold_append (f : S → A → B) (s : S) (as bs : List A) :
    mapFold next f s (as ++ bs) = mapFold next f s as ++ mapFold next f (as.foldl next s) bs := by
  induction as generalizing s with
  | nil => rfl
  | cons a as ih => simp [mapFold, ih]

variable {C : Type}

/-- The elements themselves can be changed before the fold. -/
theorem mapFold_map (g : C → A) (f : S → A → B) (s : S) (cs : List C) :
    mapFold next f s (cs.map g) =
      mapFold (fun s c => next s (g c)) (fun s c => f s (g c)) s cs := by
  induction cs generalizing s with
  | nil => rfl
  | cons c cs ih => simp [mapFold, ih]

theorem map_mapFold (g : B → C) (f : S → A → B) (s : S) (as : List A) :
    (mapFold next f s as).map g = mapFold next (fun s a => g (f s a)) s as := by
  induction as generalizing s with
  | nil => rfl
  | cons a as ih => simp [mapFold, ih]

/-- Lists of related elements, where the parts before are as long as each other. -/
theorem forall₂_append_iff {D : Type} {R : C → D → Prop} {cs cs' : List C} {ds ds' : List D}
    (h : cs.length = ds.length) :
    List.Forall₂ R (cs ++ cs') (ds ++ ds') ↔ List.Forall₂ R cs ds ∧ List.Forall₂ R cs' ds' := by
  induction cs generalizing ds with
  | nil =>
    rw [List.length_eq_zero_iff.1 h.symm]
    simp
  | cons c cs ih =>
    cases ds with
    | nil => cases h
    | cons d ds => simp [ih (Nat.succ.inj h), and_assoc]

namespace Throughout
variable {P Q : S → A → Prop} {I : S → Prop} {s : S} {as bs : List A}

theorem append : Throughout next P s (as ++ bs) ↔
    Throughout next P s as ∧ Throughout next P (as.foldl next s) bs := by
  induction as generalizing s with
  | nil => simp [Throughout]
  | cons a as ih => simp [Throughout, ih, and_assoc]

theorem and : Throughout next (fun s a => P s a ∧ Q s a) s as ↔
    Throughout next P s as ∧ Throughout next Q s as := by
  induction as generalizing s with
  | nil => simp [Throughout]
  | cons a as ih =>
    simp only [Throughout, ih]
    tauto

theorem of_forall (h : ∀ s a, P s a) : Throughout next P s as := by
  induction as generalizing s with
  | nil => trivial
  | cons a as ih => exact ⟨h s a, ih⟩

/-- A property that follows where the invariant holds. -/
theorem mono_of_inv (h : ∀ s a, I s → P s a → Q s a) (hnext : ∀ s a, I s → I (next s a))
    (hs : I s) (hP : Throughout next P s as) : Throughout next Q s as := by
  induction as generalizing s with
  | nil => trivial
  | cons a as ih => exact ⟨h s a hs hP.1, ih (hnext s a hs) hP.2⟩

/-- Two properties that agree where the invariant holds. -/
theorem congr (hiff : ∀ s a, I s → (P s a ↔ Q s a))
    (hnext : ∀ s a, I s → Q s a → I (next s a)) (hs : I s) :
    Throughout next P s as ↔ Throughout next Q s as := by
  induction as generalizing s with
  | nil => rfl
  | cons a as ih =>
    constructor
    · intro h
      have hQ := (hiff s a hs).1 h.1
      exact ⟨hQ, (ih (hnext s a hs hQ)).1 h.2⟩
    · intro h
      exact ⟨(hiff s a hs).2 h.1, (ih (hnext s a hs h.1)).2 h.2⟩

variable {f : S → A → B}

theorem forall_mem_iff {R : B → Prop} :
    (∀ b ∈ mapFold next f s as, R b) ↔ Throughout next (fun s a => R (f s a)) s as := by
  induction as generalizing s with
  | nil => simp [mapFold, Throughout]
  | cons a as ih => simp [mapFold, Throughout, ih]

theorem forall₂_iff {R : B → C → Prop} {g : S → A → C} :
    List.Forall₂ R (mapFold next f s as) (mapFold next g s as) ↔
      Throughout next (fun s a => R (f s a) (g s a)) s as := by
  induction as generalizing s with
  | nil => simp [mapFold, Throughout]
  | cons a as ih => simp [mapFold, Throughout, ih]

end Throughout
end Liric.Lib
