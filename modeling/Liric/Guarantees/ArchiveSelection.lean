import Liric.Source.Compat.Archive

/-!
# Selected archive members are the link closure

The numbers of the members that are selected stand in the order of their selection. From any
disjoint sets of defined and unresolved names without repetitions, each of these members
defines a name that is unresolved when its turn comes, the two sets are what the selected
members make them, and no member that is left defines an unresolved name.
-/
namespace Liric.Guarantees.ArchiveSelection
open Source.Compat List

section Lists
variable {list dst src known : StringList} {s x : Name}

theorem mem_add : x ∈ stringListAdd list s ↔ x ∈ list ∨ x = s := by
  unfold stringListAdd
  split
  · next h =>
    constructor
    · exact Or.inl
    · rintro (hx | rfl)
      · exact hx
      · exact h
  · simp

theorem nodup_add (h : list.Nodup) : (stringListAdd list s).Nodup := by
  unfold stringListAdd
  split
  · exact h
  · next hs => exact nodup_append_comm.1 (nodup_cons.2 ⟨hs, h⟩)

/-- The order of the items aside, the first occurrence is taken out. -/
theorem remove_perm (h : s ∈ list) : (stringListRemove list s).Perm (list.erase s) := by
  obtain ⟨as, bs, rfl, has⟩ := eq_append_cons_of_mem h
  have hidx : (as ++ s :: bs).idxOf s = as.length := by simp [idxOf_append, has]
  rw [stringListRemove, if_pos h, hidx, erase_append_right _ has, erase_cons_head]
  rcases eq_nil_or_concat bs with rfl | ⟨bs, last, rfl⟩
  · simp
  · have hlast : (as ++ s :: bs.concat last).getLast? = some last := by
      rw [concat_eq_append, ← cons_append, ← append_assoc, List.getLast?_concat]
    have hset : ((as ++ s :: bs.concat last).set as.length last).dropLast = as ++ last :: bs := by
      rw [set_append_right _ _ (Nat.le_refl _), Nat.sub_self, set_cons_zero,
        concat_eq_append, ← cons_append, ← append_assoc, dropLast_concat]
    rw [hlast, Option.getD_some, hset, concat_eq_append, perm_append_left_iff]
    exact (perm_append_singleton last bs).symm

theorem mem_remove (h : list.Nodup) : x ∈ stringListRemove list s ↔ x ∈ list ∧ x ≠ s := by
  by_cases hs : s ∈ list
  · rw [(remove_perm hs).mem_iff, h.mem_erase_iff, and_comm]
  · rw [stringListRemove, if_neg hs]
    exact ⟨fun hx => ⟨hx, fun heq => hs (heq ▸ hx)⟩, And.left⟩

theorem nodup_remove (h : list.Nodup) : (stringListRemove list s).Nodup := by
  by_cases hs : s ∈ list
  · exact (remove_perm hs).nodup_iff.2 (h.erase s)
  · rwa [stringListRemove, if_neg hs]

theorem addAll_spec (src : StringList) (h : dst.Nodup) :
    (stringListAddAll dst src).Nodup ∧ ∀ x, x ∈ stringListAddAll dst src ↔ x ∈ dst ∨ x ∈ src := by
  induction src generalizing dst with
  | nil => simpa [stringListAddAll] using h
  | cons s src ih =>
    obtain ⟨hnodup, hmem⟩ := ih (nodup_add h (s := s))
    refine ⟨hnodup, fun x => ?_⟩
    rw [show stringListAddAll dst (s :: src) = stringListAddAll (stringListAdd dst s) src from rfl,
      hmem, mem_add, mem_cons, or_assoc]

theorem addMissing_spec (src known : StringList) (h : dst.Nodup) :
    (stringListAddMissing dst src known).Nodup ∧
      ∀ x, x ∈ stringListAddMissing dst src known ↔ x ∈ dst ∨ x ∈ src ∧ x ∉ known := by
  induction src generalizing dst with
  | nil => simpa [stringListAddMissing] using h
  | cons s src ih =>
    by_cases hs : s ∈ known
    · obtain ⟨hnodup, hmem⟩ := ih h
      simp only [stringListAddMissing, foldl_cons, if_pos hs] at hnodup hmem ⊢
      refine ⟨hnodup, fun x => ?_⟩
      rw [hmem, mem_cons]
      constructor
      · tauto
      · rintro (hx | ⟨rfl | hx, hk⟩)
        · exact Or.inl hx
        · exact absurd hs hk
        · exact Or.inr ⟨hx, hk⟩
    · obtain ⟨hnodup, hmem⟩ := ih (nodup_add h (s := s))
      simp only [stringListAddMissing, foldl_cons, if_neg hs] at hnodup hmem ⊢
      refine ⟨hnodup, fun x => ?_⟩
      rw [hmem, mem_add, mem_cons]
      constructor
      · rintro ((hx | rfl) | hx)
        · exact Or.inl hx
        · exact Or.inr ⟨Or.inl rfl, hs⟩
        · exact Or.inr ⟨Or.inr hx.1, hx.2⟩
      · tauto

theorem removeAll_spec (src : StringList) (h : dst.Nodup) :
    (stringListRemoveAll dst src).Nodup ∧
      ∀ x, x ∈ stringListRemoveAll dst src ↔ x ∈ dst ∧ x ∉ src := by
  induction src generalizing dst with
  | nil => simpa [stringListRemoveAll] using h
  | cons s src ih =>
    obtain ⟨hnodup, hmem⟩ := ih (nodup_remove h (s := s))
    refine ⟨hnodup, fun x => ?_⟩
    rw [show stringListRemoveAll dst (s :: src) =
      stringListRemoveAll (stringListRemove dst s) src from rfl, hmem, mem_remove h, mem_cons,
      not_or, and_assoc]

end Lists

section Closure
variable (t : Selection)

/-- What is defined once the members with these numbers are selected. -/
def Defined (order : List Nat) (x : Name) : Prop :=
  x ∈ t.defined ∨ ∃ i ∈ order, ∃ m, t.members[i]? = some m ∧ x ∈ m.defs

def Unresolved (order : List Nat) (x : Name) : Prop :=
  (x ∈ t.unresolved ∨ ∃ i ∈ order, ∃ m, t.members[i]? = some m ∧ x ∈ m.undefs) ∧ ¬ Defined t order x

/-- Each member defines a name that is unresolved when its turn comes. -/
inductive Needed : List Nat → Prop
  | nil : Needed []
  | append {order : List Nat} {i : Nat} {m : ArchiveMember} {x : Name} : Needed order →
      i ∉ order → t.members[i]? = some m → m.selected = false → x ∈ m.defs →
      Unresolved t order x → Needed (order ++ [i])

def marked (order : List Nat) (i : Nat) (m : ArchiveMember) : ArchiveMember :=
  { m with selected := m.selected || i ∈ order }

/-- From `t` exactly the members with these numbers have been selected, in this order. -/
structure Linked (order : List Nat) (s : Selection) : Prop where
  needed : Needed t order
  nodup : order.Nodup
  members : ∀ i, s.members[i]? = t.members[i]?.map (marked order i)
  objects : s.objects = t.objects ++ order.filterMap fun i => t.members[i]?.map (·.path)
  definedNodup : s.defined.Nodup
  defined : ∀ x, x ∈ s.defined ↔ Defined t order x
  unresolvedNodup : s.unresolved.Nodup
  unresolved : ∀ x, x ∈ s.unresolved ↔ Unresolved t order x

variable {t} {s : Selection} {order : List Nat} {i : Nat} {m : ArchiveMember}

theorem Linked.member (h : Linked t order s) (hat : s.members[i]? = some m)
    (hm : m.selected = false) : t.members[i]? = some m ∧ i ∉ order := by
  rw [h.members] at hat
  obtain ⟨m₀, hat₀, rfl⟩ := Option.map_eq_some_iff.1 hat
  simp only [marked, Bool.or_eq_false_iff, decide_eq_false_iff_not] at hm
  refine ⟨?_, hm.2⟩
  rw [hat₀]
  cases m₀
  simp_all [marked]

theorem Linked.select (h : Linked t order s) (hat : s.members[i]? = some m)
    (hm : m.selected = false) (hsat : archiveMemberSatisfies m s.unresolved = true) :
    Linked t (order ++ [i]) (s.select i m) := by
  obtain ⟨hat₀, hi⟩ := h.member hat hm
  obtain ⟨y, hy, hopen⟩ : ∃ y, y ∈ m.defs ∧ y ∈ s.unresolved := by
    simpa [archiveMemberSatisfies] using hsat
  have hdefined : ∀ x, Defined t (order ++ [i]) x ↔ Defined t order x ∨ x ∈ m.defs := by
    intro x
    simp only [Defined, mem_append, mem_singleton, or_and_right, exists_or,
      exists_eq_left, hat₀, Option.some.injEq, exists_eq_left', or_assoc]
  have hdefs := addAll_spec m.defs h.definedNodup
  have hmissing := addMissing_spec m.undefs (stringListAddAll s.defined m.defs) h.unresolvedNodup
  have hremove := removeAll_spec m.defs hmissing.1
  refine ⟨?_, ?_, ?_, ?_, hdefs.1, ?_, hremove.1, ?_⟩
  · exact .append h.needed hi hat₀ hm hy ((h.unresolved y).1 hopen)
  · exact nodup_append_comm.1 (nodup_cons.2 ⟨hi, h.nodup⟩)
  · intro j
    have hlt := (List.getElem?_eq_some_iff.1 hat).1
    simp only [Selection.select, List.getElem?_set, hlt]
    by_cases hj : i = j
    · subst hj
      simp [hat₀, marked]
    · have hmarked : marked (order ++ [i]) j = marked order j := by
        funext m
        simp [marked, Ne.symm hj]
      rw [if_neg hj, h.members, hmarked]
  · simp [Selection.select, h.objects, filterMap_append, hat₀]
  · intro x
    exact (hdefs.2 x).trans (by rw [h.defined, hdefined])
  · intro x
    refine (hremove.2 x).trans ?_
    rw [hmissing.2, hdefs.2, h.unresolved, h.defined]
    simp only [Unresolved, hdefined, mem_append, mem_singleton, or_and_right, exists_or,
      exists_eq_left, hat₀, Option.some.injEq, exists_eq_left']
    by_cases hd : x ∈ m.defs <;> simp [hd, or_assoc]

theorem Linked.visits (h : Linked t order s) (changed : Bool) (is : List Nat) :
    ∃ order, Linked t order (is.foldl Selection.visit (s, changed)).1 := by
  induction is generalizing s order changed with
  | nil => exact ⟨order, h⟩
  | cons i is ih =>
    rw [foldl_cons, Selection.visit]
    split
    · exact ih h changed
    · next m hat =>
      split
      · exact ih h changed
      · next hskip =>
        simp only [not_or, Bool.not_eq_true, Bool.not_eq_false] at hskip
        exact ih (h.select hat hskip.1 hskip.2) true

/-- Visits that change nothing find no member that is needed. -/
theorem quiet_visits {changed : Bool} {is : List Nat}
    (h : (is.foldl Selection.visit (s, changed)).2 = false) :
    (is.foldl Selection.visit (s, changed)).1 = s ∧ changed = false ∧
      ∀ i ∈ is, ∀ m, s.members[i]? = some m → m.selected = false →
        archiveMemberSatisfies m s.unresolved = false := by
  induction is generalizing s changed with
  | nil => exact ⟨rfl, h, by simp⟩
  | cons i is ih =>
    rw [foldl_cons, Selection.visit] at h ⊢
    split at h
    · next hat =>
      obtain ⟨hsame, rfl, hrest⟩ := ih h
      refine ⟨hsame, rfl, ?_⟩
      simpa [show s.members[i]? = none from hat] using hrest
    · next m hat =>
      split at h
      · next hskip =>
        obtain ⟨hsame, hflag, hrest⟩ := ih h
        refine ⟨by rwa [if_pos hskip], hflag, forall_mem_cons.2 ⟨?_, hrest⟩⟩
        intro m' hm' hsel
        rw [show s.members[i]? = some m from hat, Option.some.injEq] at hm'
        subst hm'
        simpa [hsel] using hskip
      · cases (ih h).2.1

theorem Linked.run (h : Linked t order s) :
    ∃ order, Linked t order (selectArchiveMembers s) ∧
      ∀ m ∈ (selectArchiveMembers s).members, m.selected = false →
        ∀ x ∈ m.defs, x ∉ (selectArchiveMembers s).unresolved := by
  induction s using selectArchiveMembers.induct generalizing order with
  | case1 s hround ih =>
    obtain ⟨order', h'⟩ := h.visits false (List.range s.members.length)
    rw [selectArchiveMembers, if_pos hround]
    exact ih h'
  | case2 s hround =>
    rw [selectArchiveMembers, if_neg hround]
    obtain ⟨hsame, -, hquiet⟩ := quiet_visits (eq_false_of_ne_true hround)
    have hsame : s.round.1 = s := hsame
    rw [hsame]
    refine ⟨order, h, ?_⟩
    intro m hm hsel x hx hopen
    obtain ⟨i, hlt, rfl⟩ := getElem_of_mem hm
    have hnot := hquiet i (mem_range.2 hlt) _ (List.getElem?_eq_getElem hlt) hsel
    simp only [archiveMemberSatisfies, any_eq_false, decide_eq_true_eq] at hnot
    exact hnot x hx hopen

theorem linked_start (hdefined : t.defined.Nodup) (hunresolved : t.unresolved.Nodup)
    (hdisjoint : ∀ x ∈ t.unresolved, x ∉ t.defined) : Linked t [] t := by
  have hmarked : ∀ i, marked [] i = id := by
    intro i
    funext m
    simp [marked]
  exact ⟨.nil, nodup_nil, by simp [hmarked], by simp, hdefined, by simp [Defined],
    hunresolved, by simpa [Unresolved, Defined] using hdisjoint⟩

/-- Any members that are not selected yet, in any order and with any names in common. -/
theorem select_closes (hdefined : t.defined.Nodup) (hunresolved : t.unresolved.Nodup)
    (hdisjoint : ∀ x ∈ t.unresolved, x ∉ t.defined) :
    ∃ order, Linked t order (selectArchiveMembers t) ∧
      ∀ m ∈ (selectArchiveMembers t).members, m.selected = false →
        ∀ x ∈ m.defs, x ∉ (selectArchiveMembers t).unresolved :=
  (linked_start hdefined hunresolved hdisjoint).run

end Closure

/-- Two members that need each other. -/
def cycle : Selection where
  members := [⟨[97], [⟨[1], by decide⟩], [⟨[2], by decide⟩], false⟩,
    ⟨[98], [⟨[2], by decide⟩], [⟨[1], by decide⟩, ⟨[3], by decide⟩], false⟩]
  defined := []
  unresolved := [⟨[2], by decide⟩]
  objects := []

theorem select_closes_cycle :
    ∃ order, Linked cycle order (selectArchiveMembers cycle) ∧
      ∀ m ∈ (selectArchiveMembers cycle).members, m.selected = false →
        ∀ x ∈ m.defs, x ∉ (selectArchiveMembers cycle).unresolved :=
  select_closes (by decide) (by decide) (by decide)

section Reach
variable (t : Selection)

/-- What a link of the open names needs. The order of the members has no part in it. -/
inductive Reached : ArchiveMember → Prop
  | root {m : ArchiveMember} {x : Name} : m ∈ t.members → x ∈ m.defs → x ∈ t.unresolved → Reached m
  | next {m n : ArchiveMember} {x : Name} : Reached m → n ∈ t.members → x ∈ n.defs →
      x ∈ m.undefs → Reached n

/-- No name has two definitions, and nothing is selected yet. -/
structure OneDefiner : Prop where
  apart : t.members.Pairwise fun m n => ∀ x ∈ m.defs, x ∉ n.defs
  fresh : ∀ m ∈ t.members, m.selected = false ∧ ∀ x ∈ m.defs, x ∉ t.defined

variable {t} {s : Selection} {order : List Nat}

theorem OneDefiner.place_eq (h : OneDefiner t) {i j : Nat} {m n : ArchiveMember} {x : Name}
    (hi : t.members[i]? = some m) (hj : t.members[j]? = some n) (hm : x ∈ m.defs)
    (hn : x ∈ n.defs) : i = j := by
  obtain ⟨hilt, rfl⟩ := List.getElem?_eq_some_iff.1 hi
  obtain ⟨hjlt, rfl⟩ := List.getElem?_eq_some_iff.1 hj
  have hapart := pairwise_iff_getElem.1 h.apart
  rcases Nat.lt_trichotomy i j with hij | hij | hij
  · exact absurd hn (hapart i j hilt hjlt hij x hm)
  · exact hij
  · exact absurd hm (hapart j i hjlt hilt hij x hn)

theorem Needed.reached (h : Needed t order) :
    ∀ i ∈ order, ∀ m, t.members[i]? = some m → Reached t m := by
  induction h with
  | nil => simp
  | @append order i m x hneeded _ hat _ hdef hopen ih =>
    intro j hj n hn
    rcases mem_append.1 hj with hj | hj
    · exact ih j hj n hn
    · obtain rfl := mem_singleton.1 hj
      obtain rfl := Option.some.inj (hat.symm.trans hn)
      have hmem := mem_of_getElem? hat
      obtain hroot | ⟨k, hk, m', hm', hx⟩ := hopen.1
      · exact .root hmem hdef hroot
      · exact .next (ih k hk m' hm') hmem hdef hx

/-- An open name of a closed selection that a member defines has made it selected. -/
theorem Linked.selects (hlinked : Linked t order s) (h : OneDefiner t)
    (hclosed : ∀ m ∈ s.members, m.selected = false → ∀ x ∈ m.defs, x ∉ s.unresolved)
    {m : ArchiveMember} {x : Name} (hm : m ∈ t.members) (hx : x ∈ m.defs)
    (hopen : x ∈ t.unresolved ∨ ∃ i ∈ order, ∃ n, t.members[i]? = some n ∧ x ∈ n.undefs) :
    ∃ i ∈ order, t.members[i]? = some m := by
  obtain ⟨i, hi⟩ := mem_iff_getElem?.1 hm
  obtain ⟨hsel, hfresh⟩ := h.fresh m hm
  refine ⟨i, by_contra fun hnot => ?_, hi⟩
  have hleft : s.members[i]? = some (marked order i m) := by
    rw [hlinked.members, hi, Option.map_some]
  have hundefined : ¬ Defined t order x := by
    rintro (hd | ⟨j, hj, n, hn, hxn⟩)
    · exact hfresh x hx hd
    · exact hnot (h.place_eq hi hn hx hxn ▸ hj)
  refine hclosed _ (mem_of_getElem? hleft) ?_ x hx ((hlinked.unresolved x).2 ⟨hopen, hundefined⟩)
  simp [marked, hsel, hnot]

/-- The result is the same for every order of the members: what can be reached is linked. -/
theorem selects_reached (hdefined : t.defined.Nodup) (hunresolved : t.unresolved.Nodup)
    (hdisjoint : ∀ x ∈ t.unresolved, x ∉ t.defined) (h : OneDefiner t) :
    (∀ path, path ∈ (selectArchiveMembers t).objects ↔
      path ∈ t.objects ∨ ∃ m, Reached t m ∧ m.path = path) ∧
    (∀ x, x ∈ (selectArchiveMembers t).defined ↔ x ∈ t.defined ∨ ∃ m, Reached t m ∧ x ∈ m.defs) ∧
    ∀ x, x ∈ (selectArchiveMembers t).unresolved ↔
      (x ∈ t.unresolved ∨ ∃ m, Reached t m ∧ x ∈ m.undefs) ∧
        x ∉ (selectArchiveMembers t).defined := by
  obtain ⟨order, hlinked, hclosed⟩ := (linked_start hdefined hunresolved hdisjoint).run
  have hall : ∀ m, Reached t m ↔ ∃ i ∈ order, t.members[i]? = some m := by
    intro m
    constructor
    · intro hm
      induction hm with
      | root hm hx hroot => exact hlinked.selects h hclosed hm hx (.inl hroot)
      | @next m n x _ hn hx hneeds ih =>
        obtain ⟨i, hi, hat⟩ := ih
        exact hlinked.selects h hclosed hn hx (.inr ⟨i, hi, m, hat, hneeds⟩)
    · rintro ⟨i, hi, hat⟩
      exact hlinked.needed.reached i hi m hat
  have hreach : ∀ p : ArchiveMember → Prop,
      (∃ i ∈ order, ∃ m, t.members[i]? = some m ∧ p m) ↔ ∃ m, Reached t m ∧ p m := by
    intro p
    simp only [hall]
    tauto
  refine ⟨fun path => ?_, fun x => ?_, fun x => ?_⟩
  · simp [hlinked.objects, ← hreach]
  · rw [hlinked.defined, Defined, hreach]
  · rw [hlinked.unresolved, hlinked.defined, Unresolved, hreach]

end Reach

theorem selects_reached_cycle : [97] ∈ (selectArchiveMembers cycle).objects ↔
    [97] ∈ cycle.objects ∨ ∃ m, Reached cycle m ∧ m.path = [97] :=
  (selects_reached (by decide) (by decide) (by decide)
    ⟨by decide, by decide⟩).1 [97]

end Liric.Guarantees.ArchiveSelection
