import Liric.Source.Ir.Types

/-!
# Archive members for a link

Source: src/liric_compat.c:814-963 (string lists), 1597-1654 (`compat_archive_member_satisfies`,
`compat_select_archive_members`).

Allocations succeed. Both functions that put a name into a list refuse the empty one.
-/
namespace Liric.Source.Compat
open Ir

/-- An item of a string list. -/
abbrev Name := { s : CStr // s ≠ [] }

abbrev StringList := List Name

def stringListAdd (list : StringList) (s : Name) : StringList :=
  if s ∈ list then list else list ++ [s]

/-- The last item takes the place of the first one with the name. -/
def stringListRemove (list : StringList) (s : Name) : StringList :=
  if s ∈ list then (list.set (list.idxOf s) (list.getLast?.getD s)).dropLast else list

def stringListAddMissing (dst src known : StringList) : StringList :=
  src.foldl (fun dst s => if s ∈ known then dst else stringListAdd dst s) dst

def stringListAddAll (dst src : StringList) : StringList := src.foldl stringListAdd dst

def stringListRemoveAll (dst src : StringList) : StringList := src.foldl stringListRemove dst

structure ArchiveMember where
  path : CStr
  defs : StringList
  undefs : StringList
  selected : Bool
  deriving DecidableEq

def archiveMemberSatisfies (member : ArchiveMember) (unresolved : StringList) : Bool :=
  member.defs.any fun s => s ∈ unresolved

/-- What `compat_select_archive_members` works on. -/
structure Selection where
  members : List ArchiveMember
  defined : StringList
  unresolved : StringList
  objects : List CStr
  deriving DecidableEq

def Selection.select (s : Selection) (i : Nat) (member : ArchiveMember) : Selection :=
  let defined := stringListAddAll s.defined member.defs
  { members := s.members.set i { member with selected := true }
    defined := defined
    unresolved := stringListRemoveAll
      (stringListAddMissing s.unresolved member.undefs defined) member.defs
    objects := s.objects ++ [member.path] }

/-- One step of the inner loop; the flag is `changed`. -/
def Selection.visit (s : Selection × Bool) (i : Nat) : Selection × Bool :=
  match s.1.members[i]? with
  | none => s
  | some member =>
    if member.selected ∨ ¬ archiveMemberSatisfies member s.1.unresolved then s
    else (s.1.select i member, true)

def Selection.round (s : Selection) : Selection × Bool :=
  (List.range s.members.length).foldl visit (s, false)

def Selection.unselected (s : Selection) : Nat := s.members.countP fun m => !m.selected

theorem Selection.unselected_select {s : Selection} {i : Nat} {m : ArchiveMember}
    (hat : s.members[i]? = some m) (hm : m.selected = false) :
    (s.select i m).unselected + 1 = s.unselected := by
  obtain ⟨hlt, rfl⟩ := List.getElem?_eq_some_iff.1 hat
  have hpos : 0 < s.unselected := List.countP_pos_iff.2 ⟨_, List.getElem_mem hlt, by simp [hm]⟩
  simp only [unselected, select, List.countP_set hlt, hm] at *
  simp
  omega

theorem Selection.unselected_visits (is : List Nat) (t : Selection × Bool) :
    (is.foldl visit t).1.unselected + (is.foldl visit t).2.toNat ≤ t.1.unselected + t.2.toNat := by
  induction is generalizing t with
  | nil => exact le_rfl
  | cons i is ih =>
    apply (ih (visit t i)).trans
    unfold visit
    split
    · exact le_rfl
    · next m hat =>
      split
      · exact le_rfl
      · next h =>
        have hone := unselected_select hat (by simpa using (not_or.1 h).1)
        simp
        omega

/-- `while (changed)`: a round that changes something selects a member. -/
def selectArchiveMembers (s : Selection) : Selection :=
  if s.round.2 then selectArchiveMembers s.round.1 else s.round.1
  termination_by s.unselected
  decreasing_by
    next h =>
    have hround := Selection.unselected_visits (List.range s.members.length) (s, false)
    simp only [Selection.round] at h ⊢
    simp [h] at hround
    omega

end Liric.Source.Compat
