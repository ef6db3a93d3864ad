import Liric.Lib.GrowingGraph
import Liric.Lib.StateTriple
import Liric.Source.Ll.Lexer
import Liric.Source.Ll.TypeHeap

/-!
# Layouts of the types of a module

A type contains itself if and only if it reaches a placeholder whose definition reached the
placeholder when it took its place. Other definitions and all new types keep the arena founded.
-/
namespace Liric.Guarantees.FiniteLayouts
open Lib Relation List Option
open Source.Ir (CStr SizeT alignUp)
open Source.Ll (Token TokKind ParseError lexText)
open Source.LlTypes

variable {arena : Arena} {type t : TypeRef} {node : TypeNode} {p : TypeParser}
  {types fields : List TypeRef} {align : TypeRef → Option SizeT}

/-- Containment by value. -/
def Part (arena : Arena) (x y : TypeRef) : Prop :=
  ∃ node, arena[x]? = some node ∧ y ∈ node.parts

def Refers (arena : Arena) (x y : TypeRef) : Prop :=
  ∃ node, arena[x]? = some node ∧ y ∈ node.children

theorem Part.refers {x y : TypeRef} (h : Part arena x y) : Refers arena x y := by
  obtain ⟨node, hnode, hy⟩ := h
  refine ⟨node, hnode, ?_⟩
  cases node with
  | func ret params vararg => cases hy
  | _ => exact hy

theorem part_append (arena : Arena) (node : TypeNode) :
    Part (arena ++ [node]) = withEdges (Part arena) arena.length (· ∈ node.parts) := by
  funext x y
  simp only [Part, withEdges, eq_iff_iff]
  rcases Nat.lt_trichotomy x arena.length with hlt | rfl | hgt
  · rw [getElem?_append_left hlt]
    simp [ne_of_lt hlt]
  · simp
  · have hnone : (arena ++ [node])[x]? = none := by
      rw [getElem?_eq_none_iff, length_append, length_singleton]
      omega
    have hold : arena[x]? = none := getElem?_eq_none_iff.2 (le_of_lt hgt)
    simp [hnone, hold, ne_of_gt hgt]

theorem parts_overwritten (name : CStr) (h : arena[type]? = some node) :
    (overwritten arena type name).parts = node.parts := by
  unfold overwritten
  rw [h]
  cases node with
  | struct fields packed known => cases known <;> rfl
  | _ => rfl

/-- A leaf takes the parts of the type that overwrites it. -/
theorem part_set {place : TypeRef} (name : CStr) (hplace : place < arena.length)
    (htype : type < arena.length) (hleaf : ∀ y, ¬ Part arena place y) :
    Part (arena.set place (overwritten arena type name)) =
      withEdges (Part arena) place (Part arena type) := by
  have hnode : arena[type]? = some arena[type] := getElem?_eq_getElem htype
  funext x y
  by_cases hx : x = place
  · subst hx
    have hnew : (arena.set x (overwritten arena type name))[x]? =
        some (overwritten arena type name) := getElem?_set_self hplace
    have hold : ¬ Part arena x y := hleaf y
    simp only [withEdges, hold, true_and, false_or, eq_iff_iff]
    simp only [Part, hnew, hnode, Option.some.injEq, exists_eq_left', parts_overwritten name hnode]
  · have hsame : (arena.set place (overwritten arena type name))[x]? = arena[x]? :=
      getElem?_set_ne (Ne.symm hx)
    simp only [withEdges, hx, false_and, or_false, Part, hsame]

/-- A part of the defined type reaches the placeholder it is copied to. -/
def Closes (o : Overwrite) : Prop :=
  ∃ part, Part o.before o.type part ∧ ReflTransGen (Part o.before) part o.place

/-- The placeholders that were closed to a cycle. -/
def closed (p : TypeParser) : Set TypeRef := {t | ∃ o ∈ p.overwrites, Closes o ∧ o.place = t}

structure Good (p : TypeParser) : Prop where
  inside : ∀ x y, Part p.arena x y → y < p.arena.length
  module : moduleTypes.length ≤ p.arena.length
  entries : ∀ e ∈ p.typeMap, e.type < p.arena.length
  /-- A placeholder that is not defined yet is empty. -/
  empty : ∀ e ∈ p.typeMap, e.placeholder = true → ∀ y, ¬ Part p.arena e.type y
  /-- Each of them belongs to one name. -/
  single : ∀ (i j : Nat) (e f : TypeMapEntry), p.typeMap[i]? = some e → p.typeMap[j]? = some f →
    e.placeholder = true → f.placeholder = true → e.type = f.type → i = j
  tame : Tame (Part p.arena) (closed p)

theorem good_start (toks : List Token) : Good { toks := toks, arena := moduleTypes } := by
  have hleaf : ∀ x y, ¬ Part moduleTypes x y := by
    rintro x y ⟨node, hnode, hy⟩
    have hall : ∀ node ∈ moduleTypes, node.parts = [] := by decide
    rw [hall node (mem_of_getElem? hnode)] at hy
    cases hy
  have hclosed : closed { toks := toks, arena := moduleTypes } = ∅ := by
    ext t
    simp [closed]
  exact
    { inside := fun x y h => absurd h (hleaf x y)
      module := le_rfl
      entries := fun e he => absurd he not_mem_nil
      empty := fun e he => absurd he not_mem_nil
      single := fun i j e f hi => by simp at hi
      tame := by
        rw [hclosed]
        exact tame_of_leaves hleaf }

/-- Everything but the arena, the names and the record is free to change. -/
theorem Good.same {q : TypeParser} (h : Good p) (harena : q.arena = p.arena)
    (hmap : q.typeMap = p.typeMap) (hrecord : q.overwrites = p.overwrites) : Good q := by
  have hclosed : closed q = closed p := by
    ext t
    simp [closed, hrecord]
  exact
    { inside := by rw [harena]; exact h.inside
      module := by rw [harena]; exact h.module
      entries := by rw [harena, hmap]; exact h.entries
      empty := by rw [harena, hmap]; exact h.empty
      single := by rw [hmap]; exact h.single
      tame := by rw [harena, hclosed]; exact h.tame }

/-- A new type does not close a cycle. -/
theorem Good.alloc (h : Good p) (hnode : ∀ y ∈ node.parts, y < p.arena.length) :
    Good { p with arena := p.arena ++ [node] } := by
  have hpart := part_append p.arena node
  have hold : ∀ t < p.arena.length, ∀ y, Part (p.arena ++ [node]) t y ↔ Part p.arena t y := by
    intro t ht y
    rw [hpart]
    simp [withEdges, ne_of_lt ht]
  have hout : ∀ c, c < p.arena.length → ¬ ReflTransGen (Part p.arena) c p.arena.length := by
    intro c hc hreach
    rcases ReflTransGen.cases_tail hreach with hsame | ⟨b, -, hlast⟩
    · exact absurd hsame.symm (ne_of_lt hc)
    · exact absurd (h.inside _ _ hlast) (lt_irrefl _)
  exact
    { inside := by
        intro x y hxy
        rw [length_append, length_singleton]
        change Part (p.arena ++ [node]) x y at hxy
        rw [hpart] at hxy
        rcases hxy with hxy | ⟨-, hy⟩
        · exact Nat.lt_succ_of_lt (h.inside x y hxy)
        · exact Nat.lt_succ_of_lt (hnode y hy)
      module := by
        rw [length_append]
        exact Nat.le_add_right_of_le h.module
      entries := by
        intro e he
        rw [length_append]
        exact Nat.lt_add_right _ (h.entries e he)
      empty := by
        intro e he hpending y hy
        exact h.empty e he hpending y ((hold e.type (h.entries e he) y).1 hy)
      single := h.single
      tame := by
        change Tame (Part (p.arena ++ [node])) _
        rw [hpart]
        exact h.tame.extend_open fun c hc => hout c (hnode c hc) }

/-- A name for a type that is known. -/
theorem Good.name {p : TypeParser} (h : Good p) (name : CStr) {type : TypeRef}
    (htype : type < p.arena.length) :
    Good { p with typeMap := p.typeMap ++ [⟨name, type, false⟩] } :=
  { h with
    entries := by
      intro e he
      rcases mem_append.1 he with he | he
      · exact h.entries e he
      · rw [mem_singleton.1 he]
        exact htype
    empty := by
      intro e he hpending
      rcases mem_append.1 he with he | he
      · exact h.empty e he hpending
      · rw [mem_singleton.1 he] at hpending
        cases hpending
    single := by
      intro i j e f hi hj he hf hsame
      have hknown : ∀ {k : Nat} {g : TypeMapEntry},
          (p.typeMap ++ [⟨name, type, false⟩])[k]? = some g → g.placeholder = true →
            p.typeMap[k]? = some g := by
        intro k g hk hg
        rcases lt_or_ge k p.typeMap.length with hlt | hge
        · rwa [getElem?_append_left hlt] at hk
        · rw [getElem?_append_right hge] at hk
          have hlast := mem_singleton.1 (mem_of_getElem? hk)
          rw [hlast] at hg
          cases hg
      exact h.single i j e f (hknown hi he) (hknown hj hf) he hf hsame }

/-- A placeholder is new, and it is empty. -/
theorem Good.placeholder (h : Good p) (name : CStr) :
    Good { p with
      arena := p.arena ++ [.struct [] false (some name)]
      typeMap := p.typeMap ++ [⟨name, p.arena.length, true⟩] } := by
  have hnew : Good { p with arena := p.arena ++ [.struct [] false (some name)] } :=
    h.alloc fun y hy => absurd hy not_mem_nil
  have hempty : ∀ y, ¬ Part (p.arena ++ [.struct [] false (some name)]) p.arena.length y := by
    rintro y ⟨node, hnode, hy⟩
    rw [getElem?_concat_length] at hnode
    cases hnode
    cases hy
  exact
    { hnew with
      entries := by
        intro e he
        rcases mem_append.1 he with he | he
        · exact hnew.entries e he
        · rw [mem_singleton.1 he, length_append]
          exact Nat.lt_succ_self _
      empty := by
        intro e he hpending
        rcases mem_append.1 he with he | he
        · exact hnew.empty e he hpending
        · rw [mem_singleton.1 he]
          exact hempty
      single := by
        intro i j e f hi hj he hf hsame
        -- an entry of the old map stands for an older type
        have hcase : ∀ {k : Nat} {g : TypeMapEntry},
            (p.typeMap ++ [⟨name, p.arena.length, true⟩])[k]? = some g →
              (p.typeMap[k]? = some g ∧ g.type < p.arena.length) ∨
                (k = p.typeMap.length ∧ g.type = p.arena.length) := by
          intro k g hk
          rcases lt_or_ge k p.typeMap.length with hlt | hge
          · rw [getElem?_append_left hlt] at hk
            exact Or.inl ⟨hk, h.entries g (mem_of_getElem? hk)⟩
          · rw [getElem?_append_right hge] at hk
            obtain ⟨hbound, -⟩ := List.getElem?_eq_some_iff.1 hk
            have hlast := mem_singleton.1 (mem_of_getElem? hk)
            rw [length_singleton] at hbound
            exact Or.inr ⟨by omega, by rw [hlast]⟩
        rcases hcase hi with ⟨hi, hilt⟩ | ⟨rfl, hieq⟩ <;>
          rcases hcase hj with ⟨hj, hjlt⟩ | ⟨rfl, hjeq⟩
        · exact h.single i j e f hi hj he hf hsame
        · exact absurd (hsame.trans hjeq) (ne_of_lt hilt)
        · exact absurd (hsame.symm.trans hieq) (ne_of_lt hjlt)
        · rfl }

/-- The new type of a name that has one. -/
theorem Good.rename (h : Good p) {idx : Nat} {e : TypeMapEntry} (hdefined : e.placeholder = false)
    (htype : type < p.arena.length) :
    Good { p with typeMap := p.typeMap.set idx { e with type := type } } := by
  have hother : ∀ {k : Nat} {g : TypeMapEntry},
      (p.typeMap.set idx { e with type := type })[k]? = some g → g.placeholder = true →
        p.typeMap[k]? = some g := by
    intro k g hk hg
    rw [getElem?_set] at hk
    split at hk
    · split at hk
      · cases hk
        rw [hdefined] at hg
        cases hg
      · cases hk
    · exact hk
  exact
    { h with
      entries := by
        intro g hg
        rcases mem_or_eq_of_mem_set hg with hg | rfl
        · exact h.entries g hg
        · exact htype
      empty := by
        intro g hg hpending
        obtain ⟨k, hk⟩ := mem_iff_getElem?.1 hg
        exact h.empty g (mem_of_getElem? (hother hk hpending)) hpending
      single := by
        intro i j g f hi hj hg hf hsame
        exact h.single i j g f (hother hi hg) (hother hj hf) hg hf hsame }

/-- The definition of a placeholder. -/
theorem Good.overwrite (h : Good p) {idx : Nat} {e : TypeMapEntry} (hidx : p.typeMap[idx]? = some e)
    (hpending : e.placeholder = true) (htype : type < p.arena.length) :
    Good { p with
      arena := p.arena.set e.type (overwritten p.arena type e.name)
      typeMap := p.typeMap.set idx { e with placeholder := false }
      overwrites := p.overwrites ++ [⟨e.type, type, p.arena⟩] } := by
  have hmem : e ∈ p.typeMap := mem_of_getElem? hidx
  have hleaf := h.empty e hmem hpending
  have hpart := part_set e.name (h.entries e hmem) htype hleaf
  have hother : ∀ {k : Nat} {g : TypeMapEntry},
      (p.typeMap.set idx { e with placeholder := false })[k]? = some g → g.placeholder = true →
        k ≠ idx ∧ p.typeMap[k]? = some g := by
    intro k g hk hg
    rw [getElem?_set] at hk
    split at hk
    · split at hk
      · cases hk
        cases hg
      · cases hk
    · next hne => exact ⟨Ne.symm hne, hk⟩
  exact
    { inside := by
        intro x y hxy
        rw [length_set]
        change Part (p.arena.set e.type (overwritten p.arena type e.name)) x y at hxy
        rw [hpart] at hxy
        rcases hxy with hxy | ⟨-, hy⟩
        · exact h.inside x y hxy
        · exact h.inside type y hy
      module := by
        rw [length_set]
        exact h.module
      entries := by
        intro g hg
        rw [length_set]
        rcases mem_or_eq_of_mem_set hg with hg | rfl
        · exact h.entries g hg
        · exact h.entries e hmem
      empty := by
        intro g hg hg' y hy
        obtain ⟨k, hk⟩ := mem_iff_getElem?.1 hg
        obtain ⟨hne, hold⟩ := hother hk hg'
        change Part (p.arena.set e.type (overwritten p.arena type e.name)) g.type y at hy
        rw [hpart] at hy
        rcases hy with hy | ⟨hsame, -⟩
        · exact h.empty g (mem_of_getElem? hold) hg' y hy
        · exact hne (h.single k idx g e hold hidx hg' hpending hsame)
      single := by
        intro i j g f hi hj hg hf hsame
        exact h.single i j g f (hother hi hg).2 (hother hj hf).2 hg hf hsame
      tame := by
        change Tame (Part (p.arena.set e.type (overwritten p.arena type e.name))) _
        rw [hpart]
        by_cases hcloses : Closes ⟨e.type, type, p.arena⟩
        · have hmore : closed { p with
              arena := p.arena.set e.type (overwritten p.arena type e.name)
              typeMap := p.typeMap.set idx { e with placeholder := false }
              overwrites := p.overwrites ++ [⟨e.type, type, p.arena⟩] } =
              insert e.type (closed p) := by
            ext t
            simp only [closed, mem_append, mem_singleton, Set.mem_insert_iff, Set.mem_ofPred_eq]
            grind
          rw [hmore]
          exact h.tame.extend_closed hcloses
        · have hsame : closed { p with
              arena := p.arena.set e.type (overwritten p.arena type e.name)
              typeMap := p.typeMap.set idx { e with placeholder := false }
              overwrites := p.overwrites ++ [⟨e.type, type, p.arena⟩] } = closed p := by
            ext t
            simp only [closed, mem_append, mem_singleton, Set.mem_ofPred_eq]
            grind
          rw [hsame]
          exact h.tame.extend_open fun c hc hreach => hcloses ⟨c, hc, hreach⟩ }

/-- The types in hand are in the arena. -/
def Fit (types : List TypeRef) (p : TypeParser) : Prop :=
  Good p ∧ ∀ t ∈ types, t < p.arena.length

def Quiet {α : Type} (x : T α) : Prop := ∀ types, Partial (Fit types) x fun _ => Fit types

def Yields (x : T TypeRef) : Prop := ∀ types, Partial (Fit types) x fun t => Fit (t :: types)

def YieldsAll (x : T (List TypeRef)) : Prop :=
  ∀ types, Partial (Fit types) x fun ts => Fit (ts ++ types)

theorem Fit.same {q : TypeParser} (h : Fit types p) (harena : q.arena = p.arena)
    (hmap : q.typeMap = p.typeMap) (hrecord : q.overwrites = p.overwrites) : Fit types q :=
  ⟨h.1.same harena hmap hrecord, by rw [harena]; exact h.2⟩

theorem Fit.sub {fewer : List TypeRef} (h : Fit types p) (hsub : ∀ t ∈ fewer, t ∈ types) :
    Fit fewer p :=
  ⟨h.1, fun t ht => h.2 t (hsub t ht)⟩

theorem Fit.add (h : Fit types p) (ht : t < p.arena.length) : Fit (t :: types) p :=
  ⟨h.1, fun u hu => (mem_cons.1 hu).elim (fun hsame => hsame ▸ ht) (h.2 u)⟩

theorem Fit.builtin (h : Fit types p) (ht : t < moduleTypes.length) : Fit (t :: types) p :=
  h.add (lt_of_lt_of_le ht h.1.module)

section Tokens
variable {α β : Type}

theorem quiet_pure (a : α) : Quiet (pure a : T α) := fun _ => Partial.pure fun _ hp => hp

theorem quiet_get : Quiet (get : T TypeParser) := fun _ => Partial.get fun _ hp => hp

theorem quiet_bind {x : T α} {f : α → T β} (hx : Quiet x) (hf : ∀ a, Quiet (f a)) :
    Quiet (x >>= f) := fun types => Partial.bind (hx types) fun a => hf a types

theorem quiet_ite {c : Prop} [Decidable c] {x y : T α} (hx : Quiet x) (hy : Quiet y) :
    Quiet (if c then x else y) := fun types => Partial.ite (hx types) (hy types)

theorem quiet_undefined : Quiet (undefined : T α) := fun _ => Partial.fail

theorem quiet_modify {f : TypeParser → TypeParser} (harena : ∀ p, (f p).arena = p.arena)
    (hmap : ∀ p, (f p).typeMap = p.typeMap) (hrecord : ∀ p, (f p).overwrites = p.overwrites) :
    Quiet (modify f : T PUnit) :=
  fun _ => (stays_modify fun p hp => hp.same (harena p) (hmap p) (hrecord p)).run

theorem quiet_next : Quiet next := quiet_modify (fun _ => rfl) (fun _ => rfl) (fun _ => rfl)

theorem quiet_reportError (e : ParseError) : Quiet (reportError e) :=
  quiet_modify (fun _ => rfl) (fun _ => rfl) (fun _ => rfl)

theorem quiet_keepType (t : TypeRef) : Quiet (keepType t) :=
  quiet_modify (fun _ => rfl) (fun _ => rfl) (fun _ => rfl)

theorem quiet_check (kind : TokKind) : Quiet (check kind) :=
  quiet_bind quiet_get fun _ => quiet_pure _

theorem quiet_accept (kind : TokKind) : Quiet (accept kind) :=
  quiet_bind (quiet_check kind) fun _ => quiet_ite
    (quiet_bind quiet_next fun _ => quiet_pure _) (quiet_pure _)

theorem quiet_expect (kind : TokKind) : Quiet (expect kind) :=
  quiet_bind (quiet_accept kind) fun _ => quiet_ite (quiet_pure _)
    (quiet_bind quiet_get fun _ => quiet_reportError _)

theorem quiet_findTypeIndex (name : CStr) : Quiet (findTypeIndex name) :=
  quiet_bind quiet_get fun _ => quiet_pure _

end Tokens

theorem yields_bind {α : Type} {x : T α} {f : α → T TypeRef} (hx : Quiet x)
    (hf : ∀ a, Yields (f a)) : Yields (x >>= f) := fun types =>
  Partial.bind (hx types) fun a => hf a types

theorem yields_ite {c : Prop} [Decidable c] {x y : T TypeRef} (hx : Yields x) (hy : Yields y) :
    Yields (if c then x else y) := fun types => Partial.ite (hx types) (hy types)

theorem yieldsAll_bind {α : Type} {x : T α} {f : α → T (List TypeRef)} (hx : Quiet x)
    (hf : ∀ a, YieldsAll (f a)) : YieldsAll (x >>= f) := fun types =>
  Partial.bind (hx types) fun a => hf a types

/-- The parts of a new type are in the arena. -/
theorem alloc_fit {rest : List TypeRef} (hparts : ∀ t ∈ node.parts, t ∈ types)
    (hrest : ∀ t ∈ rest, t ∈ types) :
    Partial (Fit types) (allocType node) fun t => Fit (t :: rest) := by
  intro p t q hp hrun
  cases hrun
  refine ⟨hp.1.alloc fun y hy => hp.2 y (hparts y hy), fun u hu => ?_⟩
  rw [length_append]
  rcases mem_cons.1 hu with rfl | hu
  · exact Nat.lt_succ_self _
  · exact Nat.lt_add_right _ (hp.2 u (hrest u hu))

theorem yields_resolveOrCreate (name : CStr) : Yields (resolveOrCreateForwardType name) := by
  intro types p t q hp hrun
  unfold resolveOrCreateForwardType at hrun
  rw [run_bind (a := p.typeMap.findIdx? fun e => e.name == name) (t := p) rfl] at hrun
  cases hfind : p.typeMap.findIdx? fun e => e.name == name with
  | some idx =>
    rw [hfind] at hrun
    cases hrun
    refine hp.add ?_
    cases hget : p.typeMap[idx]? with
    | none => exact lt_of_lt_of_le (by decide) hp.1.module
    | some e => exact hp.1.entries e (mem_of_getElem? hget)
  | none =>
    rw [hfind] at hrun
    cases hrun
    refine ⟨hp.1.placeholder name, fun u hu => ?_⟩
    rw [length_append]
    rcases mem_cons.1 hu with rfl | hu
    · exact Nat.lt_succ_self _
    · exact Nat.lt_add_right _ (hp.2 u hu)

theorem fit_pushBounded (xs types : List TypeRef) (x : TypeRef) :
    Partial (Fit (x :: (xs ++ types))) (pushBounded xs x) fun ts => Fit (ts ++ types) := by
  intro p ts q hp hrun
  unfold pushBounded at hrun
  split at hrun
  · cases hrun
    refine hp.sub fun t ht => ?_
    simp only [append_assoc, mem_append, mem_cons] at ht ⊢
    tauto
  · cases hrun

section Types
variable {elem : T TypeRef} (helem : Yields elem)
include helem

theorem fit_fieldsLoop (fuel : Nat) (fields types : List TypeRef) :
    Partial (Fit (fields ++ types)) (fieldsLoop elem fuel fields) fun ts => Fit (ts ++ types) := by
  induction fuel generalizing fields with
  | zero => exact Partial.fail
  | succ fuel ih =>
    refine Partial.bind (quiet_accept _ _) fun more => Partial.ite ?_ (Partial.pure fun _ hp => hp)
    refine Partial.bind (helem _) fun field => Partial.bind (fit_pushBounded _ _ _)
      fun fields => ih fields

theorem yieldsAll_parseFields : YieldsAll (parseFields elem) := by
  refine yieldsAll_bind (quiet_check _) fun _ types => Partial.ite (Partial.pure fun _ hp => hp) ?_
  refine Partial.bind (helem _) fun first => Partial.bind (quiet_get _) fun p => ?_
  exact fit_fieldsLoop helem _ [first] types

theorem yields_parseCounted (closing : TokKind) {mk : TypeRef → BitVec 64 → TypeNode}
    (hmk : ∀ t count, (mk t count).parts = [t]) : Yields (parseCounted elem closing mk) := by
  refine yields_bind quiet_get fun p => yields_bind (quiet_expect _) fun _ =>
    yields_bind (quiet_expect _) fun _ types => ?_
  refine Partial.bind (helem _) fun t => Partial.bind (quiet_expect closing _) fun _ => ?_
  refine alloc_fit ?_ fun u hu => mem_cons_of_mem t hu
  intro u hu
  rw [hmk] at hu
  rw [mem_singleton.1 hu]
  exact mem_cons_self

theorem yields_parseStruct (packed : Bool) : Yields (parseStruct elem packed) := by
  intro types
  refine Partial.bind (yieldsAll_parseFields helem _) fun fields =>
    Partial.bind (quiet_expect _ _) fun _ => ?_
  have halloc : Partial (Fit (fields ++ types)) (allocType (.struct fields packed none))
      fun t => Fit (t :: types) :=
    alloc_fit (fun u hu => mem_append_left _ hu) fun u hu => mem_append_right _ hu
  exact Partial.ite (Partial.bind (quiet_expect _ _) fun _ => halloc) halloc

theorem quiet_paramsLoop (fuel : Nat) (params : List TypeRef) :
    Quiet (paramsLoop elem fuel params) := by
  induction fuel generalizing params with
  | zero => exact quiet_undefined
  | succ fuel ih =>
    refine quiet_bind (quiet_accept _) fun _ => quiet_ite ?_ (quiet_pure _)
    refine quiet_bind (quiet_accept _) fun _ => quiet_ite (quiet_pure _) ?_
    refine quiet_bind (fun types p t q hp hrun => ?_) fun param =>
      quiet_bind (fun types p ts q hp hrun => ?_) fun params => ih params
    · exact (helem types p t q hp hrun).sub fun u hu => mem_cons_of_mem t hu
    · unfold pushBounded at hrun
      split at hrun
      · cases hrun
        exact hp
      · cases hrun

theorem quiet_parseParams : Quiet (parseParams elem) := by
  refine quiet_bind (quiet_check _) fun _ => quiet_ite (quiet_pure _) ?_
  refine quiet_bind (quiet_accept _) fun _ => quiet_ite (quiet_pure _) ?_
  refine quiet_bind (fun types p t q hp hrun => ?_) fun first =>
    quiet_bind quiet_get fun p => quiet_paramsLoop helem _ _
  exact (helem types p t q hp hrun).sub fun u hu => mem_cons_of_mem t hu

theorem fit_suffixLoop (fuel : Nat) (ty : TypeRef) (types : List TypeRef) :
    Partial (Fit (ty :: types)) (suffixLoop elem fuel ty) fun t => Fit (t :: types) := by
  induction fuel generalizing ty with
  | zero => exact Partial.fail
  | succ fuel ih =>
    refine Partial.bind (quiet_accept _ _) fun star => Partial.ite ?_ ?_
    · intro p t q hp hrun
      refine ih typePtr p t q ?_ hrun
      exact (hp.sub fun u hu => mem_cons_of_mem ty hu).builtin (by decide)
    refine Partial.bind (quiet_accept _ _) fun paren => Partial.ite ?_ (Partial.pure fun _ hp => hp)
    refine Partial.bind (quiet_parseParams helem _) fun params => ?_
    refine Partial.bind (quiet_expect _ _) fun _ => Partial.bind (alloc_fit ?_ ?_) fun t => ih t
    · intro u hu
      cases hu
    · exact fun u hu => mem_cons_of_mem ty hu

theorem yields_parseTypeHead : Yields (parseTypeHead elem) := by
  refine yields_bind quiet_get fun p => ?_
  cases hbuiltin : builtinType p.cur.kind with
  | some ty =>
    simp only [hbuiltin]
    refine yields_bind quiet_next fun _ types q t r hq hrun => ?_
    cases hrun
    refine hq.builtin ?_
    unfold builtinType at hbuiltin
    split at hbuiltin <;> cases hbuiltin <;> decide
  | none =>
    simp only [hbuiltin]
    refine yields_ite (yields_bind quiet_next fun _ => yields_resolveOrCreate _) ?_
    refine yields_ite (yields_bind quiet_next fun _ =>
      yields_parseCounted helem _ fun _ _ => rfl) ?_
    refine yields_ite (yields_bind quiet_next fun _ => yields_parseStruct helem _) ?_
    refine yields_ite (yields_bind quiet_next fun _ => yields_bind (quiet_check _) fun _ =>
      yields_ite (yields_parseCounted helem _ fun _ _ => rfl)
        (yields_bind (quiet_expect _) fun _ => yields_parseStruct helem _)) ?_
    refine yields_bind (quiet_reportError _) fun _ types q t r hq hrun => ?_
    cases hrun
    exact hq.builtin (by decide)

end Types

theorem yields_parseType (depth : Nat) : Yields (parseType depth) := by
  induction depth with
  | zero => exact fun types => Partial.fail
  | succ depth ih =>
    intro types
    refine Partial.bind (yields_parseTypeHead ih types) fun ty =>
      Partial.bind (quiet_get _) fun p => ?_
    exact fit_suffixLoop ih _ ty types

theorem quiet_parseType (depth : Nat) : Quiet (parseType depth) :=
  fun types p t q hp hrun =>
    (yields_parseType depth types p t q hp hrun).sub fun _ hu => mem_cons_of_mem t hu

theorem fit_storeType (idx : Nat) (htype : type ∈ types) (hp : Fit types p) :
    Fit types (storeType idx type p) := by
  have hin := hp.2 type htype
  unfold storeType
  cases hget : p.typeMap[idx]? with
  | none => exact hp
  | some e =>
    cases hpending : e.placeholder with
    | true =>
      simp only [hpending, if_true]
      refine ⟨hp.1.overwrite hget hpending hin, fun u hu => ?_⟩
      rw [length_set]
      exact hp.2 u hu
    | false =>
      simp only [hpending, Bool.false_eq_true, if_false]
      have hname : Good { p with typeMap := p.typeMap.set idx { e with type := type } } :=
        hp.1.rename hpending hin
      rw [hpending] at hname
      exact ⟨hname, hp.2⟩

theorem fit_registerType (name : CStr) (htype : type ∈ types) :
    Partial (Fit types) (registerType name type) fun _ => Fit types := by
  refine Partial.bind (quiet_findTypeIndex name types) fun known => ?_
  cases known with
  | none => exact (stays_modify fun p hp => ⟨hp.1.name name (hp.2 type htype), hp.2⟩).run
  | some idx => exact (stays_modify fun p hp => fit_storeType idx htype hp).run

theorem quiet_run (depth : Nat) (reading : Reading) : Quiet (reading.run depth) := by
  induction reading with
  | done => exact quiet_pure _
  | fail e rest ih => exact quiet_bind (quiet_reportError e) fun _ => ih
  | look rest ih => exact quiet_bind quiet_get ih
  | take count rest ih =>
    exact quiet_bind (quiet_modify (fun _ => rfl) (fun _ => rfl) (fun _ => rfl)) fun _ => ih
  | type rest ih => exact quiet_bind (quiet_parseType depth) ih
  | func ret params vararg rest ih =>
    refine quiet_bind (fun types p t q hp hrun => ?_) ih
    have hfunc : ∀ u ∈ (TypeNode.func ret params vararg).parts, u ∈ types :=
      fun u hu => absurd hu not_mem_nil
    have hnew := alloc_fit hfunc (fun u hu => hu) p t q hp hrun
    exact hnew.sub fun u hu => mem_cons_of_mem t hu
  | keep type rest ih => exact quiet_bind (quiet_keepType type) fun _ => ih

section Module
variable (depth : Nat) (topLevel : List Token → Bool) (function initializer : Reading)

theorem quiet_skipLine : Quiet (skipLine topLevel) := by
  have hloop : ∀ fuel, Quiet (skipLineLoop topLevel fuel) := by
    intro fuel
    induction fuel with
    | zero => exact quiet_undefined
    | succ fuel ih =>
      refine quiet_bind quiet_get fun p => quiet_ite (quiet_pure _) (quiet_ite (quiet_pure _) ?_)
      exact quiet_bind quiet_next fun _ => ih
  exact quiet_bind quiet_get fun p => hloop _

theorem quiet_typeDefinition (name : CStr) : Quiet (typeDefinition depth name) := by
  refine quiet_bind (quiet_check _) fun _ => quiet_ite quiet_next fun types => ?_
  refine Partial.bind (yields_parseType depth types) fun t p a q hp hrun => ?_
  exact (fit_registerType name mem_cons_self p a q hp hrun).sub fun u hu =>
    mem_cons_of_mem t hu

theorem quiet_parseGlobal : Quiet (parseGlobal depth topLevel initializer) := by
  refine quiet_bind quiet_get fun p => quiet_bind quiet_next fun _ =>
    quiet_bind (quiet_expect _) fun _ =>
      quiet_bind (quiet_modify (fun _ => rfl) (fun _ => rfl) (fun _ => rfl)) fun _ =>
        quiet_bind quiet_get fun q => ?_
  refine quiet_ite ?_ (quiet_ite ?_ (quiet_skipLine topLevel))
  · exact quiet_bind quiet_next fun _ => quiet_bind (quiet_parseType depth) fun t =>
      quiet_bind (quiet_keepType t) fun _ => quiet_run depth initializer
  · exact quiet_bind quiet_next fun _ => quiet_bind (quiet_typeDefinition depth _) fun _ =>
      quiet_skipLine topLevel

theorem quiet_typeAlias : Quiet (typeAlias depth topLevel) := by
  have hskip := quiet_skipLine topLevel
  refine quiet_bind quiet_get fun p => quiet_bind quiet_next fun _ =>
    quiet_bind (quiet_accept _) fun _ => quiet_ite ?_ hskip
  refine quiet_bind (quiet_accept _) fun _ => quiet_ite ?_ hskip
  exact quiet_bind (quiet_typeDefinition depth _) fun _ => hskip

theorem quiet_moduleLoop (fuel : Nat) :
    Quiet (moduleLoop depth topLevel function initializer fuel) := by
  induction fuel with
  | zero => exact quiet_undefined
  | succ fuel ih =>
    refine quiet_bind quiet_get fun p => quiet_ite (quiet_pure _) ?_
    refine quiet_ite ?_ (quiet_ite ?_ (quiet_ite ?_ ?_))
    · exact quiet_bind quiet_next fun _ => quiet_bind (quiet_run depth function) fun _ => ih
    · exact quiet_bind (quiet_parseGlobal depth topLevel initializer) fun _ => ih
    · exact quiet_bind (quiet_typeAlias depth topLevel) fun _ => ih
    · exact quiet_bind (quiet_skipLine topLevel) fun _ => ih

theorem good_parseModule {fuel : Nat} {toks : List Token}
    (h : parseModule depth topLevel function initializer fuel toks = some p) : Good p := by
  obtain ⟨⟨a, q⟩, hrun, rfl⟩ := map_eq_some_iff.1 h
  have hstart : Fit [] { toks := toks, arena := moduleTypes } :=
    ⟨good_start toks, fun t ht => absurd ht not_mem_nil⟩
  exact (quiet_moduleLoop depth topLevel function initializer fuel [] _ a q hstart hrun).1

end Module

theorem foldlM_isSome {A B : Type} {f : B → A → Option B} {xs : List A}
    (h : ∀ x ∈ xs, ∀ b, (f b x).isSome = true) (b : B) : (xs.foldlM f b).isSome = true := by
  induction xs generalizing b with
  | nil => rfl
  | cons x xs ih =>
    obtain ⟨hx, hxs⟩ := forall_mem_cons.1 h
    obtain ⟨c, hc⟩ := isSome_iff_exists.1 (hx b)
    rw [foldlM_cons, hc]
    exact ih hxs c

theorem alignLoop_isSome (h : ∀ field ∈ fields, (align field).isSome = true) :
    (alignLoop align fields).isSome = true :=
  foldlM_isSome (fun field hfield b => by simpa using h field hfield) 1

variable {size : TypeRef → Option SizeT}

theorem sizeLoop_isSome {packed : Bool} (hsize : ∀ field ∈ fields, (size field).isSome = true)
    (halign : ∀ field ∈ fields, (align field).isSome = true) :
    (sizeLoop size align packed fields).isSome = true := by
  refine foldlM_isSome (fun field hfield b => ?_) 0
  obtain ⟨fsz, hfsz⟩ := isSome_iff_exists.1 (hsize field hfield)
  obtain ⟨fa, hfa⟩ := isSome_iff_exists.1 (halign field hfield)
  cases packed <;> simp [hfsz, hfa]

def Ends (arena : Arena) (depth : Nat) (t : TypeRef) : Prop :=
  (lrTypeSize arena depth t).isSome = true ∧ (lrTypeAlign arena depth t).isSome = true

/-- A type ends one level above its parts. -/
theorem ends_succ {depth : Nat} (h : ∀ part, Part arena t part → Ends arena depth part) :
    Ends arena (depth + 1) t := by
  cases hnode : arena[t]? with
  | none => simp [Ends, lrTypeSize, lrTypeAlign, hnode]
  | some node =>
    have hparts : ∀ part ∈ node.parts, Ends arena depth part :=
      fun part hpart => h part ⟨node, hnode, hpart⟩
    simp only [Ends, lrTypeSize, lrTypeAlign, hnode]
    cases node with
    | scalar kind => simp
    | ptr => simp
    | func ret params vararg => simp
    | array elem count =>
      obtain ⟨hsize, halign⟩ := hparts elem mem_cons_self
      exact ⟨by simpa using hsize, halign⟩
    | vector elem count =>
      obtain ⟨hsize, halign⟩ := hparts elem mem_cons_self
      obtain ⟨sz, hsz⟩ := isSome_iff_exists.1 hsize
      obtain ⟨ea, hea⟩ := isSome_iff_exists.1 halign
      simp [hsz, hea]
    | struct fields packed name =>
      have halign : (alignLoop (lrTypeAlign arena depth) fields).isSome = true :=
        alignLoop_isSome fun field hfield => (hparts field hfield).2
      have hsize : (sizeLoop (lrTypeSize arena depth) (lrTypeAlign arena depth) packed
          fields).isSome = true :=
        sizeLoop_isSome (fun field hfield => (hparts field hfield).1) fun field hfield =>
          (hparts field hfield).2
      obtain ⟨sz, hsz⟩ := isSome_iff_exists.1 hsize
      obtain ⟨sa, hsa⟩ := isSome_iff_exists.1 halign
      refine ⟨?_, ?_⟩
      · simp only [hsz, hsa, bind_eq_bind, bind_some, map_some]
        split <;> rfl
      · simp only [hsa]
        split <;> rfl

theorem ends_of_founded (h : Founded (Part arena) t) :
    ∃ enough, ∀ depth, enough ≤ depth → Ends arena depth t := by
  induction h with
  | intro t _ ih =>
    have hall : ∀ parts : List TypeRef, (∀ part ∈ parts, Part arena t part) →
        ∃ enough, ∀ part ∈ parts, ∀ depth, enough ≤ depth → Ends arena depth part := by
      intro parts
      induction parts with
      | nil => exact fun _ => ⟨0, fun part hpart => absurd hpart not_mem_nil⟩
      | cons part parts ihparts =>
        intro hparts
        obtain ⟨hfirst, hrest⟩ := forall_mem_cons.1 hparts
        obtain ⟨a, ha⟩ := ih part hfirst
        obtain ⟨b, hb⟩ := ihparts hrest
        refine ⟨max a b, forall_mem_cons.2 ⟨?_, ?_⟩⟩
        · exact fun depth hdepth => ha depth (le_trans (le_max_left a b) hdepth)
        · exact fun q hq depth hdepth => hb q hq depth (le_trans (le_max_right a b) hdepth)
    have hparts : ∃ parts : List TypeRef, ∀ part, Part arena t part ↔ part ∈ parts := by
      cases hnode : arena[t]? with
      | none => exact ⟨[], fun part => by simp [Part, hnode]⟩
      | some node => exact ⟨node.parts, fun part => by simp [Part, hnode]⟩
    obtain ⟨parts, hiff⟩ := hparts
    obtain ⟨enough, henough⟩ := hall parts fun part hpart => (hiff part).2 hpart
    refine ⟨enough + 1, fun depth hdepth => ?_⟩
    obtain ⟨d, rfl⟩ : ∃ d, depth = d + 1 := ⟨depth - 1, by omega⟩
    exact ends_succ fun part hpart =>
      henough part ((hiff part).1 hpart) d (Nat.le_of_succ_le_succ hdepth)

theorem sizes_of_sizeLoop {packed : Bool} (h : (sizeLoop size align packed fields).isSome = true) :
    ∀ field ∈ fields, (size field).isSome = true := by
  unfold sizeLoop at h
  generalize (0 : SizeT) = sz at h
  induction fields generalizing sz with
  | nil => exact fun field hfield => absurd hfield not_mem_nil
  | cons first rest ih =>
    rw [foldlM_cons] at h
    obtain ⟨last, hlast⟩ := isSome_iff_exists.1 h
    obtain ⟨next, hnext, hrest⟩ := bind_eq_some_iff.1 hlast
    obtain ⟨fsz, hfsz, -⟩ := bind_eq_some_iff.1 hnext
    refine forall_mem_cons.2 ⟨by simp [hfsz], ih next ?_⟩
    rw [hrest]
    rfl

/-- A size that is computed is that of a founded type. -/
theorem founded_of_size {depth : Nat} (h : (lrTypeSize arena depth t).isSome = true) :
    Founded (Part arena) t := by
  induction depth generalizing t with
  | zero => cases h
  | succ depth ih =>
    refine Acc.intro t ?_
    rintro part ⟨node, hnode, hpart⟩
    simp only [lrTypeSize, hnode] at h
    cases node with
    | array elem count =>
      rw [mem_singleton.1 hpart]
      exact ih (by simpa using h)
    | vector elem count =>
      rw [mem_singleton.1 hpart]
      exact ih (by simpa using h)
    | struct fields packed name =>
      have hsize : (sizeLoop (lrTypeSize arena depth) (lrTypeAlign arena depth) packed
          fields).isSome = true := by
        obtain ⟨sz, hsz⟩ := isSome_iff_exists.1 h
        obtain ⟨sum, hsum, -⟩ := bind_eq_some_iff.1 hsz
        rw [hsum]
        rfl
      exact ih (sizes_of_sizeLoop hsize part hpart)
    | _ => cases hpart

theorem founded_iff_ends :
    Founded (Part arena) t ↔ ∃ depth, Ends arena depth t := by
  constructor
  · intro h
    obtain ⟨enough, hends⟩ := ends_of_founded h
    exact ⟨enough, hends enough (le_rfl)⟩
  · rintro ⟨depth, hends⟩
    exact founded_of_size hends.1

/-- A text, the columns of its tokens, and what its functions and globals read. -/
structure ModuleText where
  strtod : CStr → BitVec 64
  text : CStr
  topLevel : List Token → Bool
  function : Reading
  initializer : Reading
  depth : Nat
  fuel : Nat

namespace ModuleText

def parsed (m : ModuleText) : Option TypeParser :=
  parseModule m.depth m.topLevel m.function m.initializer m.fuel (lexText m.strtod m.text)

/-- A type that a function or a global refers to, directly or through other types. -/
def Reachable (p : TypeParser) (t : TypeRef) : Prop :=
  ∃ root ∈ p.kept, ReflTransGen (Refers p.arena) root t

/-- The types of an accepted text are founded, and their sizes and alignments are computed. -/
def Meets (m : ModuleText) : Prop :=
  ∀ p, m.parsed = some p → p.error = none → ∀ t, Reachable p t →
    Founded (Part p.arena) t ∧ ∃ depth, Ends p.arena depth t

/-- No function or global refers to a name whose definition contains it where it stands. -/
def Plain (m : ModuleText) : Prop :=
  ∀ p, m.parsed = some p → p.error = none → ∀ o ∈ p.overwrites, Closes o → ¬ Reachable p o.place

end ModuleText

theorem plain_iff (m : ModuleText) : m.Meets ↔ m.Plain := by
  constructor
  · intro h p hparsed hclean o ho hcloses hreach
    have hgood := good_parseModule m.depth m.topLevel m.function m.initializer hparsed
    have hcycle := hgood.tame.cyclic o.place ⟨o, ho, hcloses, rfl⟩
    exact not_founded_of_cycle hcycle (h p hparsed hclean o.place hreach).1
  · intro h p hparsed hclean t hreach
    have hgood := good_parseModule m.depth m.topLevel m.function m.initializer hparsed
    have hfounded : Founded (Part p.arena) t := by
      refine hgood.tame.founded t ?_
      rintro q ⟨o, ho, hcloses, rfl⟩ hpath
      obtain ⟨root, hroot, hrefers⟩ := hreach
      have hpath' : ReflTransGen (Refers p.arena) t o.place :=
        ReflTransGen.mono (fun _ _ hpart => hpart.refers) t o.place hpath
      exact h p hparsed hclean o ho hcloses ⟨root, hroot, hrefers.trans hpath'⟩
    exact ⟨hfounded, founded_iff_ends.1 hfounded⟩

/-- A struct that contains itself, as a parameter of a function. The declaration is read up to its
closing parenthesis. -/
def selfStruct : ModuleText where
  strtod _ := 0
  text := "%T = type { i32, %T }
declare void @f(%T)
".toUTF8.toList
  topLevel toks := toks.map (·.kind) |>.head? |>.any fun kind => kind == .tokDeclare
  function := .type fun ret => .take 2 (.type fun param => .take 1
    (.func ret [param] false fun f => .keep ret (.keep param (.keep f .done))))
  initializer := .done
  depth := 4
  fuel := 8

/-- The parser accepts it, and the struct is a part of itself. -/
theorem selfStruct_unfounded : ¬ selfStruct.Meets := by
  intro h
  have hrun : (selfStruct.parsed.map fun p => (p.error, p.kept, p.arena[11]?)) =
      some (none, [13, 11, 0], some (.struct [4, 11] false (some [84]))) := by
    decide +kernel
  obtain ⟨p, hparsed, hresult⟩ := map_eq_some_iff.1 hrun
  simp only [Prod.mk.injEq] at hresult
  obtain ⟨hclean, hkept, hnode⟩ := hresult
  have hroot : ModuleText.Reachable p 11 := ⟨11, by simp [hkept], ReflTransGen.refl⟩
  have hself : Part p.arena 11 11 := ⟨_, hnode, by simp [TypeNode.parts]⟩
  exact not_founded_of_cycle (TransGen.single hself) (h p hparsed hclean 11 hroot).1

end Liric.Guarantees.FiniteLayouts
