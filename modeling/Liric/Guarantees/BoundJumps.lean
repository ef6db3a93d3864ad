import Liric.Lib.Runs
import Liric.Source.Target.X8664Jumps

/-!
# Where the jumps of x86_64 code go

A jump is emitted before its block may have a place, so its rel32 field is patched at the
end: to the block, or to late copies of the edge that end in a jump of their own. What is
shown of the fields follows from one fact for each emitted piece, kept by everything that
is emitted behind it.
-/
namespace Liric.Guarantees.BoundJumps
open Lib List
open Source.Ir (uint32Max)
open Source.X8664

variable {fixup : X86Fixup} {block field off : Nat}

/-- The four bytes of a field; what was never written is 0. -/
def rel32 (c : JumpCtx) (field : Nat) : BitVec 32 :=
  match c.rels.lookup field with
  | some place => BitVec.ofInt 32 (place - (field + 4))
  | none => 0

/-- The target that the processor decodes from a field. -/
def goesTo (c : JumpCtx) (field : Nat) : Int := field + 4 + (rel32 c field).toInt

/-- The block that the terminator of a jump names. -/
def jumpOf (e : Emitted) : Option Nat :=
  match e.piece with
  | .code _ => none
  | .jmp block => some block
  | .jcc block => some block

/-- The blocks that the jumps in some code are for. -/
def blocksIn (emitted : List Emitted) : List Nat :=
  emitted.filterMap jumpOf

/-- Code without jumps from `start` on that ends in a jump for `block`, whose field is
`field`. -/
def Path (c : JumpCtx) (start field block : Nat) : Prop :=
  ∃ bytes, ⟨start, .code bytes⟩ ∈ c.emitted ∧ ⟨start + bytes, .jmp block⟩ ∈ c.emitted ∧
    field = start + bytes + 1

/-- A jump goes to the entry of its block, or to copies that end in a jump to it. -/
def Arrives (c : JumpCtx) (field block entry : Nat) : Prop :=
  goesTo c field = entry ∨
    ∃ start field', goesTo c field = (start : Nat) ∧ Path c start field' block ∧
      goesTo c field' = entry

/-- All jumps arrive. A conditional jump goes to the copies of its edge, which end in a jump
that arrives. -/
structure Bound (c : JumpCtx) : Prop where
  jmp : ∀ off block, ⟨off, .jmp block⟩ ∈ c.emitted →
    ∃ entry, c.blockEntryOffsets.lookup block = some entry ∧ Arrives c (off + 1) block entry
  jcc : ∀ off block, ⟨off, .jcc block⟩ ∈ c.emitted →
    ∃ entry start field, c.blockEntryOffsets.lookup block = some entry ∧
      goesTo c (off + 2) = (start : Nat) ∧ Path c start field block ∧ Arrives c field block entry

def blocksOf : Term → List Nat
  | .leave _ => []
  | .br target _ => [target]
  | .condbr trueId falseId .. => [trueId, falseId]

/-- The blocks that the terminators of a stream name. -/
def named (calls : List StreamCall) : List Nat :=
  calls.flatMap fun call =>
    match call with
    | .emit (.term term) => blocksOf term
    | _ => []

/-- Every block that a terminator names is set. -/
def AllSet (calls : List StreamCall) : Prop := ∀ block ∈ named calls, .setBlock block ∈ calls

section Growing
variable {c c' c'' : JumpCtx}

/-- Code is added behind `c.pos`, and nothing in front of it is patched. -/
structure Grows (c c' : JumpCtx) : Prop where
  emitted : ∃ more, c'.emitted = c.emitted ++ more
  fixups : ∃ more, c'.fixups = c.fixups ++ more ∧ ∀ fixup ∈ more, c.pos ≤ fixup.pos
  rels : ∀ field, field + 4 ≤ c.pos → c'.rels.lookup field = c.rels.lookup field
  pos : c.pos ≤ c'.pos
  buflen : c'.buflen = c.buflen
  entries : c'.blockEntryOffsets = c.blockEntryOffsets
  deferred : c'.deferred = c.deferred

theorem Grows.refl (c : JumpCtx) : Grows c c where
  emitted := ⟨[], by simp⟩
  fixups := ⟨[], by simp, by simp⟩
  rels _ _ := rfl
  pos := le_rfl
  buflen := rfl
  entries := rfl
  deferred := rfl

theorem Grows.trans (h : Grows c c') (h' : Grows c' c'') : Grows c c'' where
  emitted := by
    obtain ⟨more, hmore⟩ := h.emitted
    obtain ⟨more', hmore'⟩ := h'.emitted
    exact ⟨more ++ more', by rw [hmore', hmore, append_assoc]⟩
  fixups := by
    obtain ⟨more, hmore, hpos⟩ := h.fixups
    obtain ⟨more', hmore', hpos'⟩ := h'.fixups
    refine ⟨more ++ more', by rw [hmore', hmore, append_assoc], fun fixup hfixup => ?_⟩
    rcases mem_append.1 hfixup with hold | hnew
    · exact hpos fixup hold
    · exact le_trans h.pos (hpos' fixup hnew)
  rels field hfield := (h'.rels field (le_trans hfield h.pos)).trans (h.rels field hfield)
  pos := le_trans h.pos h'.pos
  buflen := h'.buflen.trans h.buflen
  entries := h'.entries.trans h.entries
  deferred := h'.deferred.trans h.deferred

theorem Grows.mem (h : Grows c c') {e : Emitted} (he : e ∈ c.emitted) : e ∈ c'.emitted := by
  obtain ⟨more, hmore⟩ := h.emitted
  rw [hmore]
  exact mem_append_left _ he

theorem Grows.mem_fixups (h : Grows c c') (hfixup : fixup ∈ c.fixups) : fixup ∈ c'.fixups := by
  obtain ⟨more, hmore, -⟩ := h.fixups
  rw [hmore]
  exact mem_append_left _ hfixup

theorem Grows.blocks (h : Grows c c') (hblock : block ∈ blocksIn c.emitted) :
    block ∈ blocksIn c'.emitted := by
  obtain ⟨e, he, hjump⟩ := mem_filterMap.1 hblock
  exact mem_filterMap.2 ⟨e, h.mem he, hjump⟩

section
variable (c : JumpCtx)

theorem lookup_writeRel_self (place : Nat) (hfit : field + 4 ≤ c.buflen) :
    (c.writeRel field place).rels.lookup field = some place := by
  rw [JumpCtx.writeRel, if_pos hfit]
  exact lookup_cons_self

theorem lookup_writeRel_ne {other : Nat} (place : Nat) (hne : other ≠ field) :
    (c.writeRel field place).rels.lookup other = c.rels.lookup other := by
  unfold JumpCtx.writeRel
  split
  · rw [lookup_cons, beq_false_of_ne hne]
  · rfl

variable (field place : Nat)

@[simp] theorem emitted_writeRel : (c.writeRel field place).emitted = c.emitted := by
  unfold JumpCtx.writeRel
  split <;> rfl

@[simp] theorem fixups_writeRel : (c.writeRel field place).fixups = c.fixups := by
  unfold JumpCtx.writeRel
  split <;> rfl

@[simp] theorem pos_writeRel : (c.writeRel field place).pos = c.pos := by
  unfold JumpCtx.writeRel
  split <;> rfl

@[simp] theorem buflen_writeRel : (c.writeRel field place).buflen = c.buflen := by
  unfold JumpCtx.writeRel
  split <;> rfl

@[simp] theorem entries_writeRel :
    (c.writeRel field place).blockEntryOffsets = c.blockEntryOffsets := by
  unfold JumpCtx.writeRel
  split <;> rfl

@[simp] theorem deferred_writeRel : (c.writeRel field place).deferred = c.deferred := by
  unfold JumpCtx.writeRel
  split <;> rfl

@[simp] theorem phiCopies_writeRel : (c.writeRel field place).phiCopies = c.phiCopies := by
  unfold JumpCtx.writeRel
  split <;> rfl

theorem grows_put (piece : Piece) : Grows c (c.put piece) where
  emitted := ⟨_, rfl⟩
  fixups := ⟨[], (append_nil _).symm, by simp⟩
  rels _ _ := rfl
  pos := Nat.le_add_right ..
  buflen := rfl
  entries := rfl
  deferred := rfl

theorem grows_emitPhiCopies (pred succ : Nat) (only : Bool) (bytes : Nat) :
    Grows c (c.emitPhiCopies pred succ only bytes) where
  emitted := ⟨_, rfl⟩
  fixups := ⟨[], (append_nil _).symm, by simp⟩
  rels _ _ := rfl
  pos := Nat.le_add_right ..
  buflen := rfl
  entries := rfl
  deferred := rfl

end

theorem Grows.writeRel (h : Grows c c') (place : Nat) (hfield : c.pos < field + 4) :
    Grows c (c'.writeRel field place) where
  emitted := by
    rw [emitted_writeRel]
    exact h.emitted
  fixups := by
    rw [fixups_writeRel]
    exact h.fixups
  rels other hother := (lookup_writeRel_ne c' place (by omega)).trans (h.rels other hother)
  pos := by
    rw [pos_writeRel]
    exact h.pos
  buflen := (buflen_writeRel ..).trans h.buflen
  entries := (entries_writeRel ..).trans h.entries
  deferred := (deferred_writeRel ..).trans h.deferred

theorem grows_emitJmpSourced (c : JumpCtx) (target source : Nat) :
    Grows c (c.emitJmpSourced target source) := by
  have hput := grows_put c (.jmp target)
  have hgrows : Grows c { c.put (.jmp target) with
      fixups := c.fixups ++ [⟨c.pos + 1, c.blockEntryOffsets.lookup target, target, source⟩] } :=
    { hput with fixups := ⟨[_], rfl, by simp⟩ }
  exact hgrows.writeRel _ (by omega)

theorem grows_emitJcc (c : JumpCtx) (block : Nat) : Grows c (c.emitJcc block) :=
  (grows_put c (.jcc block)).writeRel _ (by omega)

end Growing

/-- A jump behind its fixup, a conditional jump behind the path that it goes to. -/
def Ok (c : JumpCtx) (e : Emitted) : Prop :=
  e.off + e.piece.size ≤ c.pos ∧
    match e.piece with
    | .code _ => True
    | .jmp block => ∃ fixup ∈ c.fixups, fixup.pos = e.off + 1 ∧ fixup.target = block
    | .jcc block =>
      (∃ start field, c.rels.lookup (e.off + 2) = some start ∧ Path c start field block) ∧
        ∀ fixup ∈ c.fixups, fixup.pos ≠ e.off + 2

/-- A conditional jump at `hole`, whose path is not known yet. -/
def Open (hole : Option Nat) (e : Emitted) : Prop :=
  hole = some e.off ∧ ∃ block, e.piece = .jcc block

/-- Every piece is right but an open one. -/
structure Linked (hole : Option Nat) (c : JumpCtx) : Prop where
  items : ∀ e ∈ c.emitted, ¬ Open hole e → Ok c e
  rising : c.fixups.Pairwise fun a b => a.pos < b.pos
  fixups : ∀ fixup ∈ c.fixups, fixup.pos + 4 ≤ c.pos ∧
    ∀ off, fixup.targetPosHint = some off → c.blockEntryOffsets.lookup fixup.target = some off
  entries : ∀ block off, c.blockEntryOffsets.lookup block = some off → off ≤ c.pos
  targets : ∀ fixup ∈ c.fixups, fixup.target ∈ blocksIn c.emitted

section Linking
variable {c c' : JumpCtx} {hole : Option Nat}

theorem Path.grows {start : Nat} (h : Path c start field block) (hgrows : Grows c c') :
    Path c' start field block := by
  obtain ⟨bytes, hcode, hjmp, hfield⟩ := h
  exact ⟨bytes, hgrows.mem hcode, hgrows.mem hjmp, hfield⟩

theorem Ok.grows {e : Emitted} (h : Ok c e) (hgrows : Grows c c') : Ok c' e := by
  obtain ⟨off, piece⟩ := e
  refine ⟨le_trans h.1 hgrows.pos, ?_⟩
  have hsize := h.1
  cases piece with
  | code bytes => trivial
  | jmp block =>
    obtain ⟨fixup, hfixup, hrest⟩ := h.2
    exact ⟨fixup, hgrows.mem_fixups hfixup, hrest⟩
  | jcc block =>
    simp only [Piece.size] at hsize
    obtain ⟨⟨start, field, hrel, hpath⟩, hfixups⟩ := h.2
    refine ⟨⟨start, field, (hgrows.rels _ (by simp only; omega)).trans hrel, hpath.grows hgrows⟩, ?_⟩
    obtain ⟨more, hmore, hpos⟩ := hgrows.fixups
    intro fixup hfixup
    rw [hmore] at hfixup
    rcases mem_append.1 hfixup with hold | hnew
    · exact hfixups fixup hold
    · have hlate := hpos fixup hnew
      simp only
      omega

/-- What was right stays right behind more code, when the new pieces are. -/
theorem Linked.grown (h : Linked hole c) (hgrows : Grows c c')
    (hitems : ∀ e ∈ c'.emitted, e ∈ c.emitted ∨ (¬ Open hole e → Ok c' e))
    (hfixups : c'.fixups = c.fixups ∨ ∃ fixup, c'.fixups = c.fixups ++ [fixup] ∧
      c.pos ≤ fixup.pos ∧ fixup.pos + 4 ≤ c'.pos ∧
      fixup.targetPosHint = c.blockEntryOffsets.lookup fixup.target ∧
      fixup.target ∈ blocksIn c'.emitted) : Linked hole c' where
  items e he hhole := by
    rcases hitems e he with hold | hnew
    · exact (h.items e hold hhole).grows hgrows
    · exact hnew hhole
  rising := by
    rcases hfixups with hsame | ⟨fixup, hmore, hpos, -, -, -⟩
    · rw [hsame]
      exact h.rising
    · rw [hmore]
      refine pairwise_append.2 ⟨h.rising, pairwise_singleton .., ?_⟩
      intro old hold new hnew
      rw [mem_singleton.1 hnew]
      have := (h.fixups old hold).1
      omega
  fixups := by
    have hkept : ∀ fixup ∈ c.fixups, fixup.pos + 4 ≤ c'.pos ∧ ∀ off,
        fixup.targetPosHint = some off → c'.blockEntryOffsets.lookup fixup.target = some off := by
      intro fixup hfixup
      obtain ⟨hpos, hhint⟩ := h.fixups fixup hfixup
      rw [hgrows.entries]
      exact ⟨le_trans hpos hgrows.pos, hhint⟩
    rcases hfixups with hsame | ⟨fixup, hmore, -, hpos, hhint, -⟩
    · rw [hsame]
      exact hkept
    · rw [hmore]
      intro fixup' hfixup'
      rcases mem_append.1 hfixup' with hold | hnew
      · exact hkept fixup' hold
      · rw [mem_singleton.1 hnew, hgrows.entries, hhint]
        exact ⟨hpos, fun _ hoff => hoff⟩
  entries block off hoff := by
    rw [hgrows.entries] at hoff
    exact le_trans (h.entries block off hoff) hgrows.pos
  targets := by
    rcases hfixups with hsame | ⟨fixup, hmore, -, -, -, htarget⟩
    · rw [hsame]
      exact fun fixup hfixup => hgrows.blocks (h.targets fixup hfixup)
    · rw [hmore]
      intro fixup' hfixup'
      rcases mem_append.1 hfixup' with hold | hnew
      · exact hgrows.blocks (h.targets fixup' hold)
      · rw [mem_singleton.1 hnew]
        exact htarget

theorem Linked.code (h : Linked hole c) {bytes : Nat} (hgrows : Grows c c')
    (hemitted : c'.emitted = c.emitted ++ [⟨c.pos, .code bytes⟩]) (hpos : c'.pos = c.pos + bytes)
    (hfixups : c'.fixups = c.fixups) : Linked hole c' := by
  refine h.grown hgrows ?_ (.inl hfixups)
  intro e he
  rw [hemitted] at he
  rcases mem_append.1 he with hold | hnew
  · exact .inl hold
  · rw [mem_singleton.1 hnew]
    exact .inr fun _ => ⟨le_of_eq hpos.symm, trivial⟩

theorem Linked.put (h : Linked hole c) (bytes : Nat) : Linked hole (c.put (.code bytes)) :=
  h.code (grows_put ..) rfl rfl rfl

theorem Linked.emitPhiCopies (h : Linked hole c) (pred succ : Nat) (only : Bool) (bytes : Nat) :
    Linked hole (c.emitPhiCopies pred succ only bytes) :=
  h.code (grows_emitPhiCopies ..) rfl rfl rfl

theorem Linked.emitJmpSourced (h : Linked hole c) (target source : Nat) :
    Linked hole (c.emitJmpSourced target source) := by
  have hfixups : (c.emitJmpSourced target source).fixups =
      c.fixups ++ [⟨c.pos + 1, c.blockEntryOffsets.lookup target, target, source⟩] := by
    simp [JumpCtx.emitJmpSourced, JumpCtx.put]
  have hpos : (c.emitJmpSourced target source).pos = c.pos + 5 := by
    simp [JumpCtx.emitJmpSourced, JumpCtx.put, Piece.size]
  have hemitted : (c.emitJmpSourced target source).emitted =
      c.emitted ++ [⟨c.pos, .jmp target⟩] := by
    simp [JumpCtx.emitJmpSourced, JumpCtx.put]
  refine h.grown (grows_emitJmpSourced ..) ?_ (.inr ⟨_, hfixups, ?_, ?_, rfl, ?_⟩)
  · intro e he
    rw [hemitted] at he
    rcases mem_append.1 he with hold | hnew
    · exact .inl hold
    · rw [mem_singleton.1 hnew]
      refine .inr fun _ => ⟨le_of_eq hpos.symm, ?_⟩
      simp only [hfixups]
      exact ⟨_, mem_append_right _ mem_cons_self, rfl, rfl⟩
  · exact Nat.le_add_right ..
  · rw [hpos]
  · rw [hemitted]
    exact mem_filterMap.2 ⟨_, mem_append_right _ mem_cons_self, rfl⟩

/-- A conditional jump is wrong until its path is known. -/
theorem Linked.emitJcc (h : Linked none c) (block : Nat) :
    Linked (some c.pos) (c.emitJcc block) := by
  have hweak : Linked (some c.pos) c :=
    ⟨fun e he _ => h.items e he (by simp [Open]), h.rising, h.fixups, h.entries, h.targets⟩
  refine hweak.grown (grows_emitJcc ..) ?_ (.inl (by simp [JumpCtx.emitJcc, JumpCtx.put]))
  intro e he
  have hemitted : (c.emitJcc block).emitted = c.emitted ++ [⟨c.pos, .jcc block⟩] := by
    simp [JumpCtx.emitJcc, JumpCtx.put]
  rw [hemitted] at he
  rcases mem_append.1 he with hold | hnew
  · exact .inl hold
  · rw [mem_singleton.1 hnew]
    exact .inr fun hclosed => absurd ⟨rfl, block, rfl⟩ hclosed

/-- Writing the field of the jump at `off` leaves the others right. -/
theorem Linked.writeRel (h : Linked (some off) c) (place : Nat) :
    Linked (some off) (c.writeRel (off + 2) place) where
  items e he hhole := by
    rw [emitted_writeRel] at he
    have hok := h.items e he hhole
    obtain ⟨eoff, piece⟩ := e
    refine ⟨by rw [pos_writeRel]; exact hok.1, ?_⟩
    cases piece with
    | code bytes => trivial
    | jmp block =>
      rw [fixups_writeRel]
      exact hok.2
    | jcc block =>
      have hne : eoff + 2 ≠ off + 2 := by
        intro heq
        exact hhole ⟨congrArg some (Nat.add_right_cancel heq).symm, block, rfl⟩
      obtain ⟨⟨start, field, hrel, bytes, hcode, hjmp, hfield⟩, hfixups⟩ := hok.2
      refine ⟨⟨start, field, (lookup_writeRel_ne c place hne).trans hrel, bytes, ?_, ?_, hfield⟩, ?_⟩
      · rw [emitted_writeRel]
        exact hcode
      · rw [emitted_writeRel]
        exact hjmp
      · rw [fixups_writeRel]
        exact hfixups
  rising := by
    rw [fixups_writeRel]
    exact h.rising
  fixups := by
    rw [fixups_writeRel, pos_writeRel, entries_writeRel]
    exact h.fixups
  entries := by
    rw [entries_writeRel, pos_writeRel]
    exact h.entries
  targets := by
    rw [fixups_writeRel, emitted_writeRel]
    exact h.targets

theorem Linked.fill (h : Linked (some off) c)
    (hok : ∀ block, ⟨off, .jcc block⟩ ∈ c.emitted → Ok c ⟨off, .jcc block⟩) : Linked none c where
  items e he _ := by
    by_cases hopen : Open (some off) e
    · obtain ⟨eoff, piece⟩ := e
      obtain ⟨hoff, block, hpiece⟩ := hopen
      cases hoff
      simp only at hpiece
      subst hpiece
      exact hok block he
    · exact h.items e he hopen
  rising := h.rising
  fixups := h.fixups
  entries := h.entries
  targets := h.targets

theorem grows_emitCondbr (c : JumpCtx) (blockId trueId falseId test falseCopies trueCopies : Nat) :
    Grows c (c.emitCondbr blockId trueId falseId test falseCopies trueCopies) := by
  have hfalse := (((grows_put c (.code test)).trans (grows_emitJcc _ trueId)).trans
    (grows_emitPhiCopies _ blockId falseId false falseCopies)).trans
      (grows_emitJmpSourced _ falseId blockId)
  have hfield : c.pos < (c.put (.code test)).pos + 2 + 4 := by
    simp only [JumpCtx.put]
    omega
  exact ((hfalse.writeRel _ hfield).trans (grows_emitPhiCopies ..)).trans (grows_emitJmpSourced ..)

/-- The two jumps of a CONDBR, and the test that chooses between them. -/
theorem Linked.emitCondbr (h : Linked none c) (blockId trueId falseId test falseCopies trueCopies : Nat)
    (hfit : (c.emitCondbr blockId trueId falseId test falseCopies trueCopies).pos ≤ c.buflen) :
    Linked none (c.emitCondbr blockId trueId falseId test falseCopies trueCopies) := by
  obtain ⟨c₁, hc₁⟩ : ∃ c₁, c₁ = c.put (.code test) := ⟨_, rfl⟩
  obtain ⟨c₂, hc₂⟩ : ∃ c₂, c₂ = c₁.emitJcc trueId := ⟨_, rfl⟩
  obtain ⟨c₃, hc₃⟩ : ∃ c₃, c₃ = c₂.emitPhiCopies blockId falseId false falseCopies := ⟨_, rfl⟩
  obtain ⟨c₄, hc₄⟩ : ∃ c₄, c₄ = c₃.emitJmpSourced falseId blockId := ⟨_, rfl⟩
  obtain ⟨c₅, hc₅⟩ : ∃ c₅, c₅ = c₄.writeRel (c₁.pos + 2) c₄.pos := ⟨_, rfl⟩
  obtain ⟨c₆, hc₆⟩ : ∃ c₆, c₆ = c₅.emitPhiCopies blockId trueId false trueCopies := ⟨_, rfl⟩
  obtain ⟨c₇, hc₇⟩ : ∃ c₇, c₇ = c₆.emitJmpSourced trueId blockId := ⟨_, rfl⟩
  have hwhole : c.emitCondbr blockId trueId falseId test falseCopies trueCopies = c₇ := by
    subst hc₇ hc₆ hc₅ hc₄ hc₃ hc₂ hc₁
    rfl
  rw [hwhole] at hfit ⊢
  -- the places
  have hpos₂ : c₂.pos = c₁.pos + 6 := by simp [hc₂, JumpCtx.emitJcc, JumpCtx.put, Piece.size]
  have hpos₃ : c₃.pos = c₂.pos + falseCopies := by rw [hc₃]; rfl
  have hpos₄ : c₄.pos = c₃.pos + 5 := by simp [hc₄, JumpCtx.emitJmpSourced, JumpCtx.put, Piece.size]
  have hpos₅ : c₅.pos = c₄.pos := by simp [hc₅]
  have hpos₆ : c₆.pos = c₅.pos + trueCopies := by rw [hc₆]; rfl
  have hpos₇ : c₇.pos = c₆.pos + 5 := by simp [hc₇, JumpCtx.emitJmpSourced, JumpCtx.put, Piece.size]
  -- growth
  have hgrows₁ : Grows c c₁ := hc₁ ▸ grows_put c _
  have hgrows₄ : Grows c₁ c₄ := by
    have h₂ : Grows c₁ c₂ := hc₂ ▸ grows_emitJcc c₁ _
    have h₃ : Grows c₂ c₃ := hc₃ ▸ grows_emitPhiCopies c₂ _ _ _ _
    have h₄ : Grows c₃ c₄ := hc₄ ▸ grows_emitJmpSourced c₃ _ _
    exact (h₂.trans h₃).trans h₄
  have hgrows₇ : Grows c₅ c₇ :=
    (hc₆ ▸ grows_emitPhiCopies c₅ blockId trueId false trueCopies : Grows c₅ c₆).trans
      (hc₇ ▸ grows_emitJmpSourced c₆ trueId blockId)
  have hlinked₁ : Linked none c₁ := hc₁ ▸ h.put test
  have hlinked₄ : Linked (some c₁.pos) c₄ := by
    rw [hc₄, hc₃, hc₂]
    exact ((hlinked₁.emitJcc trueId).emitPhiCopies _ _ _ _).emitJmpSourced _ _
  have hlinked₇ : Linked (some c₁.pos) c₇ := by
    rw [hc₇, hc₆, hc₅]
    exact ((hlinked₄.writeRel c₄.pos).emitPhiCopies _ _ _ _).emitJmpSourced _ _
  -- the pieces and the fixups, one after the other
  have hemitted₂ : c₂.emitted = c₁.emitted ++ [⟨c₁.pos, .jcc trueId⟩] := by
    simp [hc₂, JumpCtx.emitJcc, JumpCtx.put]
  have hemitted₅ : c₅.emitted =
      c₂.emitted ++ [⟨c₂.pos, .code falseCopies⟩, ⟨c₃.pos, .jmp falseId⟩] := by
    simp [hc₅, hc₄, hc₃, JumpCtx.emitJmpSourced, JumpCtx.emitPhiCopies, JumpCtx.put]
  have hemitted₇ : c₇.emitted =
      c₅.emitted ++ [⟨c₅.pos, .code trueCopies⟩, ⟨c₆.pos, .jmp trueId⟩] := by
    simp [hc₇, hc₆, JumpCtx.emitJmpSourced, JumpCtx.emitPhiCopies, JumpCtx.put]
  have hfixups₇ : ∀ fixup ∈ c₇.fixups, fixup ∈ c₁.fixups ∨ c₂.pos < fixup.pos := by
    intro fixup hfixup
    have hmem : fixup ∈ c₁.fixups ∨ fixup.pos = c₃.pos + 1 ∨ fixup.pos = c₆.pos + 1 := by
      simp only [hc₇, hc₆, hc₅, hc₄, hc₃, hc₂, JumpCtx.emitJmpSourced, JumpCtx.emitPhiCopies,
        JumpCtx.emitJcc, JumpCtx.put, fixups_writeRel, mem_append, mem_singleton]
        at hfixup ⊢
      rcases hfixup with (hold | rfl) | rfl
      · exact .inl hold
      · exact .inr (.inl rfl)
      · exact .inr (.inr rfl)
    rcases hmem with hold | hnew | hnew
    · exact .inl hold
    · exact .inr (by omega)
    · exact .inr (by omega)
  refine hlinked₇.fill fun block hblock => ⟨by simp only [Piece.size]; omega, ⟨c₄.pos, c₆.pos + 1, ?_, ?_⟩, ?_⟩
  · rw [hgrows₇.rels _ (by simp only; omega), hc₅]
    refine lookup_writeRel_self c₄ c₄.pos ?_
    rw [hgrows₄.buflen, hgrows₁.buflen]
    simp only
    omega
  · have hold : block = trueId := by
      rw [hemitted₇, hemitted₅, hemitted₂] at hblock
      simp only [append_assoc, mem_append, mem_cons, Emitted.mk.injEq,
        Piece.jcc.injEq, reduceCtorEq, and_false, not_mem_nil, or_false] at hblock
      rcases hblock with hold | hnew
      · have hbelow := (hlinked₁.items _ hold (by simp [Open])).1
        simp only [Piece.size] at hbelow
        omega
      · simpa using hnew
    refine ⟨trueCopies, ?_, ?_, ?_⟩
    · rw [hemitted₇, hpos₅]
      simp
    · rw [hemitted₇, ← hpos₅, ← hpos₆, hold]
      simp
    · omega
  · intro fixup hfixup
    rcases hfixups₇ fixup hfixup with hold | hnew
    · have := (hlinked₁.fixups fixup hold).1
      simp only
      omega
    · simp only
      omega

end Linking

/-- The blocks of the terminator that waits. -/
def waiting (c : JumpCtx) : List Nat :=
  match c.deferred with
  | none => []
  | some dt => blocksOf dt.term

section Calls
variable {c c' : JumpCtx}

theorem grows_emitTerm (c : JumpCtx) (dt : DeferredTerm) : Grows c (c.emitTerm dt) := by
  unfold JumpCtx.emitTerm
  cases dt.term with
  | leave bytes => exact grows_put ..
  | br target copies => exact (grows_emitPhiCopies ..).trans (grows_emitJmpSourced ..)
  | condbr trueId falseId test falseCopies trueCopies => exact grows_emitCondbr ..

theorem Linked.emitTerm (h : Linked none c) (dt : DeferredTerm)
    (hfit : (c.emitTerm dt).pos ≤ c.buflen) : Linked none (c.emitTerm dt) := by
  unfold JumpCtx.emitTerm at *
  cases hterm : dt.term with
  | leave bytes => exact h.put bytes
  | br target copies => exact (h.emitPhiCopies ..).emitJmpSourced ..
  | condbr trueId falseId test falseCopies trueCopies =>
    rw [hterm] at hfit
    exact h.emitCondbr _ _ _ _ _ _ hfit

theorem mem_blocksIn_emitTerm (c : JumpCtx) (dt : DeferredTerm) (block : Nat) :
    block ∈ blocksIn (c.emitTerm dt).emitted ↔
      block ∈ blocksIn c.emitted ∨ block ∈ blocksOf dt.term := by
  have hadd : ∃ more, (c.emitTerm dt).emitted = c.emitted ++ more ∧
      (block ∈ blocksIn more ↔ block ∈ blocksOf dt.term) := by
    unfold JumpCtx.emitTerm
    cases dt.term with
    | leave bytes => exact ⟨_, rfl, by simp [blocksIn, jumpOf, blocksOf]⟩
    | br target copies =>
      refine ⟨_, by simp only [JumpCtx.emitPhiCopies, JumpCtx.emitJmpSourced, JumpCtx.put,
        emitted_writeRel, append_assoc]; rfl, ?_⟩
      simp [blocksIn, jumpOf, blocksOf, eq_comm]
    | condbr trueId falseId test falseCopies trueCopies =>
      refine ⟨_, by simp only [JumpCtx.emitCondbr, JumpCtx.emitPhiCopies, JumpCtx.emitJmpSourced,
        JumpCtx.emitJcc, JumpCtx.put, emitted_writeRel, append_assoc]; rfl, ?_⟩
      simp [blocksIn, jumpOf, blocksOf]
      tauto
  obtain ⟨more, hmore, hblocks⟩ := hadd
  rw [hmore, blocksIn, filterMap_append, mem_append]
  exact or_congr_right hblocks

/-- A flush empties the place of the terminator that waits. -/
structure Flushed (c c' : JumpCtx) : Prop where
  grows : Grows { c with deferred := none } c'
  blocks : ∀ block, block ∈ blocksIn c'.emitted ↔ block ∈ blocksIn c.emitted ∨ block ∈ waiting c

theorem flush_flushed (c : JumpCtx) : Flushed c c.flush := by
  unfold JumpCtx.flush
  cases hdeferred : c.deferred with
  | none =>
    refine ⟨?_, by simp [waiting, hdeferred]⟩
    have hsame : { c with deferred := none } = c := by rw [← hdeferred]
    rw [hsame]
    exact Grows.refl c
  | some dt =>
    refine ⟨grows_emitTerm .., fun block => ?_⟩
    rw [waiting, hdeferred]
    exact mem_blocksIn_emitTerm ..

theorem Linked.undeferred (h : Linked none c) : Linked none { c with deferred := none } :=
  ⟨h.items, h.rising, h.fixups, h.entries, h.targets⟩

theorem Linked.flush (h : Linked none c) (hfit : c.flush.pos ≤ c.buflen) : Linked none c.flush := by
  unfold JumpCtx.flush at *
  cases hdeferred : c.deferred with
  | none => exact h
  | some dt =>
    rw [hdeferred] at hfit
    exact h.undeferred.emitTerm dt hfit

/-- The blocks of all jumps so far, the waiting terminator's included. -/
def Names (c : JumpCtx) (block : Nat) : Prop := block ∈ blocksIn c.emitted ∨ block ∈ waiting c

/-- A flush, or nothing. -/
structure Settled (c c' : JumpCtx) : Prop where
  pos : c.pos ≤ c'.pos
  buflen : c'.buflen = c.buflen
  entries : c'.blockEntryOffsets = c.blockEntryOffsets
  names : ∀ block, Names c' block ↔ Names c block

theorem waiting_flush (c : JumpCtx) : waiting c.flush = [] := by
  have hdeferred : c.flush.deferred = none := (flush_flushed c).grows.deferred
  rw [waiting, hdeferred]

theorem flush_settled (c : JumpCtx) : Settled c c.flush where
  pos := (flush_flushed c).grows.pos
  buflen := (flush_flushed c).grows.buflen
  entries := (flush_flushed c).grows.entries
  names block := by
    rw [Names, waiting_flush, (flush_flushed c).blocks]
    simp [Names]

theorem flushIf_settled (c : JumpCtx) (p : Bool) : Settled c (if p then c.flush else c) := by
  cases p with
  | true => exact flush_settled c
  | false => exact ⟨le_rfl, rfl, rfl, fun _ => Iff.rfl⟩

theorem Linked.flushIf (h : Linked none c) (p : Bool)
    (hfit : (if p then c.flush else c).pos ≤ c.buflen) :
    Linked none (if p then c.flush else c) := by
  cases p with
  | true => exact h.flush hfit
  | false => exact h

theorem names_put (c : JumpCtx) (bytes block : Nat) :
    Names (c.put (.code bytes)) block ↔ Names c block := by
  simp [Names, waiting, JumpCtx.put, blocksIn, jumpOf]

/-- What one call does to places, blocks and names. -/
structure Called (c c' : JumpCtx) (call : StreamCall) : Prop where
  pos : c.pos ≤ c'.pos
  buflen : c'.buflen = c.buflen
  names : ∀ block, Names c' block ↔ Names c block ∨ block ∈ named [call]
  set : ∀ block, (c'.blockEntryOffsets.lookup block).isSome ↔
    (c.blockEntryOffsets.lookup block).isSome ∨ call = .setBlock block
  small : ∀ block, call = .setBlock block → block < 2 ^ 31
  linked : Linked none c → c'.pos ≤ c.buflen → Linked none c'

theorem setBlock_called {id : Nat} (h : c.setBlock id = some c') : Called c c' (.setBlock id) := by
  unfold JumpCtx.setBlock at h
  obtain ⟨hsmall, h⟩ := Option.ite_none_left_eq_some.1 h
  cases h
  have hid : ∀ block, StreamCall.setBlock id = .setBlock block → block < 2 ^ 31 := by
    intro block heq
    rw [← StreamCall.setBlock.inj heq]
    exact Nat.lt_of_not_le hsmall
  generalize (c.deferred.any fun dt => c.currentBlock.isNone || dt.blockId != id) = p
  have hsettled := flushIf_settled c p
  have hlinked : Linked none c → (if p then c.flush else c).pos ≤ c.buflen →
    Linked none (if p then c.flush else c) := fun hlinked => hlinked.flushIf p
  generalize (if p then c.flush else c) = c₁ at hsettled hlinked
  cases hlookup : c₁.blockEntryOffsets.lookup id with
  | some off =>
    refine ⟨hsettled.pos, hsettled.buflen, fun block => ?_, fun block => ?_, hid, fun h hfit => ?_⟩
    · rw [show named [.setBlock id] = [] from rfl, mem_nil_iff, or_false]
      exact hsettled.names block
    · rw [hsettled.entries] at hlookup ⊢
      refine ⟨.inl, fun hor => hor.elim (fun hold => hold) fun heq => ?_⟩
      obtain rfl := StreamCall.setBlock.inj heq
      rw [hlookup]
      rfl
    · have h₁ := hlinked h hfit
      exact ⟨h₁.items, h₁.rising, h₁.fixups, h₁.entries, h₁.targets⟩
  | none =>
    have hcons : ∀ block, ((id, c₁.pos) :: c₁.blockEntryOffsets).lookup block =
        if block = id then some c₁.pos else c₁.blockEntryOffsets.lookup block := by
      intro block
      by_cases hid : block = id
      · rw [if_pos hid, hid, lookup_cons_self]
      · rw [if_neg hid, lookup_cons, beq_false_of_ne hid]
    refine ⟨hsettled.pos, hsettled.buflen, fun block => ?_, fun block => ?_, hid, fun h hfit => ?_⟩
    · rw [show named [.setBlock id] = [] from rfl, mem_nil_iff, or_false]
      exact hsettled.names block
    · simp only [StreamCall.setBlock.injEq, hsettled.entries]
      by_cases hid : block = id
      · simp [hid]
      · simp [hid, Ne.symm hid]
    · have h₁ := hlinked h hfit
      refine ⟨h₁.items, h₁.rising, fun fixup hfixup => ⟨(h₁.fixups fixup hfixup).1, ?_⟩, ?_,
        h₁.targets⟩
      · intro off hoff
        have hold := (h₁.fixups fixup hfixup).2 off hoff
        have hne : fixup.target ≠ id := by
          intro heq
          rw [heq, hlookup] at hold
          cases hold
        simp only [hcons, if_neg hne]
        exact hold
      · intro block off hoff
        simp only [hcons] at hoff
        split at hoff
        · exact le_of_eq (Option.some.inj hoff).symm
        · exact h₁.entries block off hoff

theorem emitInst_called {inst : StreamInst} (h : c.emitInst inst = some c') :
    Called c c' (.emit inst) := by
  unfold JumpCtx.emitInst at h
  obtain ⟨cur, -, rfl⟩ := Option.map_eq_some_iff.1 h
  have hput : ∀ (p : Bool) bytes, named [.emit inst] = [] →
      Called c ((if p then c.flush else c).put (.code bytes)) (.emit inst) := by
    intro p bytes hnamed
    have hsettled := flushIf_settled c p
    have hbound := Nat.le_add_right (if p then c.flush else c).pos (Piece.code bytes).size
    refine ⟨le_trans hsettled.pos hbound, hsettled.buflen, fun block => ?_, fun block => ?_,
      by simp, fun h hfit => ?_⟩
    · rw [hnamed, mem_nil_iff, or_false, names_put]
      exact hsettled.names block
    · simp [JumpCtx.put, hsettled.entries]
    · exact (h.flushIf p (le_trans hbound hfit)).put bytes
  cases inst with
  | phi => exact ⟨le_rfl, rfl, by simp [named], by simp, by simp, fun h _ => h⟩
  | alloca bytes => exact hput _ bytes rfl
  | other bytes => exact hput true bytes rfl
  | term term =>
    have hsettled := flush_settled c
    refine ⟨hsettled.pos, hsettled.buflen, fun block => ?_, fun block => ?_, by simp,
      fun h hfit => ?_⟩
    · have hnamed : named [.emit (.term term)] = blocksOf term := by simp [named]
      have hbefore : Names c.flush block ↔ block ∈ blocksIn c.flush.emitted := by
        rw [Names, waiting_flush]
        simp
      rw [hnamed, ← hsettled.names block, hbefore]
      exact Iff.rfl
    · simp [hsettled.entries]
    · have h₁ := h.flush hfit
      exact ⟨h₁.items, h₁.rising, h₁.fixups, h₁.entries, h₁.targets⟩

theorem call_called {call : StreamCall} (h : c.call call = some c') : Called c c' call := by
  cases call with
  | setBlock id => exact setBlock_called h
  | emit inst => exact emitInst_called h
  | addPhiCopy pred succ =>
    cases h
    refine ⟨le_rfl, rfl, fun block => ?_, fun block => ?_, by simp, fun h _ => ?_⟩
    · simp [named, Names, waiting]
    · simp
    · exact ⟨h.items, h.rising, h.fixups, h.entries, h.targets⟩

end Calls

section Runs
variable {c : JumpCtx} {calls : List StreamCall} {buflen prologue : Nat}

/-- What a run has done. -/
structure Ran (room : Nat) (calls : List StreamCall) (c : JumpCtx) : Prop where
  buflen : c.buflen = room
  names : ∀ block, Names c block ↔ block ∈ named calls
  set : ∀ block, (c.blockEntryOffsets.lookup block).isSome ↔ .setBlock block ∈ calls
  small : ∀ block, .setBlock block ∈ calls → block < 2 ^ 31
  linked : c.pos ≤ room → Linked none c

theorem ran_begin (buflen prologue : Nat) : Ran buflen [] (compileBegin buflen prologue) where
  buflen := rfl
  names block := by simp [Names, compileBegin, JumpCtx.put, blocksIn, jumpOf, waiting, named]
  set block := by simp [compileBegin, JumpCtx.put]
  small block hblock := by cases hblock
  linked _ := by
    refine Linked.put ⟨?_, .nil, ?_, ?_, ?_⟩ prologue
    · intro e he
      cases he
    · intro fixup hfixup
      cases hfixup
    · intro block off hoff
      cases hoff
    · intro fixup hfixup
      cases hfixup

theorem run_ran (hrun : runSteps JumpCtx.call (compileBegin buflen prologue) calls = some c) :
    Ran buflen calls c := by
  induction calls using reverseRecOn generalizing c with
  | nil =>
    cases hrun
    exact ran_begin buflen prologue
  | append_singleton pre call ih =>
    rw [runSteps_concat] at hrun
    obtain ⟨c₁, hpre, hcall⟩ := Option.bind_eq_some_iff.1 hrun
    have hran := ih hpre
    have hcalled := call_called hcall
    refine ⟨hcalled.buflen.trans hran.buflen, fun block => ?_, fun block => ?_, fun block hblock => ?_,
      fun hfit => ?_⟩
    · rw [hcalled.names, hran.names, named, named, named, flatMap_append, mem_append]
    · rw [hcalled.set, hran.set, mem_append, mem_singleton]
      exact or_congr_right eq_comm
    · rcases mem_append.1 hblock with hold | hnew
      · exact hran.small block hold
      · exact hcalled.small block (mem_singleton.1 hnew).symm
    · refine hcalled.linked (hran.linked (le_trans hcalled.pos hfit)) ?_
      rw [hran.buflen]
      exact hfit

end Runs

/-- A block of the function whose offset is known. -/
def IsSet (c : JumpCtx) (block : Nat) : Prop :=
  block ≠ uint32Max ∧ (c.blockEntryOffsets.lookup block).isSome

/-- A jump that was turned to a stub: its fixup is dead, and the fixup of the stub's jump
stands behind those of the stream. -/
def Turned (c : JumpCtx) (stream done off block : Nat) : Prop :=
  ∃ (i k start field : Nat) (dead live : X86Fixup), i < done ∧ c.fixups[i]? = some dead ∧
    dead.pos = off + 1 ∧ dead.target = uint32Max ∧ c.rels.lookup (off + 1) = some start ∧
    Path c start field block ∧ stream ≤ k ∧ c.fixups[k]? = some live ∧ live.pos = field ∧
    live.target = block

/-- The code when the first `done` of the `stream` fixups of the stream were looked at. -/
structure Late (stream done : Nat) (c : JumpCtx) : Prop where
  items : ∀ e ∈ c.emitted, Ok c e ∨ ∃ block, e.piece = .jmp block ∧ Turned c stream done e.off block
  rising : (c.fixups.map X86Fixup.pos).Pairwise (· < ·)
  fixups : ∀ fixup ∈ c.fixups, fixup.pos + 4 ≤ c.pos
  hints : ∀ fixup ∈ c.fixups, fixup.target ≠ uint32Max → ∀ off,
    fixup.targetPosHint = some off → c.blockEntryOffsets.lookup fixup.target = some off
  entries : ∀ block off, c.blockEntryOffsets.lookup block = some off → off ≤ c.pos
  blocks : ∀ block ∈ blocksIn c.emitted, IsSet c block
  targets : ∀ i fixup, done ≤ i → c.fixups[i]? = some fixup → IsSet c fixup.target
  many : stream ≤ c.fixups.length

section Stubs
variable {c c' : JumpCtx} {stream done : Nat}

theorem Linked.late (h : Linked none c) (hset : ∀ block ∈ blocksIn c.emitted, IsSet c block) :
    Late c.fixups.length 0 c where
  items e he := .inl (h.items e he (by simp [Open]))
  rising := pairwise_map.2 h.rising
  fixups fixup hfixup := (h.fixups fixup hfixup).1
  hints fixup hfixup _ := (h.fixups fixup hfixup).2
  entries := h.entries
  blocks := hset
  targets _ fixup _ hfixup := hset _ (h.targets fixup (mem_of_getElem? hfixup))
  many := le_rfl

theorem getElem?_pos {i : Nat} {a : X86Fixup} (ha : c.fixups[i]? = some a) :
    (c.fixups.map X86Fixup.pos)[i]? = some a.pos := by
  rw [getElem?_map, ha]
  rfl

theorem Late.same_place (h : Late stream done c) {i j : Nat} {a b : X86Fixup}
    (ha : c.fixups[i]? = some a) (hb : c.fixups[j]? = some b) (hpos : a.pos = b.pos) : i = j := by
  have hnodup : (c.fixups.map X86Fixup.pos).Nodup := h.rising.imp fun hlt => ne_of_lt hlt
  refine (List.getElem?_inj (List.getElem?_eq_some_iff.1 (getElem?_pos ha)).1 hnodup).1 ?_
  rw [getElem?_pos ha, getElem?_pos hb, hpos]

theorem Turned.grows (h : Turned c stream done off block) (hgrows : Grows c c')
    (hbelow : ∀ fixup ∈ c.fixups, fixup.pos + 4 ≤ c.pos) : Turned c' stream done off block := by
  obtain ⟨i, k, start, field, dead, live, hi, hdead, hpos, htarget, hrel, hpath, hk, hlive,
    hlivePos, hliveTarget⟩ := h
  obtain ⟨more, hmore, -⟩ := hgrows.fixups
  have hkept : ∀ {j : Nat} {x : X86Fixup}, c.fixups[j]? = some x → c'.fixups[j]? = some x := by
    intro j x hx
    rw [hmore, List.getElem?_append_left (List.getElem?_eq_some_iff.1 hx).1, hx]
  have hfield := hbelow dead (mem_of_getElem? hdead)
  exact ⟨i, k, start, field, dead, live, hi, hkept hdead, hpos, htarget,
    (hgrows.rels _ (by omega)).trans hrel, hpath.grows hgrows, hk, hkept hlive, hlivePos,
    hliveTarget⟩

theorem Late.next (h : Late stream done c) : Late stream (done + 1) c where
  items e he := by
    rcases h.items e he with hok | ⟨block, hpiece, i, k, start, field, dead, live, hi, hrest⟩
    · exact .inl hok
    · exact .inr ⟨block, hpiece, i, k, start, field, dead, live, Nat.lt_succ_of_lt hi, hrest⟩
  rising := h.rising
  fixups := h.fixups
  hints := h.hints
  entries := h.entries
  blocks := h.blocks
  targets i fixup hi := h.targets i fixup (Nat.le_of_succ_le hi)
  many := h.many

/-- The copies of an edge and the jump behind them. -/
def stubbed (c : JumpCtx) (pred succ bytes : Nat) : JumpCtx :=
  (c.emitPhiCopies pred succ true bytes).emitJmp succ

theorem grows_stubbed (c : JumpCtx) (pred succ bytes : Nat) : Grows c (stubbed c pred succ bytes) :=
  (grows_emitPhiCopies ..).trans (grows_emitJmpSourced ..)

theorem emitted_stubbed (c : JumpCtx) (pred succ bytes : Nat) : (stubbed c pred succ bytes).emitted =
    c.emitted ++ [⟨c.pos, .code bytes⟩, ⟨c.pos + bytes, .jmp succ⟩] := by
  simp [stubbed, JumpCtx.emitJmp, JumpCtx.emitJmpSourced, JumpCtx.emitPhiCopies, JumpCtx.put,
    Piece.size]

theorem fixups_stubbed (c : JumpCtx) (pred succ bytes : Nat) : (stubbed c pred succ bytes).fixups =
    c.fixups ++ [⟨c.pos + bytes + 1, c.blockEntryOffsets.lookup succ, succ, uint32Max⟩] := by
  simp [stubbed, JumpCtx.emitJmp, JumpCtx.emitJmpSourced, JumpCtx.emitPhiCopies, JumpCtx.put,
    Piece.size]

theorem pos_stubbed (c : JumpCtx) (pred succ bytes : Nat) :
    (stubbed c pred succ bytes).pos = c.pos + bytes + 5 := by
  simp [stubbed, JumpCtx.emitJmp, JumpCtx.emitJmpSourced, JumpCtx.emitPhiCopies, JumpCtx.put,
    Piece.size]

theorem Late.stub (h : Late stream done c) (pred succ bytes : Nat) (hset : IsSet c succ) :
    Late stream done (stubbed c pred succ bytes) := by
  have hgrows := grows_stubbed c pred succ bytes
  have hpos := pos_stubbed c pred succ bytes
  have hemitted := emitted_stubbed c pred succ bytes
  have hfixups := fixups_stubbed c pred succ bytes
  generalize stubbed c pred succ bytes = c' at *
  have hkeep : ∀ {block}, IsSet c block → IsSet c' block := by
    intro block hblock
    rw [IsSet, hgrows.entries]
    exact hblock
  have hsplit : ∀ fixup ∈ c'.fixups, fixup ∈ c.fixups ∨
      fixup = ⟨c.pos + bytes + 1, c.blockEntryOffsets.lookup succ, succ, uint32Max⟩ := by
    intro fixup hfixup
    rw [hfixups, mem_append, mem_singleton] at hfixup
    exact hfixup
  refine ⟨fun e he => ?_, ?_, fun fixup hfixup => ?_, fun fixup hfixup hlive off hoff => ?_,
    fun block off hoff => ?_, fun block hblock => ?_, fun i fixup hi hfixup => ?_, ?_⟩
  · rw [hemitted] at he
    rcases mem_append.1 he with hold | hnew
    · rcases h.items e hold with hok | ⟨block, hpiece, hturned⟩
      · exact .inl (hok.grows hgrows)
      · exact .inr ⟨block, hpiece, hturned.grows hgrows h.fixups⟩
    · simp only [mem_cons, not_mem_nil, or_false] at hnew
      rcases hnew with rfl | rfl
      · exact .inl ⟨by simp only [Piece.size]; omega, trivial⟩
      · refine .inl ⟨by simp only [Piece.size]; omega, ?_⟩
        rw [hfixups]
        exact ⟨_, mem_append_right _ mem_cons_self, rfl, rfl⟩
  · rw [hfixups, map_append]
    refine pairwise_append.2 ⟨h.rising, pairwise_singleton .., ?_⟩
    intro old hold new hnew
    obtain ⟨fixup, hfixup, rfl⟩ := mem_map.1 hold
    have hbelow := h.fixups fixup hfixup
    rw [mem_singleton.1 hnew]
    simp only
    omega
  · rcases hsplit fixup hfixup with hold | rfl
    · exact le_trans (h.fixups fixup hold) hgrows.pos
    · simp only
      omega
  · rw [hgrows.entries]
    rcases hsplit fixup hfixup with hold | rfl
    · exact h.hints fixup hold hlive off hoff
    · exact hoff
  · rw [hgrows.entries] at hoff
    exact le_trans (h.entries block off hoff) hgrows.pos
  · rw [hemitted, blocksIn, filterMap_append, mem_append] at hblock
    rcases hblock with hold | hnew
    · exact hkeep (h.blocks block hold)
    · obtain rfl : succ = block := by simpa [jumpOf] using hnew
      exact hkeep hset
  · rcases lt_or_ge i c.fixups.length with hlt | hge
    · rw [hfixups, List.getElem?_append_left hlt] at hfixup
      exact hkeep (h.targets i fixup hi hfixup)
    · rw [hfixups, getElem?_append_right hge] at hfixup
      rw [mem_singleton.1 (mem_of_getElem? hfixup)]
      exact hkeep hset
  · rw [hfixups, length_append]
    exact le_trans h.many (Nat.le_add_right ..)

/-- The fixup of a jump is killed and its field goes to the stub. -/
theorem Late.turn (h : Late stream done c) (hlt : done < stream) {live : X86Fixup}
    (hfixup : c.fixups[done]? = some fixup) {start k : Nat}
    (hpath : Path c start field fixup.target) (hk : stream ≤ k) (hlive : c.fixups[k]? = some live)
    (hpos : live.pos = field) (htarget : live.target = fixup.target) (hfit : c.pos ≤ c.buflen) :
    Late stream (done + 1)
      ({ c with fixups := c.fixups.set done { fixup with target := uint32Max } }.writeRel
        fixup.pos start) := by
  obtain ⟨c', hc'⟩ : ∃ c', c' = ({ c with
    fixups := c.fixups.set done { fixup with target := uint32Max } }.writeRel fixup.pos start) :=
      ⟨_, rfl⟩
  have hfixups : c'.fixups = c.fixups.set done { fixup with target := uint32Max } := by simp [hc']
  have hemitted : c'.emitted = c.emitted := by simp [hc']
  have hpos' : c'.pos = c.pos := by simp [hc']
  have hentries : c'.blockEntryOffsets = c.blockEntryOffsets := by simp [hc']
  have hplaces : c'.fixups.map X86Fixup.pos = c.fixups.map X86Fixup.pos := by
    rw [hfixups, map_set]
    obtain ⟨hdone, heq⟩ := List.getElem?_eq_some_iff.1 (getElem?_pos hfixup)
    rw [← heq, set_getElem_self]
  have hroom := h.fixups fixup (mem_of_getElem? hfixup)
  have hself : c'.rels.lookup fixup.pos = some start := by
    rw [hc']
    exact lookup_writeRel_self _ start (by simp only; omega)
  have hother : ∀ {field}, field ≠ fixup.pos → c'.rels.lookup field = c.rels.lookup field := by
    intro field hne
    rw [hc']
    exact lookup_writeRel_ne _ start hne
  have hdone : c'.fixups[done]? = some { fixup with target := uint32Max } := by
    rw [hfixups, List.getElem?_set_self (List.getElem?_eq_some_iff.1 hfixup).1]
  have hkept : ∀ {i x}, i ≠ done → c.fixups[i]? = some x → c'.fixups[i]? = some x := by
    intro i x hne hx
    rw [hfixups, getElem?_set_ne (Ne.symm hne), hx]
  have hpath' : ∀ {start field block}, Path c start field block → Path c' start field block := by
    intro start field block hpath
    rw [Path, hemitted]
    exact hpath
  have hset : ∀ {block}, IsSet c block → IsSet c' block := by
    intro block hblock
    rw [IsSet, hentries]
    exact hblock
  have hback : ∀ x ∈ c'.fixups, x = { fixup with target := uint32Max } ∨ x ∈ c.fixups := by
    intro x hx
    rw [hfixups] at hx
    exact (mem_or_eq_of_mem_set hx).symm
  rw [← hc']
  clear hc'
  refine ⟨fun e he => ?_, by rw [hplaces]; exact h.rising, fun x hx => ?_, fun x hx hne off hoff => ?_,
    fun block off hoff => ?_, fun block hblock => ?_, fun i x hi hx => ?_, ?_⟩
  · rw [hemitted] at he
    rcases h.items e he with hok | ⟨block, hpiece, i, k', start', field', dead, live', hi, hdead,
      hdeadPos, hdeadTarget, hrel, hpath₁, hk', hlive', hrest⟩
    · obtain ⟨off, piece⟩ := e
      cases piece with
      | code bytes => exact .inl ⟨by rw [hpos']; exact hok.1, trivial⟩
      | jmp block =>
        obtain ⟨old, hold, holdPos, holdTarget⟩ := hok.2
        obtain ⟨i, hi⟩ := getElem?_of_mem hold
        by_cases hsame : i = done
        · -- its own fixup is the one that is killed
          subst hsame
          obtain rfl := Option.some.inj (hi.symm.trans hfixup)
          refine .inr ⟨block, rfl, i, k, start, field, _, live, Nat.lt_succ_self i, hdone, holdPos,
            rfl, ?_, ?_, hk, hkept (by omega) hlive, hpos, htarget.trans holdTarget⟩
          · rw [← show old.pos = off + 1 from holdPos]
            exact hself
          · rw [← holdTarget]
            exact hpath' hpath
        · exact .inl ⟨by rw [hpos']; exact hok.1, old, mem_of_getElem? (hkept hsame hi), holdPos,
            holdTarget⟩
      | jcc block =>
        obtain ⟨⟨start', field', hrel, hpath₁⟩, hfree⟩ := hok.2
        refine .inl ⟨by rw [hpos']; exact hok.1, ⟨start', field', ?_, hpath' hpath₁⟩, fun x hx => ?_⟩
        · rw [hother (hfree fixup (mem_of_getElem? hfixup)).symm, hrel]
        · rcases hback x hx with rfl | hold
          · exact hfree fixup (mem_of_getElem? hfixup)
          · exact hfree x hold
    · refine .inr ⟨block, hpiece, i, k', start', field', dead, live', Nat.lt_succ_of_lt hi,
        hkept (ne_of_lt hi) hdead, hdeadPos, hdeadTarget, ?_, hpath' hpath₁, hk',
        hkept (by omega) hlive', hrest⟩
      rw [hother, hrel]
      intro heq
      exact ne_of_lt hi (h.same_place hdead hfixup (hdeadPos.trans heq))
  · rw [hpos']
    rcases hback x hx with rfl | hold
    · exact hroom
    · exact h.fixups x hold
  · rw [hentries]
    rcases hback x hx with rfl | hold
    · exact absurd rfl hne
    · exact h.hints x hold hne off hoff
  · rw [hentries] at hoff
    rw [hpos']
    exact h.entries block off hoff
  · rw [hemitted] at hblock
    exact hset (h.blocks block hblock)
  · refine hset (h.targets i x (Nat.le_of_succ_le hi) ?_)
    rw [hfixups, getElem?_set_ne (by omega)] at hx
    exact hx
  · rw [hfixups, length_set]
    exact h.many

/-- What a pass over the fixups keeps: the code so far, the offsets and the room. -/
structure Kept (c c' : JumpCtx) : Prop where
  emitted : ∃ more, c'.emitted = c.emitted ++ more
  pos : c.pos ≤ c'.pos
  buflen : c'.buflen = c.buflen
  entries : c'.blockEntryOffsets = c.blockEntryOffsets

theorem Kept.refl (c : JumpCtx) : Kept c c :=
  ⟨⟨[], (append_nil _).symm⟩, le_rfl, rfl, rfl⟩

theorem Kept.trans (h : Kept c c') {c'' : JumpCtx} (h' : Kept c' c'') : Kept c c'' := by
  obtain ⟨⟨more, hmore⟩, hpos, hbuflen, hentries⟩ := h
  obtain ⟨⟨more', hmore'⟩, hpos', hbuflen', hentries'⟩ := h'
  exact ⟨⟨more ++ more', by rw [hmore', hmore, append_assoc]⟩, le_trans hpos hpos',
    hbuflen'.trans hbuflen, hentries'.trans hentries⟩

theorem Kept.blocks (h : Kept c c') (hblock : block ∈ blocksIn c.emitted) :
    block ∈ blocksIn c'.emitted := by
  obtain ⟨more, hmore⟩ := h.emitted
  rw [hmore, blocksIn, filterMap_append]
  exact mem_append_left _ hblock

theorem lateStub_kept (bytes : Nat → Nat) (c : JumpCtx) (fi : Nat) :
    Kept c (c.lateStub bytes fi) := by
  unfold JumpCtx.lateStub
  cases c.fixups[fi]? with
  | none => exact Kept.refl c
  | some fixup =>
    simp only
    split
    · exact Kept.refl c
    · split
      · have hgrows := grows_stubbed c fixup.source fixup.target (bytes fi)
        rw [stubbed] at hgrows
        exact ⟨by simpa using hgrows.emitted, by simpa using hgrows.pos,
          by simpa using hgrows.buflen, by simpa using hgrows.entries⟩
      · exact Kept.refl c

theorem foldl_lateStub_kept (bytes : Nat → Nat) (indices : List Nat) (c : JumpCtx) :
    Kept c (indices.foldl (JumpCtx.lateStub bytes) c) := by
  induction indices generalizing c with
  | nil => exact Kept.refl c
  | cons fi rest ih => exact (lateStub_kept bytes c fi).trans (ih _)

theorem Late.lateStub (h : Late stream done c) (hlt : done < stream) (bytes : Nat → Nat)
    (hfit : (c.lateStub bytes done).pos ≤ c.buflen) :
    Late stream (done + 1) (c.lateStub bytes done) := by
  unfold JumpCtx.lateStub at *
  cases hfixup : c.fixups[done]? with
  | none => exact h.next
  | some fixup =>
    simp only [hfixup] at hfit ⊢
    split
    · exact h.next
    · next hsource =>
      rw [if_neg hsource] at hfit
      split
      · next hlate =>
        rw [if_pos hlate, pos_writeRel] at hfit
        have hstub := h.stub fixup.source fixup.target (bytes done)
          (h.targets done fixup (le_rfl) hfixup)
        have hlen := (List.getElem?_eq_some_iff.1 hfixup).1
        have hhere : (stubbed c fixup.source fixup.target (bytes done)).fixups[done]? =
            some fixup := by
          rw [fixups_stubbed, List.getElem?_append_left hlen]
          exact hfixup
        have hlast : (stubbed c fixup.source fixup.target (bytes done)).fixups[c.fixups.length]? =
            some ⟨c.pos + bytes done + 1, c.blockEntryOffsets.lookup fixup.target, fixup.target,
              uint32Max⟩ := by
          rw [fixups_stubbed, getElem?_append_right (le_rfl), Nat.sub_self]
          rfl
        have hpath : Path (stubbed c fixup.source fixup.target (bytes done)) c.pos
            (c.pos + bytes done + 1) fixup.target := by
          refine ⟨bytes done, ?_, ?_, rfl⟩
          · rw [emitted_stubbed]
            exact mem_append_right _ mem_cons_self
          · rw [emitted_stubbed]
            exact mem_append_right _ (mem_cons_of_mem _ mem_cons_self)
        refine hstub.turn hlt hhere hpath h.many hlast rfl rfl ?_
        rw [(grows_stubbed ..).buflen]
        exact hfit
      · exact h.next

theorem Late.lateStubs (h : Late stream 0 c) (bytes : Nat → Nat) (count : Nat) (hcount : count ≤ stream)
    (hfit : ((range count).foldl (JumpCtx.lateStub bytes) c).pos ≤ c.buflen) :
    Late stream count ((range count).foldl (JumpCtx.lateStub bytes) c) := by
  induction count with
  | zero => exact h
  | succ done ih =>
    rw [range_succ, foldl_append] at hfit ⊢
    have hkept := foldl_lateStub_kept bytes (range done) c
    have hlast := lateStub_kept bytes ((range done).foldl (JumpCtx.lateStub bytes) c) done
    refine (ih (Nat.le_of_succ_le hcount) (le_trans hlast.pos hfit)).lateStub hcount bytes ?_
    rw [hkept.buflen]
    exact hfit

end Stubs

section Binding
variable {c : JumpCtx}

theorem bindFixup_kept (c : JumpCtx) (fixup : X86Fixup) :
    Kept c (c.bindFixup fixup) ∧ (c.bindFixup fixup).emitted = c.emitted ∧
      (c.bindFixup fixup).pos = c.pos := by
  unfold JumpCtx.bindFixup
  split
  · exact ⟨Kept.refl c, rfl, rfl⟩
  · split
    · exact ⟨Kept.refl c, rfl, rfl⟩
    · exact ⟨⟨⟨[], by simp⟩, by simp, by simp, by simp⟩, by simp, by simp⟩

theorem bindFixup_other (c : JumpCtx) (fixup : X86Fixup)
    (hfield : fixup.pos = field → fixup.target = uint32Max) :
    (c.bindFixup fixup).rels.lookup field = c.rels.lookup field := by
  unfold JumpCtx.bindFixup
  split
  · rfl
  · next hlive =>
    split
    · rfl
    · exact lookup_writeRel_ne c _ fun heq => hlive (hfield heq.symm)

theorem bindFixup_self (c : JumpCtx) (fixup : X86Fixup) (hlive : fixup.target ≠ uint32Max)
    (hoff : c.blockEntryOffsets.lookup fixup.target = some off)
    (hhint : ∀ off', fixup.targetPosHint = some off' →
      c.blockEntryOffsets.lookup fixup.target = some off') (hfit : fixup.pos + 4 ≤ c.buflen) :
    (c.bindFixup fixup).rels.lookup fixup.pos = some off := by
  have hplace : fixup.targetPosHint.or (c.blockEntryOffsets.lookup fixup.target) = some off := by
    cases hcase : fixup.targetPosHint with
    | none => exact hoff
    | some off' => exact (hhint off' hcase).symm.trans hoff
  unfold JumpCtx.bindFixup
  rw [if_neg hlive, hplace]
  exact lookup_writeRel_self c off hfit

theorem bindFixups_kept (fixups : List X86Fixup) (c : JumpCtx) :
    Kept c (fixups.foldl JumpCtx.bindFixup c) ∧
      (fixups.foldl JumpCtx.bindFixup c).emitted = c.emitted ∧
      (fixups.foldl JumpCtx.bindFixup c).pos = c.pos := by
  induction fixups generalizing c with
  | nil => exact ⟨Kept.refl c, rfl, rfl⟩
  | cons fixup rest ih =>
    obtain ⟨hkept, hemitted, hpos⟩ := bindFixup_kept c fixup
    obtain ⟨hkept', hemitted', hpos'⟩ := ih (c.bindFixup fixup)
    exact ⟨hkept.trans hkept', hemitted'.trans hemitted, hpos'.trans hpos⟩

theorem bindFixups_other (fixups : List X86Fixup) (c : JumpCtx)
    (hfield : ∀ fixup ∈ fixups, fixup.pos = field → fixup.target = uint32Max) :
    (fixups.foldl JumpCtx.bindFixup c).rels.lookup field = c.rels.lookup field := by
  induction fixups generalizing c with
  | nil => rfl
  | cons fixup rest ih =>
    rw [foldl_cons, ih _ fun x hx => hfield x (mem_cons_of_mem _ hx)]
    exact bindFixup_other c fixup (hfield fixup mem_cons_self)

theorem bindFixups_self (fixups : List X86Fixup) (c : JumpCtx)
    (hrising : (fixups.map X86Fixup.pos).Pairwise (· < ·))
    (hhints : ∀ fixup ∈ fixups, fixup.target ≠ uint32Max → ∀ off,
      fixup.targetPosHint = some off → c.blockEntryOffsets.lookup fixup.target = some off)
    (hfit : ∀ fixup ∈ fixups, fixup.pos + 4 ≤ c.buflen) (hmem : fixup ∈ fixups)
    (hlive : fixup.target ≠ uint32Max) (hoff : c.blockEntryOffsets.lookup fixup.target = some off) :
    (fixups.foldl JumpCtx.bindFixup c).rels.lookup fixup.pos = some off := by
  induction fixups generalizing c with
  | nil => cases hmem
  | cons first rest ih =>
    rw [map_cons, pairwise_cons] at hrising
    obtain ⟨hkept, -, -⟩ := bindFixup_kept c first
    rw [foldl_cons]
    rcases mem_cons.1 hmem with rfl | hrest
    · rw [bindFixups_other rest _ fun x hx heq => ?_]
      · exact bindFixup_self c fixup hlive hoff (hhints fixup hmem hlive) (hfit fixup hmem)
      · -- no later fixup is for the same field
        exact absurd heq.symm (ne_of_lt (hrising.1 _ (mem_map_of_mem hx)))
    · refine ih _ hrising.2 (fun x hx hne off hoff => ?_) (fun x hx => ?_) hrest ?_
      · rw [hkept.entries]
        exact hhints x (mem_cons_of_mem _ hx) hne off hoff
      · rw [hkept.buflen]
        exact hfit x (mem_cons_of_mem _ hx)
      · rw [hkept.entries]
        exact hoff

/-- A rel32 field reaches 2 GiB in either direction. -/
theorem goesTo_of_lookup {place : Nat} (h : c.rels.lookup field = some place)
    (hfield : field + 4 ≤ 2 ^ 31) (hplace : place ≤ 2 ^ 31) : goesTo c field = place := by
  have hrel : (BitVec.ofInt 32 (place - (field + 4))).toInt = (place : Int) - (field + 4) := by
    rw [BitVec.toInt_ofInt]
    exact Int.bmod_eq_of_le (by omega) (by omega)
  rw [goesTo, rel32, h]
  simp only
  rw [hrel]
  omega

/-- When all blocks are set, binding the fixups binds the jumps. -/
theorem Late.bound {stream : Nat} (h : Late stream stream c) (hfit : c.pos ≤ c.buflen)
    (hreach : c.pos ≤ 2 ^ 31) : Bound c.bindFixups := by
  obtain ⟨hkept, hemitted, hpos⟩ := bindFixups_kept c.fixups c
  have hself : ∀ fixup ∈ c.fixups, ∀ off, fixup.target ≠ uint32Max →
      c.blockEntryOffsets.lookup fixup.target = some off →
      c.bindFixups.rels.lookup fixup.pos = some off := by
    intro fixup hfixup off hlive hoff
    exact bindFixups_self c.fixups c h.rising h.hints
      (fun x hx => le_trans (h.fixups x hx) hfit) hfixup hlive hoff
  have hother : ∀ field, (∀ fixup ∈ c.fixups, fixup.pos = field → fixup.target = uint32Max) →
      c.bindFixups.rels.lookup field = c.rels.lookup field :=
    fun field => bindFixups_other c.fixups c
  change Kept c c.bindFixups at hkept
  change c.bindFixups.emitted = c.emitted at hemitted
  have hpath : ∀ {start field block}, Path c start field block → Path c.bindFixups start field block := by
    intro start field block hpath
    rw [Path, hemitted]
    exact hpath
  -- a jump whose fixup is alive goes to its block
  have hlive : ∀ {fixup block field}, fixup ∈ c.fixups → fixup.pos = field → fixup.target = block →
      IsSet c block → ∃ entry, c.bindFixups.blockEntryOffsets.lookup block = some entry ∧
        goesTo c.bindFixups field = (entry : Nat) := by
    rintro fixup block field hfixup rfl rfl ⟨hne, hset⟩
    obtain ⟨entry, hentry⟩ := Option.isSome_iff_exists.1 hset
    refine ⟨entry, by rw [hkept.entries]; exact hentry, ?_⟩
    have hbelow := h.fixups fixup hfixup
    have hentryPos := h.entries _ _ hentry
    exact goesTo_of_lookup (hself fixup hfixup entry hne hentry) (by omega) (by omega)
  have hjmp : ∀ off block, ⟨off, .jmp block⟩ ∈ c.emitted → ∃ entry,
      c.bindFixups.blockEntryOffsets.lookup block = some entry ∧
        Arrives c.bindFixups (off + 1) block entry := by
    intro off block he
    have hset : IsSet c block := h.blocks block (mem_filterMap.2 ⟨_, he, rfl⟩)
    rcases h.items _ he with hok | ⟨block', hpiece, hturned⟩
    · obtain ⟨fixup, hfixup, hfixupPos, htarget⟩ := hok.2
      obtain ⟨entry, hentry, hgoes⟩ := hlive hfixup hfixupPos htarget hset
      exact ⟨entry, hentry, .inl hgoes⟩
    · obtain rfl := Piece.jmp.inj hpiece
      obtain ⟨i, k, start, field, dead, live, -, hdead, hdeadPos, hdeadTarget, hrel, hpath₁, -, hk,
        hlivePos, hliveTarget⟩ := hturned
      obtain ⟨entry, hentry, hgoes⟩ := hlive (mem_of_getElem? hk) hlivePos hliveTarget hset
      refine ⟨entry, hentry, .inr ⟨start, field, ?_, hpath hpath₁, hgoes⟩⟩
      have hdeadMem := mem_of_getElem? hdead
      have hbelow := h.fixups dead hdeadMem
      have hfield : dead.pos = off + 1 := hdeadPos
      obtain ⟨bytes, hcode, -, -⟩ := hpath₁
      have hstart : start ≤ c.pos := by
        rcases h.items _ hcode with hok | ⟨_, hpiece', -⟩
        · exact le_trans (Nat.le_add_right ..) hok.1
        · cases hpiece'
      refine goesTo_of_lookup ?_ (by omega) (by omega)
      rw [hother, hrel]
      -- the dead fixup is the only one of this field
      intro x hx heq
      obtain ⟨j, hj⟩ := getElem?_of_mem hx
      have hsame := h.same_place hj hdead (heq.trans hdeadPos.symm)
      rw [hsame, hdead] at hj
      rw [← Option.some.inj hj]
      exact hdeadTarget
  refine ⟨fun off block he => ?_, fun off block he => ?_⟩
  · rw [hemitted] at he
    exact hjmp off block he
  · rw [hemitted] at he
    rcases h.items _ he with hok | ⟨_, hpiece, -⟩
    · obtain ⟨⟨start, field, hrel, hpath₁⟩, hfree⟩ := hok.2
      obtain ⟨bytes, hcode, hjump, hfield⟩ := hpath₁
      obtain ⟨entry, hentry, harrives⟩ := hjmp _ _ hjump
      have hsize := hok.1
      have hstart : start ≤ c.pos := by
        rcases h.items _ hcode with hok' | ⟨_, hpiece', -⟩
        · exact le_trans (Nat.le_add_right ..) hok'.1
        · cases hpiece'
      simp only [Piece.size] at hsize
      refine ⟨entry, start, field, hentry, ?_, hpath ⟨bytes, hcode, hjump, hfield⟩, ?_⟩
      · refine goesTo_of_lookup ?_ (by omega) (by omega)
        rw [hother _ fun x hx heq => absurd heq (hfree x hx)]
        exact hrel
      · rw [hfield]
        exact harrives
    · cases hpiece

end Binding

section Functions
variable {c c' : JumpCtx} {calls : List StreamCall} {buflen prologue : Nat} {bytes : Nat → Nat}

/-- A jump is bound if its block is: the last loop passes over the others. -/
theorem jumps_bound_iff (hrun : runSteps JumpCtx.call (compileBegin buflen prologue) calls = some c)
    (hend : c.compileEnd bytes = some c') :
    (Bound c' → AllSet calls) ∧ (c'.pos ≤ 2 ^ 31 → AllSet calls → Bound c') := by
  have hran := run_ran hrun
  have hsettled := flush_settled c
  unfold JumpCtx.compileEnd at hend
  simp only at hend
  obtain ⟨hfit, hend⟩ := Option.ite_none_left_eq_some.1 hend
  obtain rfl := Option.some.inj hend
  have hlate : Kept c.flush (c.flush.lateStubs bytes) := foldl_lateStub_kept ..
  obtain ⟨hkept, hemitted, hpos⟩ := bindFixups_kept (c.flush.lateStubs bytes).fixups
    (c.flush.lateStubs bytes)
  change Kept _ (c.flush.lateStubs bytes).bindFixups at hkept
  change (c.flush.lateStubs bytes).bindFixups.emitted = _ at hemitted
  change (c.flush.lateStubs bytes).bindFixups.pos = _ at hpos
  have hnames : ∀ block, block ∈ blocksIn c.flush.emitted ↔ block ∈ named calls := by
    intro block
    rw [← hran.names, ← hsettled.names, Names, waiting_flush]
    simp
  have hset : ∀ block, (c.flush.blockEntryOffsets.lookup block).isSome ↔
      .setBlock block ∈ calls := by
    intro block
    rw [hsettled.entries]
    exact hran.set block
  refine ⟨fun hbound block hblock => ?_, fun hreach hall => ?_⟩
  · have hlast := hkept.blocks (hlate.blocks ((hnames block).2 hblock))
    obtain ⟨⟨off, piece⟩, he, hjump⟩ := mem_filterMap.1 hlast
    rw [← hset, ← hlate.entries, ← hkept.entries, Option.isSome_iff_exists]
    cases piece with
    | code count => cases hjump
    | jmp target =>
      obtain rfl := Option.some.inj hjump
      obtain ⟨entry, hentry, -⟩ := hbound.jmp off target he
      exact ⟨entry, hentry⟩
    | jcc target =>
      obtain rfl := Option.some.inj hjump
      obtain ⟨entry, -, -, hentry, -⟩ := hbound.jcc off target he
      exact ⟨entry, hentry⟩
  · have hroom : (c.flush.lateStubs bytes).pos ≤ buflen := by
      have hlen := (hkept.buflen.trans hlate.buflen).trans (hsettled.buflen.trans hran.buflen)
      omega
    have hflush : c.flush.pos ≤ buflen := le_trans hlate.pos hroom
    have hbuflen : c.flush.buflen = buflen := hsettled.buflen.trans hran.buflen
    have hlinked : Linked none c.flush := by
      refine (hran.linked (le_trans hsettled.pos hflush)).flush ?_
      rw [hran.buflen]
      exact hflush
    have hready : ∀ block ∈ blocksIn c.flush.emitted, IsSet c.flush block := by
      intro block hblock
      have hcall := hall block ((hnames block).1 hblock)
      have hsmall := hran.small block hcall
      refine ⟨?_, (hset block).2 hcall⟩
      simp only [uint32Max]
      omega
    have hturned := (hlinked.late hready).lateStubs bytes c.flush.fixups.length (le_rfl)
      (by rw [hbuflen]; exact hroom)
    refine Late.bound hturned ?_ (hpos ▸ hreach)
    rw [hlate.buflen, hbuflen]
    exact hroom

/-- A loop whose head is set late: the copies of its back edge go to a stub, and the exit is
set before the block that branches to it. -/
def loopCalls : List StreamCall :=
  [.setBlock 0, .emit (.term (.br 1 0)), .setBlock 2, .emit (.term (.leave 4)), .setBlock 1,
    .emit (.other 7), .emit (.term (.condbr 1 2 8 0 0)), .setBlock 3, .addPhiCopy 1 1,
    .emit (.term (.leave 4))]

theorem loop_jumps_bound : ∃ c c', runSteps JumpCtx.call (compileBegin 128 8) loopCalls = some c ∧
    c.compileEnd (fun _ => 12) = some c' ∧ Bound c' := by
  have hdone : ((runSteps JumpCtx.call (compileBegin 128 8) loopCalls).bind fun c =>
      c.compileEnd fun _ => 12).any (fun c' => decide (c'.pos ≤ 2 ^ 31)) = true := by
    decide
  have hall : AllSet loopCalls := by
    unfold AllSet
    decide
  obtain ⟨c', hbind, hreach⟩ := (Option.any_eq_true ..).1 hdone
  obtain ⟨c, hrun, hend⟩ := Option.bind_eq_some_iff.1 hbind
  exact ⟨c, c', hrun, hend, (jumps_bound_iff hrun hend).2 (of_decide_eq_true hreach) hall⟩

/-- The jump to a block that is never set goes to what stands behind it. -/
theorem unset_branch_falls_through : ∃ c c',
    runSteps JumpCtx.call (compileBegin 64 8) [.setBlock 0, .emit (.term (.br 1 0))] = some c ∧
    c.compileEnd (fun _ => 0) = some c' ∧ ⟨8, .jmp 1⟩ ∈ c'.emitted ∧ goesTo c' 9 = 13 ∧ ¬ Bound c' := by
  refine ⟨_, _, rfl, rfl, by decide, by decide, fun hbound => ?_⟩
  obtain ⟨entry, hentry, -⟩ := hbound.jmp 8 1 (by decide)
  have hunset : ([(0, 8)] : List (Nat × Nat)).lookup 1 = some entry := hentry
  simp at hunset

end Functions

end Liric.Guarantees.BoundJumps
