import Liric.Guarantees.SwitchMeaning
import Liric.Source.Ll.Blocks

/-!
# Blocks that a text names by number

In the text language unnamed parameters, unnamed values and unlabeled blocks share one
count. The parser does not count blocks: a number stands for the label that is spelled
like it, and only a phi may say `%0` for the first block.
-/
namespace Liric.Guarantees.BlockNumbers
open Lib
open Source.Ir (CStr LrFunc LrBlock blockCreate)
open Source.Ll SwitchLowering SwitchMeaning

variable {r : BlockRef} {id block : Nat} {name : CStr} {o : LineBlocks} {cur : Option Nat}

/-- A block of the text: its number, its label if it has one, the line it begins on. -/
structure TextBlock where
  number : Nat
  label : Option CStr
  line : Nat
  deriving DecidableEq

/-- The blocks from line `line` on when `next` is the next number. A label must be the
number that its block has; an instruction behind a terminator begins a block too. -/
def textBlocks : Nat → Bool → Nat → List BodyLine → Option (List TextBlock)
  | _, _, _, [] => some []
  | next, inBlock, line, .label name :: rest =>
    if inBlock = false ∧ parseU32Decimal name = some next then
      (textBlocks (next + 1) true (line + 1) rest).map (⟨next, some name, line⟩ :: ·)
    else none
  | next, inBlock, line, .inst i :: rest =>
    let first := if inBlock then next else next + 1
    (textBlocks (if i.unnamed then first + 1 else first) (!i.terminator) (line + 1) rest).map
      fun blocks => if inBlock then blocks else ⟨next, none, line⟩ :: blocks

open List

/-- A body behind `k` unnamed parameters whose entry block has no label, and which names
blocks that it has. -/
structure WellNumbered (k : Nat) (lines : List BodyLine) (blocks : List TextBlock) : Prop where
  counted : textBlocks k false 0 lines = some blocks
  entry : ∃ i rest, lines = .inst i :: rest
  refs : ∀ i, .inst i ∈ lines → ∀ r ∈ i.refs, ∃ b ∈ blocks, parseU32Decimal r.name = some b.number

/-- `b` is the block that the text means by `r`. -/
def Means (lines : List BodyLine) (blocks : List TextBlock) (r : BlockRef) (b : TextBlock) : Prop :=
  (∃ i, .inst i ∈ lines ∧ r ∈ i.refs) ∧ b ∈ blocks ∧ parseU32Decimal r.name = some b.number

/-- Each name stands for the block of the line on which its block begins, and no block has
a name that is not a label of the text. -/
structure Resolves (lines : List BodyLine) (blocks : List TextBlock) (out : List LineBlocks)
    (s : FuncParser) : Prop where
  refs : ∀ (line ref : Nat) i r b, lines[line]? = some (.inst i) → i.refs[ref]? = some r →
    b ∈ blocks → parseU32Decimal r.name = some b.number →
    (out[line]?.bind fun o => o.refs[ref]?) = out[b.line]?.map LineBlocks.block
  names : ∀ name ∈ s.blockMap.map Prod.fst, name = entryName ∨ .label name ∈ lines

/-- A label spelled like the name, or `%0` in a phi when the entry block is block 0. -/
def SpelledAsLabel (k : Nat) (r : BlockRef) (b : TextBlock) : Prop :=
  b.label = some r.name ∨ r.use = .phi ∧ k = 0 ∧ b.line = 0

/-- A phi that says `%0`. -/
def AtZero (r : BlockRef) : Prop := r.use = .phi ∧ parseU32Decimal r.name = some 0

instance (r : BlockRef) : Decidable (AtZero r) := instDecidableAnd

/-- What a name was resolved to, seen from any later state. -/
def Stands (s : FuncParser) (r : BlockRef) (id : Nat) : Prop :=
  if AtZero r then id = 0 else s.blockMap.lookup r.name = some id

/-- New labels satisfy `named`. -/
structure Extends (named : CStr → Prop) (s s' : FuncParser) : Prop where
  grows : Grows s s'
  blocks : BlocksNamed s'
  names : ∀ name ∈ s'.blockMap.map Prod.fst, name ∈ s.blockMap.map Prod.fst ∨ named name

section Steps
variable {named : CStr → Prop} {s s' s'' : FuncParser}

theorem Extends.refl (h : BlocksNamed s) : Extends named s s where
  grows := Grows.refl s
  blocks := h
  names _ hname := .inl hname

theorem Extends.trans (h : Extends named s s') (h' : Extends named s' s'') :
    Extends named s s'' where
  grows := h.grows.trans h'.grows
  blocks := h'.blocks
  names name hname := by
    rcases h'.names name hname with hmid | hnew
    · exact h.names name hmid
    · exact .inr hnew

theorem Stands.grows (h : Stands s r id) (hgrows : Grows s s') : Stands s' r id := by
  unfold Stands at *
  split
  · next hzero =>
    rw [if_pos hzero] at h
    exact h
  · next hzero =>
    rw [if_neg hzero] at h
    exact hgrows.lookup _ _ h

theorem resolveBlock_step (named : CStr → Prop) (h : BlocksNamed s) (hnamed : named name) :
    ∃ id s', resolveBlock name s = some (id, s') ∧ Extends named s s' ∧
      s'.blockMap.lookup name = some id := by
  obtain ⟨id, s', hrun, -, hgrows, hblocks, hlookup⟩ := resolveBlock_run h name
  refine ⟨id, s', hrun, ⟨hgrows, hblocks, ?_⟩, hlookup⟩
  intro other hother
  unfold resolveBlock at hrun
  cases hold : s.blockMap.lookup name with
  | some id' =>
    rw [hold] at hrun
    cases hrun
    exact .inl hother
  | none =>
    rw [hold] at hrun
    cases hrun
    rw [map_append] at hother
    rcases mem_append.1 hother with hmem | hmem
    · exact .inl hmem
    · rw [mem_singleton.1 hmem]
      exact .inr hnamed

theorem resolveRef_step (h : BlocksNamed s) (hpos : 0 < s.func.blocks.length)
    (hnamed : ¬ AtZero r → named r.name) :
    ∃ id s', resolveRef r s = some (id, s') ∧ Extends named s s' ∧ Stands s' r id := by
  by_cases hzero : AtZero r
  · obtain ⟨first, hfirst⟩ : ∃ b, s.func.blocks.head? = some b :=
      Option.isSome_iff_exists.1 (by rw [isSome_head?]; simpa [length_pos_iff] using hpos)
    have hid : first.id = 0 := h.numbered.ids 0 first (by rw [← List.head?_eq_getElem?]; exact hfirst)
    refine ⟨first.id, s, ?_, Extends.refl h, ?_⟩
    · simp only [resolveRef, hzero.1, resolvePhiBlock, hfirst, hzero.2, if_true]
    · rw [Stands, if_pos hzero]
      exact hid
  · obtain ⟨id, s', hrun, hextends, hlookup⟩ := resolveBlock_step named h (hnamed hzero)
    refine ⟨id, s', ?_, hextends, ?_⟩
    · rw [← hrun]
      cases huse : r.use with
      | branch => simp only [resolveRef, huse]
      | phi =>
        have hname : parseU32Decimal r.name ≠ some 0 := fun heq => hzero ⟨huse, heq⟩
        simp only [resolveRef, huse, resolvePhiBlock, if_neg hname]
        cases s.func.blocks.head? <;> rfl
    · rw [Stands, if_neg hzero]
      exact hlookup

variable {refs : List BlockRef}

theorem Stands.all {ids : List Nat} (h : List.Forall₂ (Stands s) refs ids)
    (hgrows : Grows s s') : List.Forall₂ (Stands s') refs ids :=
  h.imp fun _ _ hone => hone.grows hgrows

theorem resolveRefs_step (named : CStr → Prop) (h : BlocksNamed s)
    (hpos : 0 < s.func.blocks.length) (hnamed : ∀ r ∈ refs, ¬ AtZero r → named r.name) :
    ∃ ids s', resolveRefs refs s = some (ids, s') ∧ Extends named s s' ∧
      List.Forall₂ (Stands s') refs ids := by
  induction refs generalizing s with
  | nil => exact ⟨[], s, rfl, Extends.refl h, .nil⟩
  | cons r rest ih =>
    obtain ⟨id, s₁, hrun₁, hextends₁, hstands⟩ := resolveRef_step h hpos (hnamed r mem_cons_self)
    obtain ⟨ids, s₂, hrun₂, hextends₂, hall⟩ :=
      ih hextends₁.blocks (lt_of_lt_of_le hpos hextends₁.grows.length)
        fun r' hr' => hnamed r' (mem_cons_of_mem r hr')
    refine ⟨id :: ids, s₂, ?_, hextends₁.trans hextends₂, .cons (hstands.grows hextends₂.grows) hall⟩
    rw [resolveRefs, run_bind hrun₁, run_bind hrun₂]
    rfl

theorem createBlock_step (named : CStr → Prop) (h : BlocksNamed s) (name : CStr) :
    ∃ id s', createBlock name s = some (id, s') ∧ Extends named s s' := by
  refine ⟨_, _, rfl, ?_⟩
  exact
    { grows :=
        { lookup := fun _ _ hid => hid
          blocks := fun i hi => create_old hi
          length := by simp [blockCreate] }
      blocks :=
        { numbered := h.numbered.create name
          below := fun e he => (h.below e he).trans_le (by simp [blockCreate])
          distinct := h.distinct }
      names := fun _ hname => .inl hname }

theorem addBlocks_step (named : CStr → Prop) (names : List CStr) (h : BlocksNamed s) :
    ∃ s', addBlocks names s = some ((), s') ∧ Extends named s s' := by
  induction names generalizing s with
  | nil => exact ⟨s, rfl, Extends.refl h⟩
  | cons name rest ih =>
    obtain ⟨id, s₁, hrun₁, hextends₁⟩ := createBlock_step named h name
    obtain ⟨s₂, hrun₂, hextends₂⟩ := ih hextends₁.blocks
    refine ⟨s₂, ?_, hextends₁.trans hextends₂⟩
    rw [addBlocks, run_bind hrun₁]
    exact hrun₂

end Steps

section Lines
variable {all : List BodyLine} {s s' : FuncParser}

/-- A name under which the text has a block. -/
def Origin (all : List BodyLine) (name : CStr) : Prop := name = entryName ∨ .label name ∈ all

/-- A name under which the parser may enter a block. -/
def Entered (all : List BodyLine) (name : CStr) : Prop :=
  Origin all name ∨ ∃ i, .inst i ∈ all ∧ ∃ r ∈ i.refs, ¬ AtZero r ∧ r.name = name

/-- The block of an instruction is one of the text. -/
def Placed (all : List BodyLine) (s : FuncParser) (block : Nat) : Prop :=
  ∃ name, Origin all name ∧ s.blockMap.lookup name = some block

def LineStands (all : List BodyLine) (s : FuncParser) (line : BodyLine) (o : LineBlocks) : Prop :=
  match line with
  | .label name => s.blockMap.lookup name = some o.block
  | .inst i => Placed all s o.block ∧ List.Forall₂ (Stands s) i.refs o.refs

theorem Placed.grows (h : Placed all s block) (hgrows : Grows s s') : Placed all s' block := by
  obtain ⟨name, horigin, hlookup⟩ := h
  exact ⟨name, horigin, hgrows.lookup _ _ hlookup⟩

variable {line : BodyLine}

theorem LineStands.grows (h : LineStands all s line o) (hgrows : Grows s s') :
    LineStands all s' line o := by
  cases line with
  | label name => exact hgrows.lookup _ _ h
  | inst i => exact ⟨h.1.grows hgrows, Stands.all h.2 hgrows⟩

theorem LineStands.placed (h : LineStands all s line o) (hmem : line ∈ all) :
    Placed all s o.block := by
  cases line with
  | label name => exact ⟨name, .inr hmem, h⟩
  | inst i => exact h.1

theorem length_pos_of_placed (h : BlocksNamed s) (hplaced : Placed all s block) :
    0 < s.func.blocks.length := by
  obtain ⟨name, -, hlookup⟩ := hplaced
  exact lt_of_le_of_lt (Nat.zero_le _) (h.below _ (mem_of_lookup hlookup))

theorem currentBlock_step (h : BlocksNamed s)
    (hcur : ∀ block, cur = some block → Placed all s block) :
    ∃ block s', currentBlock cur s = some (block, s') ∧ Extends (Entered all) s s' ∧
      Placed all s' block := by
  cases cur with
  | some block => exact ⟨block, s, rfl, Extends.refl h, hcur block rfl⟩
  | none =>
    obtain ⟨block, s', hrun, hextends, hlookup⟩ :=
      resolveBlock_step (Entered all) h (.inl (.inl rfl))
    exact ⟨block, s', hrun, hextends, entryName, .inl rfl, hlookup⟩

theorem parseLine_step (h : BlocksNamed s)
    (hcur : ∀ block, cur = some block → Placed all s block) (hmem : line ∈ all) :
    ∃ o s', parseLine cur line s = some (o, s') ∧ Extends (Entered all) s s' ∧
      LineStands all s' line o := by
  cases line with
  | label name =>
    obtain ⟨block, s', hrun, hextends, hlookup⟩ :=
      resolveBlock_step (Entered all) h (.inl (.inr hmem))
    refine ⟨⟨block, []⟩, s', ?_, hextends, hlookup⟩
    rw [parseLine, run_bind hrun]
    rfl
  | inst i =>
    obtain ⟨block, s₁, hrun₁, hextends₁, hplaced⟩ := currentBlock_step h hcur
    obtain ⟨ids, s₂, hrun₂, hextends₂, hstands⟩ :=
      resolveRefs_step (Entered all) hextends₁.blocks
        (length_pos_of_placed hextends₁.blocks hplaced)
        fun r hr hzero => .inr ⟨i, hmem, r, hr, hzero, rfl⟩
    obtain ⟨s₃, hrun₃, hextends₃⟩ := addBlocks_step (Entered all) i.switchBlocks hextends₂.blocks
    refine ⟨⟨block, ids⟩, s₃, ?_, (hextends₁.trans hextends₂).trans hextends₃, ?_, ?_⟩
    · rw [parseLine, run_bind hrun₁, run_bind hrun₂, run_bind hrun₃]
      rfl
    · exact hplaced.grows (hextends₂.grows.trans hextends₃.grows)
    · exact Stands.all hstands hextends₃.grows

theorem parseLines_run {lines : List BodyLine} (h : BlocksNamed s)
    (hcur : ∀ block, cur = some block → Placed all s block) (hmem : ∀ line ∈ lines, line ∈ all) :
    ∃ out s', parseLines cur lines s = some (out, s') ∧ Extends (Entered all) s s' ∧
      List.Forall₂ (LineStands all s') lines out := by
  induction lines generalizing s cur with
  | nil => exact ⟨[], s, rfl, Extends.refl h, .nil⟩
  | cons line rest ih =>
    have hline := hmem line mem_cons_self
    obtain ⟨o, s₁, hrun₁, hextends₁, hstands⟩ := parseLine_step h hcur hline
    have hnext : ∀ block, some o.block = some block → Placed all s₁ block := by
      intro block hblock
      cases hblock
      exact hstands.placed hline
    obtain ⟨out, s₂, hrun₂, hextends₂, hall⟩ :=
      ih hextends₁.blocks hnext fun line' hline' => hmem line' (mem_cons_of_mem line hline')
    refine ⟨o :: out, s₂, ?_, hextends₁.trans hextends₂, .cons (hstands.grows hextends₂.grows) hall⟩
    rw [parseLines, run_bind hrun₁, run_bind hrun₂]
    rfl

end Lines

/-- The line on which a block of the text begins. -/
def Begins (b : TextBlock) : BodyLine → Prop
  | .label name => b.label = some name ∧ parseU32Decimal name = some b.number
  | .inst _ => b.label = none

structure Counted (next line : Nat) (lines : List BodyLine) (blocks : List TextBlock) : Prop where
  number : ∀ b ∈ blocks, next ≤ b.number
  line : ∀ b ∈ blocks, ∃ (i : Nat) (l : BodyLine), b.line = line + i ∧ lines[i]? = some l ∧ Begins b l
  rising : blocks.Pairwise fun a b => a.number < b.number
  labels : ∀ name, .label name ∈ lines → ∃ b ∈ blocks, b.label = some name

variable {b : TextBlock}

section Counting
variable {next first line : Nat} {lines : List BodyLine} {blocks : List TextBlock}

theorem Counted.later {l : BodyLine} (h : Counted first (line + 1) lines blocks)
    (hfirst : next ≤ first) (hlabel : ∀ name, l ≠ .label name) :
    Counted next line (l :: lines) blocks where
  number b hb := le_trans hfirst (h.number b hb)
  line b hb := by
    obtain ⟨i, l', hline, hget, hbegins⟩ := h.line b hb
    exact ⟨i + 1, l', by omega, hget, hbegins⟩
  rising := h.rising
  labels name hmem := by
    rcases mem_cons.1 hmem with heq | hrest
    · exact absurd heq.symm (hlabel name)
    · exact h.labels name hrest

theorem Counted.begin {l : BodyLine} (h : Counted first (line + 1) lines blocks)
    (hfirst : next < first) (hnumber : b.number = next) (hline : b.line = line)
    (hbegins : Begins b l) : Counted next line (l :: lines) (b :: blocks) where
  number b' hb' := by
    rcases mem_cons.1 hb' with rfl | hrest
    · exact le_of_eq hnumber.symm
    · exact le_trans (le_of_lt hfirst) (h.number b' hrest)
  line b' hb' := by
    rcases mem_cons.1 hb' with rfl | hrest
    · exact ⟨0, l, hline, rfl, hbegins⟩
    · obtain ⟨i, l', hline', hget, hbegins'⟩ := h.line b' hrest
      exact ⟨i + 1, l', by omega, hget, hbegins'⟩
  rising := by
    refine pairwise_cons.2 ⟨fun b' hb' => ?_, h.rising⟩
    have := h.number b' hb'
    omega
  labels name hmem := by
    rcases mem_cons.1 hmem with heq | hrest
    · subst heq
      exact ⟨b, mem_cons_self, hbegins.1⟩
    · obtain ⟨b', hb', hlabel⟩ := h.labels name hrest
      exact ⟨b', mem_cons_of_mem b hb', hlabel⟩

theorem counted_of_textBlocks {inBlock : Bool}
    (h : textBlocks next inBlock line lines = some blocks) : Counted next line lines blocks := by
  induction lines generalizing next inBlock line blocks with
  | nil =>
    cases h
    exact ⟨by simp, by simp, .nil, by simp⟩
  | cons l rest ih =>
    cases l with
    | label name =>
      rw [textBlocks] at h
      split at h
      · next hlabel =>
        obtain ⟨after, hafter, rfl⟩ := Option.map_eq_some_iff.1 h
        exact (ih hafter).begin (Nat.lt_succ_self next) rfl rfl ⟨rfl, hlabel.2⟩
      · cases h
    | inst i =>
      obtain ⟨after, hafter, rfl⟩ := Option.map_eq_some_iff.1 h
      have hcounted := ih hafter
      cases inBlock with
      | true =>
        refine hcounted.later ?_ (by simp)
        simp only [if_true]
        split <;> omega
      | false =>
        refine hcounted.begin ?_ rfl rfl rfl
        simp only [Bool.false_eq_true, if_false]
        split <;> omega

theorem Counted.same_number (h : Counted next line lines blocks) {b' : TextBlock}
    (hb : b ∈ blocks) (hb' : b' ∈ blocks) (heq : b.number = b'.number) : b = b' := by
  have hdistinct : (blocks.map TextBlock.number).Nodup :=
    pairwise_map.2 (h.rising.imp fun hlt => ne_of_lt hlt)
  exact inj_on_of_nodup_map hdistinct hb hb' heq

end Counting

/-- A parser at the beginning of a body. -/
def bodyStart (p : Parser) (f : LrFunc) : FuncParser where
  parser := p
  func := { f with blocks := [], numBlocks := 0 }

theorem named_start (p : Parser) (f : LrFunc) : BlocksNamed (bodyStart p f) where
  numbered := ⟨rfl, by simp [bodyStart]⟩
  below := by simp [bodyStart]
  distinct := .nil

/-- The parser behind the body. -/
structure Parsed (k : Nat) (lines : List BodyLine) (blocks : List TextBlock)
    (out : List LineBlocks) (s : FuncParser) : Prop where
  counted : Counted k 0 lines blocks
  /-- The entry block and those behind it. -/
  first : ∃ after, blocks = ⟨k, none, 0⟩ :: after ∧ ∀ b ∈ after, b.line ≠ 0
  named : BlocksNamed s
  names : ∀ name ∈ s.blockMap.map Prod.fst, Entered lines name
  entry : s.blockMap.lookup entryName = some 0
  block : out[0]?.map LineBlocks.block = some 0
  stands : List.Forall₂ (LineStands lines s) lines out

theorem forall₂_getElem? {α β : Type} {rel : α → β → Prop} {xs : List α} {ys : List β}
    (h : List.Forall₂ rel xs ys) {i : Nat} {x : α} (hx : xs[i]? = some x) :
    ∃ y, ys[i]? = some y ∧ rel x y := by
  induction h generalizing i with
  | nil => cases hx
  | @cons x' y' xs ys hone hrest ih =>
    cases i with
    | zero =>
      cases hx
      exact ⟨y', rfl, hone⟩
    | succ i => exact ih hx

theorem number_entryName : parseU32Decimal entryName = none := by decide

section Meaning
variable {k : Nat} {lines : List BodyLine} {blocks : List TextBlock} {out : List LineBlocks}
  {s : FuncParser}

theorem parse_block {b : Nat} {i : InstLine} {s s' : FuncParser}
    (h : parseLine (some b) (.inst i) s = some (o, s')) : o.block = b := by
  obtain ⟨block, s₁, hblock, h₁⟩ := run_bind_inv h
  cases hblock
  obtain ⟨ids, s₂, -, h₂⟩ := run_bind_inv h₁
  obtain ⟨⟨⟩, s₃, -, h₃⟩ := run_bind_inv h₂
  cases h₃
  rfl

theorem parsed_of_wellNumbered (h : WellNumbered k lines blocks) (p : Parser) (f : LrFunc) :
    ∃ out s, parseBodyBlocks lines (bodyStart p f) = some (out, s) ∧
      Parsed k lines blocks out s := by
  obtain ⟨i, rest, rfl⟩ := h.entry
  -- the body goes on as if it had begun in its entry block
  have hcreate : resolveBlock entryName (bodyStart p f) = some (0,
      { bodyStart p f with
        func := blockCreate entryName (bodyStart p f).func
        blockMap := [(entryName, 0)] }) := rfl
  generalize hs₁ : ({ bodyStart p f with
    func := blockCreate entryName (bodyStart p f).func
    blockMap := [(entryName, 0)] } : FuncParser) = s₁ at hcreate
  obtain ⟨id, s', hrun, hextends, hlookup⟩ :=
    resolveBlock_step (Entered (.inst i :: rest)) (named_start p f) (.inl (.inl rfl))
  rw [hcreate] at hrun
  cases hrun
  have hbegin : parseBodyBlocks (.inst i :: rest) (bodyStart p f) =
      parseLines (some 0) (.inst i :: rest) s₁ := by
    have hmodify : (modify fun s : FuncParser => { s with blockMap := [] } : F PUnit)
        (bodyStart p f) = some ((), bodyStart p f) := rfl
    rw [parseBodyBlocks, run_bind hmodify, parseLines, parseLines]
    have hfirst : parseLine none (.inst i) (bodyStart p f) = parseLine (some 0) (.inst i) s₁ := by
      have hcur : currentBlock (some 0) s₁ = some (0, s₁) := rfl
      have hnone : currentBlock none (bodyStart p f) = some (0, s₁) := hcreate
      rw [parseLine, run_bind hnone, parseLine, run_bind hcur]
    exact congrArg (Option.bind · _) hfirst
  have hcur : ∀ block, some 0 = some block → Placed (.inst i :: rest) s₁ block :=
    fun block hblock => ⟨entryName, .inl rfl, hlookup.trans hblock⟩
  obtain ⟨out, s₂, hrun, hextends₂, hstands⟩ :=
    parseLines_run hextends.blocks hcur fun l (hl : l ∈ .inst i :: rest) => hl
  refine ⟨out, s₂, hbegin.trans hrun, ?_⟩
  have hcounted := counted_of_textBlocks h.counted
  obtain ⟨after, hafter, hblocks⟩ := Option.map_eq_some_iff.1 h.counted
  exact
    { counted := hcounted
      first := by
        refine ⟨after, hblocks.symm, fun b hb => ?_⟩
        obtain ⟨j, l, hline, -, -⟩ := (counted_of_textBlocks hafter).line b hb
        omega
      named := hextends₂.blocks
      names := by
        intro name hname
        rcases hextends₂.names name hname with hold | hnew
        · rcases hextends.names name hold with hnone | hentry
          · cases hnone
          · exact hentry
        · exact hnew
      entry := hextends₂.grows.lookup _ _ hlookup
      block := by
        obtain ⟨o, s₃, hline, hrest⟩ := run_bind_inv hrun
        obtain ⟨os, s₄, -, hout⟩ := run_bind_inv hrest
        cases hout
        exact congrArg some (parse_block hline)
      stands := hstands }

section
variable (h : Parsed k lines blocks out s)
include h

theorem Parsed.number_zero (hb : b ∈ blocks)
    (hnumber : parseU32Decimal r.name = some b.number) (hzero : AtZero r) :
    k = 0 ∧ b = ⟨k, none, 0⟩ := by
  have hb0 : b.number = 0 := Option.some.inj (hnumber.symm.trans hzero.2)
  have hk : k ≤ b.number := h.counted.number b hb
  obtain ⟨after, hblocks, -⟩ := h.first
  have hfirst : (⟨k, none, 0⟩ : TextBlock) ∈ blocks := hblocks ▸ mem_cons_self
  have hk0 : k = 0 := by omega
  exact ⟨hk0, h.counted.same_number hb hfirst (hb0.trans hk0.symm)⟩

/-- The line on which a block begins belongs to the label of the block, to the first block
when it has none and is the entry, and else to a block that began before. -/
theorem Parsed.line_of_block (hb : b ∈ blocks) :
    ∃ o, out[b.line]? = some o ∧
      ((∃ name, b.label = some name ∧ parseU32Decimal name = some b.number ∧
          s.blockMap.lookup name = some o.block ∧ b ≠ ⟨k, none, 0⟩) ∨
        (b = ⟨k, none, 0⟩ ∧ o.block = 0) ∨
        (b.label = none ∧ b.line ≠ 0 ∧ Placed lines s o.block)) := by
  obtain ⟨i, l, hline, hget, hbegins⟩ := h.counted.line b hb
  rw [Nat.zero_add] at hline
  rw [hline]
  obtain ⟨o, hout, hstands⟩ := forall₂_getElem? h.stands hget
  refine ⟨o, hout, ?_⟩
  cases l with
  | label name =>
    refine .inl ⟨name, hbegins.1, hbegins.2, hstands, fun heq => ?_⟩
    rw [heq] at hbegins
    cases hbegins.1
  | inst inst =>
    obtain ⟨after, hblocks, hafter⟩ := h.first
    rw [hblocks] at hb
    rcases mem_cons.1 hb with heq | hrest
    · refine .inr (.inl ⟨heq, ?_⟩)
      have hi : i = 0 := by rw [← hline, heq]
      subst hi
      exact Option.some.inj ((congrArg (Option.map LineBlocks.block) hout).symm.trans h.block)
    · exact .inr (.inr ⟨hbegins, fun hzero => hafter b hrest (hline.trans hzero), hstands.1⟩)

theorem Parsed.spelled (hid : s.blockMap.lookup r.name = some id)
    (hblock : s.blockMap.lookup name = some block) : id = block ↔ r.name = name := by
  constructor
  · intro heq
    rw [heq] at hid
    exact h.named.label_unique hid hblock
  · intro heq
    rw [heq, hblock] at hid
    exact (Option.some.inj hid).symm

/-- No label that the text has elsewhere is spelled like a number of this block. -/
theorem Parsed.ne_origin {name' : CStr} (hb : b ∈ blocks)
    (hnumber : parseU32Decimal name = some b.number) (hlabel : b.label = none)
    (horigin : Origin lines name') : name ≠ name' := by
  rintro rfl
  rcases horigin with rfl | hmem
  · rw [number_entryName] at hnumber
    cases hnumber
  · obtain ⟨b', hb', hlabel'⟩ := h.counted.labels name hmem
    obtain ⟨i, l, -, -, hbegins⟩ := h.counted.line b' hb'
    cases l with
    | inst inst => cases hlabel'.symm.trans hbegins
    | label name' =>
      obtain rfl := Option.some.inj (hlabel'.symm.trans hbegins.1)
      have hsame := h.counted.same_number hb hb'
        (Option.some.inj (hnumber.symm.trans hbegins.2))
      rw [← hsame, hlabel] at hlabel'
      cases hlabel'

/-- A name stands for the block that the text means by it iff it is spelled so. -/
theorem Parsed.stands_iff (hb : b ∈ blocks)
    (hnumber : parseU32Decimal r.name = some b.number) (hstands : Stands s r id) :
    some id = out[b.line]?.map LineBlocks.block ↔ SpelledAsLabel k r b := by
  obtain ⟨o, hout, hcase⟩ := h.line_of_block hb
  rw [hout, Option.map_some, Option.some_inj, SpelledAsLabel]
  by_cases hzero : AtZero r
  · -- `%0` in a phi
    obtain ⟨hk, rfl⟩ := h.number_zero hb hnumber hzero
    rw [Stands, if_pos hzero] at hstands
    have hentry : o.block = 0 := by
      rcases hcase with ⟨name, hlabel, -⟩ | ⟨-, hblock⟩ | ⟨-, hline, -⟩
      · cases hlabel
      · exact hblock
      · exact absurd rfl hline
    exact ⟨fun _ => .inr ⟨hzero.1, hk, rfl⟩, fun _ => hstands.trans hentry.symm⟩
  · rw [Stands, if_neg hzero] at hstands
    have hother : b.line = 0 → b.label = none → ¬ (r.use = .phi ∧ k = 0) := by
      rintro hline hlabel ⟨huse, rfl⟩
      obtain ⟨after, hblocks, hafter⟩ := h.first
      rw [hblocks] at hb
      rcases mem_cons.1 hb with rfl | hrest
      · exact hzero ⟨huse, hnumber⟩
      · exact hafter b hrest hline
    rcases hcase with ⟨name, hlabel, -, hlookup, hne⟩ | ⟨rfl, hblock⟩ | ⟨hlabel, hline, hplaced⟩
    · have hline : b.line ≠ 0 := by
        intro hline
        obtain ⟨after, hblocks, hafter⟩ := h.first
        rw [hblocks] at hb
        rcases mem_cons.1 hb with heq | hrest
        · exact hne heq
        · exact hafter b hrest hline
      rw [h.spelled hstands hlookup, hlabel, Option.some_inj]
      exact ⟨fun heq => .inl heq.symm,
        fun hor => (hor.resolve_right fun hphi => hline hphi.2.2).symm⟩
    · have hentry := h.spelled hstands (h.entry.trans (congrArg some hblock.symm))
      rw [hentry]
      refine ⟨fun heq => absurd heq (h.ne_origin hb hnumber rfl (.inl rfl)), ?_⟩
      rintro (hlabel | ⟨huse, hk, -⟩)
      · cases hlabel
      · exact absurd ⟨huse, hk⟩ (hother rfl rfl)
    · obtain ⟨name, horigin, hlookup⟩ := hplaced
      rw [h.spelled hstands hlookup]
      refine ⟨fun heq => absurd heq (h.ne_origin hb hnumber hlabel horigin), ?_⟩
      rintro (hspelled | ⟨-, -, hzero⟩)
      · rw [hlabel] at hspelled
        cases hspelled
      · exact absurd hzero hline

end

end Meaning

theorem stands_at {k : Nat} {lines : List BodyLine} {blocks : List TextBlock}
    {out : List LineBlocks} {s : FuncParser} (h : Parsed k lines blocks out s) {line ref : Nat}
    {i : InstLine} (hline : lines[line]? = some (.inst i)) (href : i.refs[ref]? = some r) :
    ∃ id, (out[line]?.bind fun o => o.refs[ref]?) = some id ∧ Stands s r id := by
  obtain ⟨o, hout, hstands⟩ := forall₂_getElem? h.stands hline
  obtain ⟨id, hid, hone⟩ := forall₂_getElem? hstands.2 href
  rw [hout, Option.bind_some]
  exact ⟨id, hid, hone⟩

/-- In every body whose entry block has no label, all names of blocks are resolved as the
text numbers them, and to blocks of the text, iff each name is spelled as the label of its
block or is `%0` in a phi behind no unnamed parameter. -/
theorem blocks_resolve_iff (k : Nat) (lines : List BodyLine) (blocks : List TextBlock) (p : Parser)
    (f : LrFunc) (hwf : WellNumbered k lines blocks) :
    (∃ out s, parseBodyBlocks lines (bodyStart p f) = some (out, s) ∧ Resolves lines blocks out s) ↔
    ∀ r b, Means lines blocks r b → SpelledAsLabel k r b := by
  obtain ⟨out, s, hrun, hparsed⟩ := parsed_of_wellNumbered hwf p f
  constructor
  · rintro ⟨out', s', hrun', hresolves⟩ r b ⟨⟨i, hi, hr⟩, hb, hnumber⟩
    obtain ⟨rfl, rfl⟩ := Prod.mk.inj (Option.some.inj (hrun.symm.trans hrun'))
    obtain ⟨line, hline⟩ := mem_iff_getElem?.1 hi
    obtain ⟨ref, href⟩ := mem_iff_getElem?.1 hr
    obtain ⟨id, hid, hstands⟩ := stands_at hparsed hline href
    exact (hparsed.stands_iff hb hnumber hstands).1
      (hid.symm.trans (hresolves.refs line ref i r b hline href hb hnumber))
  · intro hspelled
    refine ⟨out, s, hrun, ?_, ?_⟩
    · intro line ref i r b hline href hb hnumber
      obtain ⟨id, hid, hstands⟩ := stands_at hparsed hline href
      have hmeans : Means lines blocks r b :=
        ⟨⟨i, mem_of_getElem? hline, mem_of_getElem? href⟩, hb, hnumber⟩
      exact hid.trans ((hparsed.stands_iff hb hnumber hstands).2 (hspelled r b hmeans))
    · intro name hname
      rcases hparsed.names name hname with horigin | ⟨i, hi, r, hr, hzero, rfl⟩
      · exact horigin
      · obtain ⟨b, hb, hnumber⟩ := hwf.refs i hi r hr
        rcases hspelled r b ⟨⟨i, hi, hr⟩, hb, hnumber⟩ with hlabel | ⟨huse, hk, hline⟩
        · obtain ⟨j, l, -, hget, hbegins⟩ := hparsed.counted.line b hb
          cases l with
          | inst inst => cases hlabel.symm.trans hbegins
          | label name =>
            obtain heq := Option.some.inj (hlabel.symm.trans hbegins.1)
            exact .inr (heq ▸ mem_of_getElem? hget)
        · obtain ⟨after, hblocks, hafter⟩ := hparsed.first
          rw [hblocks] at hb
          rcases mem_cons.1 hb with rfl | hrest
          · exact absurd ⟨huse, hk ▸ hnumber⟩ hzero
          · exact absurd hline (hafter b hrest)

/-- A branch to the block behind the entry, whose phi names the entry by `number`. -/
def phiOfEntry (next number : CStr) : List BodyLine :=
  [.inst { refs := [⟨.branch, next⟩], terminator := true }, .label next,
    .inst { refs := [⟨.phi, number⟩], unnamed := true },
    .inst { refs := [], terminator := true }]

def entryAndNext (k : Nat) (next : CStr) : List TextBlock := [⟨k, none, 0⟩, ⟨k + 1, some next, 1⟩]

theorem phiOfEntry_wellNumbered {k : Nat} {next number : CStr}
    (hnext : parseU32Decimal next = some (k + 1)) (hnumber : parseU32Decimal number = some k) :
    WellNumbered k (phiOfEntry next number) (entryAndNext k next) where
  counted := by simp [phiOfEntry, entryAndNext, textBlocks, hnext]
  entry := ⟨_, _, rfl⟩
  refs := by
    intro i hi r hr
    simp only [phiOfEntry, mem_cons, not_mem_nil, or_false, BodyLine.inst.injEq,
      reduceCtorEq, false_or] at hi
    rcases hi with rfl | rfl | rfl
    · rw [mem_singleton.1 hr]
      exact ⟨_, mem_cons_of_mem _ mem_cons_self, hnext⟩
    · rw [mem_singleton.1 hr]
      exact ⟨_, mem_cons_self, hnumber⟩
    · cases hr

/-- Behind no unnamed parameter the entry is `%0`. -/
theorem entry_zero_resolves :
    ∃ out s, parseBodyBlocks (phiOfEntry [49] [48])
        (bodyStart twoCasesPlace.parser twoCasesPlace.func) = some (out, s) ∧
      Resolves (phiOfEntry [49] [48]) (entryAndNext 0 [49]) out s := by
  have hwf : WellNumbered 0 (phiOfEntry [49] [48]) (entryAndNext 0 [49]) :=
    phiOfEntry_wellNumbered (by decide) (by decide)
  refine (blocks_resolve_iff 0 _ _ _ _ hwf).2 fun r b hmeans => ?_
  obtain ⟨⟨i, hi, hr⟩, hb, hnumber⟩ := hmeans
  simp only [phiOfEntry, mem_cons, not_mem_nil, or_false, BodyLine.inst.injEq,
    reduceCtorEq, false_or] at hi
  simp only [entryAndNext, mem_cons, not_mem_nil, or_false] at hb
  rcases hi with rfl | rfl | rfl
  · obtain rfl := mem_singleton.1 hr
    rcases hb with rfl | rfl
    · exact absurd hnumber (by decide)
    · exact .inl rfl
  · obtain rfl := mem_singleton.1 hr
    rcases hb with rfl | rfl
    · exact .inr ⟨rfl, rfl, rfl⟩
    · exact absurd hnumber (by decide)
  · cases hr

/-- Behind one unnamed parameter the entry is `%1`, and a phi that says so gets a block that
the text does not have. -/
theorem entry_one_missed :
    WellNumbered 1 (phiOfEntry [50] [49]) (entryAndNext 1 [50]) ∧
      ¬ ∃ out s, parseBodyBlocks (phiOfEntry [50] [49])
          (bodyStart twoCasesPlace.parser twoCasesPlace.func) = some (out, s) ∧
        Resolves (phiOfEntry [50] [49]) (entryAndNext 1 [50]) out s := by
  refine ⟨phiOfEntry_wellNumbered (by decide) (by decide), ?_⟩
  rintro ⟨out, s, hrun, hresolves⟩
  have hout : ((parseBodyBlocks (phiOfEntry [50] [49])
      (bodyStart twoCasesPlace.parser twoCasesPlace.func)).map Prod.fst) =
        some [⟨0, [1]⟩, ⟨1, []⟩, ⟨1, [2]⟩, ⟨1, []⟩] := by
    decide +kernel
  rw [hrun] at hout
  cases hout
  have hphi := hresolves.refs 2 0 _ _ ⟨1, none, 0⟩ rfl rfl mem_cons_self (by decide)
  exact absurd hphi (by decide)

end Liric.Guarantees.BlockNumbers
