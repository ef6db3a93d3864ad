import Liric.Guarantees.SwitchLowering

/-!
# What a switch means

The text of a switch lists a value and a label for each case. The chain that the
parser builds for it leads to the label that the switch selects, with the phis there
assigned, under a condition that is given here exactly: the values are spelled as
numbers, the selection does not depend on a case behind the 256th, and the branch is
taken in the block of the switch itself or finds the phis with their values already.
-/
namespace Liric.Guarantees.SwitchMeaning
open Source.Ir Source.Ll IrSemantics ConstantAddresses SwitchLowering List
open Lib (run_bind)

variable {s' : FuncParser} {bm : List (CStr × Nat)} {name : CStr} {id defaultId link : Nat}
  {cases : List SwitchCase}

structure CaseText where
  literal : Token
  label : Token
  deriving DecidableEq

/-- `switch type value, label default [type literal, label label ...]`. -/
structure SwitchText where
  type : Token
  value : List Token
  default : Token
  cases : List CaseText
  deriving DecidableEq

def CaseText.tokens (type : Token) (c : CaseText) : List Token :=
  [type, c.literal, { kind := .tokComma }, { kind := .tokLabel }, c.label]

/-- What stands behind the scrutinee. -/
def SwitchText.tail (t : SwitchText) : List Token :=
  [{ kind := .tokComma }, { kind := .tokLabel }, t.default, { kind := .tokLbracket }] ++
    t.cases.flatMap (CaseText.tokens t.type) ++ [{ kind := .tokRbracket }]

def SwitchText.tokens (t : SwitchText) : List Token :=
  [{ kind := .tokSwitch }, t.type] ++ t.value ++ t.tail

def isIntType : TokKind → Bool
  | .tokI1 | .tokI8 | .tokI16 | .tokI32 | .tokI64 => true
  | _ => false

/-- The value that a literal spells. -/
def literalValue (t : Token) : BitVec 64 :=
  match t.kind with
  | .tokTrue => 1
  | .tokFalse => 0
  | _ => t.intVal

/-- The number is a signed or an unsigned value of the type. -/
def OfType (type : LrType) (v : BitVec 64) : Prop :=
  (v.setWidth (typeBits (some type))).setWidth 64 = v ∨
    (v.setWidth (typeBits (some type))).signExtend 64 = v

/-- The cases have values of the switch type: numbers, or truth values for `i1`. -/
structure SwitchText.WellFormed (t : SwitchText) (type : LrType) : Prop where
  intType : isIntType t.type.kind = true
  literal : ∀ c ∈ t.cases, (c.literal.kind = .tokIntLit ∧ OfType type c.literal.intVal) ∨
    (t.type.kind = .tokI1 ∧ (c.literal.kind = .tokTrue ∨ c.literal.kind = .tokFalse))
  value : ∀ u ∈ t.value.head?, u.kind ≠ .tokStar ∧ u.kind ≠ .tokLparen
  nonempty : t.value ≠ []

/-- The label that the first of the cases with the scrutinee's value names. -/
def SwitchText.select (t : SwitchText) (type : LrType) (x : BitVec 64)
    (cases : List CaseText) : CStr :=
  ((cases.find? fun c => decide (SameValue (some type) x (literalValue c.literal))).map
    fun c => tokNameView c.label).getD (tokNameView t.default)

/-- A block has at most one label, and the ids of the labels are places. -/
structure BlocksNamed (s : FuncParser) : Prop where
  numbered : Numbered s.func
  below : ∀ e ∈ s.blockMap, e.2 < s.func.blocks.length
  distinct : (s.blockMap.map Prod.snd).Nodup

/-- Labels and blocks are added, and nothing else changes. -/
structure Grows (s s' : FuncParser) : Prop where
  lookup : ∀ name id, s.blockMap.lookup name = some id → s'.blockMap.lookup name = some id
  blocks : ∀ i, i < s.func.blocks.length → s'.func.blocks[i]? = s.func.blocks[i]?
  length : s.func.blocks.length ≤ s'.func.blocks.length

theorem Grows.refl (s : FuncParser) : Grows s s := ⟨fun _ _ h => h, fun _ _ => rfl, le_rfl⟩

theorem Grows.trans {s s'' : FuncParser} (h : Grows s s') (h' : Grows s' s'') :
    Grows s s'' where
  lookup := fun name id hid => h'.lookup name id (h.lookup name id hid)
  blocks := fun i hi => (h'.blocks i (hi.trans_le h.length)).trans (h.blocks i hi)
  length := h.length.trans h'.length

theorem lookup_append {more : List (CStr × Nat)} (h : bm.lookup name = some id) :
    (bm ++ more).lookup name = some id := by
  obtain ⟨pre, post, rfl, hpre⟩ := lookup_eq_some_iff.1 h
  exact lookup_eq_some_iff.2 ⟨pre, post ++ more, by simp, hpre⟩

theorem mem_of_lookup {α : Type} [BEq α] [LawfulBEq α] {bm : List (α × Nat)} {name : α}
    (h : bm.lookup name = some id) : (name, id) ∈ bm := by
  obtain ⟨pre, post, rfl, -⟩ := lookup_eq_some_iff.1 h
  simp

/-- Different labels have different blocks. -/
theorem BlocksNamed.label_unique {s : FuncParser} (h : BlocksNamed s) {name' : CStr}
    (hname : s.blockMap.lookup name = some id) (hname' : s.blockMap.lookup name' = some id) :
    name = name' := by
  have heq := inj_on_of_nodup_map h.distinct (mem_of_lookup hname) (mem_of_lookup hname') rfl
  exact congrArg Prod.fst heq

theorem lookup_new (h : bm.lookup name = none) : (bm ++ [(name, id)]).lookup name = some id := by
  refine lookup_eq_some_iff.2 ⟨bm, [], rfl, ?_⟩
  intro e he
  exact lookup_eq_none_iff.1 h e he

theorem resolveBlock_run {s : FuncParser} (h : BlocksNamed s) (name : CStr) :
    ∃ id s', resolveBlock name s = some (id, s') ∧ s'.parser = s.parser ∧ Grows s s' ∧
      BlocksNamed s' ∧ s'.blockMap.lookup name = some id := by
  unfold resolveBlock
  cases hlookup : s.blockMap.lookup name with
  | some id => exact ⟨id, s, rfl, rfl, Grows.refl s, h, hlookup⟩
  | none =>
    refine ⟨_, _, rfl, rfl, ?_, ?_, lookup_new hlookup⟩
    · exact
        { lookup := fun other id hid => lookup_append hid
          blocks := fun i hi => create_old hi
          length := by simp [blockCreate] }
    · exact
        { numbered := h.numbered.create name
          below := by
            intro e he
            obtain he | he := mem_append.1 he
            · exact (h.below e he).trans_le (by simp [blockCreate])
            · rw [mem_singleton.1 he]
              simp [blockCreate, h.numbered.count]
          distinct := by
            rw [map_append, nodup_append]
            refine ⟨h.distinct, by simp, ?_⟩
            intro id hid id' hid'
            obtain ⟨e, he, rfl⟩ := mem_map.1 hid
            have hlast : id' = s.func.numBlocks := by simpa using hid'
            rw [hlast, h.numbered.count]
            exact (h.below e he).ne }

section Reading
variable {s : FuncParser} {u : Token} {rest : List Token} {kind : TokKind}

/-- The parser in front of these tokens. -/
def before (s : FuncParser) (toks : List Token) : FuncParser :=
  { s with parser := { s.parser with toks := toks } }

theorem before_self {toks : List Token} (h : s.parser.toks = toks) : s = before s toks := by
  rw [← h]
  rfl

theorem BlocksNamed.before (h : BlocksNamed s) (toks : List Token) :
    BlocksNamed (before s toks) := ⟨h.numbered, h.below, h.distinct⟩

theorem ofP_next : ofP next (before s (u :: rest)) = some ((), before s rest) :=
  ofP_run (next_run rfl)

theorem ofP_expect (hk : u.kind = kind) :
    ofP (expect kind) (before s (u :: rest)) = some ((), before s rest) :=
  ofP_run (expect_hit rfl hk)

theorem ofP_expect_kind (kind : TokKind) (s : FuncParser) (rest : List Token) :
    ofP (expect kind) (before s ({ kind := kind } :: rest)) = some ((), before s rest) :=
  ofP_expect rfl

theorem ofP_intVal :
    ofP (do return (← curTok).intVal) (before s (u :: rest)) =
      some (u.intVal, before s (u :: rest)) := rfl

theorem ofP_name :
    ofP (do return tokNameView (← curTok)) (before s (u :: rest)) =
      some (tokNameView u, before s (u :: rest)) := rfl

variable (s u rest) in
theorem ofP_parseType (depth : Nat) {type : Token} {ty : LrType}
    (hty : builtinType s.parser.builtin type.kind = some ty)
    (hstar : u.kind ≠ .tokStar) (hlparen : u.kind ≠ .tokLparen) :
    ofP (parseType (depth + 1)) (before s (type :: u :: rest)) = some (ty, before s (u :: rest)) :=
  ofP_run (parseType_before depth rfl hty hstar hlparen)

/-- The parser with an error. -/
def failed (s : FuncParser) (e : ParseError) : FuncParser :=
  { s with parser := { s.parser with error := some e } }

theorem BlocksNamed.failed (h : BlocksNamed s) (e : ParseError) : BlocksNamed (failed s e) :=
  ⟨h.numbered, h.below, h.distinct⟩

/-- A token of another kind is an error, or the error before it stays. -/
theorem ofP_expect_miss (s : FuncParser) (rest : List Token) (hk : u.kind ≠ kind) :
    ∃ e, ofP (expect kind) (before s (u :: rest)) = some ((), before (failed s e) (u :: rest)) := by
  have hcur : curTok (before s (u :: rest)).parser = some (u, (before s (u :: rest)).parser) := rfl
  have hrun : expect kind (before s (u :: rest)).parser =
      some ((), { (before s (u :: rest)).parser with
        error := s.parser.error <|> some (.expectedToken kind u.kind) }) := by
    rw [expect, run_bind (accept_miss rfl hk)]
    simp only [Bool.false_eq_true, if_false]
    rw [run_bind hcur]
    rfl
  cases herr : s.parser.error with
  | none =>
    rw [herr] at hrun
    exact ⟨_, ofP_run hrun⟩
  | some e =>
    rw [herr] at hrun
    exact ⟨e, ofP_run hrun⟩

theorem ofP_expect_total (kind : TokKind) (s : FuncParser) :
    ∃ p, ofP (expect kind) s = some ((), { s with parser := p }) ∧
      (s.parser.error.isSome → p.error.isSome) := by
  by_cases hk : s.parser.cur.kind = kind
  · have hrun : expect kind s.parser = some ((), { s.parser with toks := s.parser.toks.tail }) := by
      have haccept : accept kind s.parser =
          some (true, { s.parser with toks := s.parser.toks.tail }) := if_pos hk
      rw [expect, run_bind haccept]
      rfl
    exact ⟨_, ofP_run hrun, id⟩
  · have hrun : expect kind s.parser = some ((), { s.parser with
        error := s.parser.error <|> some (.expectedToken kind s.parser.cur.kind) }) := by
      have haccept : accept kind s.parser = some (false, s.parser) := if_neg hk
      rw [expect, run_bind haccept]
      rfl
    refine ⟨_, ofP_run hrun, fun herr => ?_⟩
    obtain ⟨e, he⟩ := Option.isSome_iff_exists.1 herr
    simp [he]

variable (u rest) in
/-- The label is read and has a block afterwards. -/
theorem parseLabel_run (h : BlocksNamed s) :
    ∃ id s', parseLabel (before s (u :: rest)) = some (id, before s' rest) ∧
      s'.parser = s.parser ∧ Grows s s' ∧ BlocksNamed s' ∧
      s'.blockMap.lookup (tokNameView u) = some id := by
  obtain ⟨id, s', hrun, hparser, hgrows, hnamed, hlookup⟩ := resolveBlock_run
    (h.before rest) (tokNameView u)
  refine ⟨id, { s' with parser := s.parser }, ?_, rfl,
    ⟨hgrows.lookup, hgrows.blocks, hgrows.length⟩, ⟨hnamed.numbered, hnamed.below, hnamed.distinct⟩,
    hlookup⟩
  have hplace : s' = before { s' with parser := s.parser } rest := by
    obtain ⟨parser, func, blockMap⟩ := s'
    obtain rfl : parser = _ := hparser
    rfl
  rw [parseLabel, run_bind ofP_name, run_bind ofP_next, hrun, ← hplace]

end Reading

/-- A case of the table is a case of the text. -/
def Reads (bm : List (CStr × Nat)) (c : CaseText) (sc : SwitchCase) : Prop :=
  sc.caseVal = c.literal.intVal ∧ bm.lookup (tokNameView c.label) = some sc.blockId

section Cases
variable {s : FuncParser} {rest : List Token} {type : Token} {ty : LrType}

variable (rest) in
theorem parseCase_run (depth : Nat) {c : CaseText} (h : BlocksNamed s)
    (hty : builtinType s.parser.builtin type.kind = some ty) (hlit : c.literal.kind = .tokIntLit) :
    ∃ sc s', parseCase (depth + 1) (before s (c.tokens type ++ rest)) =
        some (sc, before s' rest) ∧ s'.parser = s.parser ∧ Grows s s' ∧ BlocksNamed s' ∧
      Reads s'.blockMap c sc := by
  have htype := ofP_parseType s c.literal
    ([{ kind := .tokComma }, { kind := .tokLabel }, c.label] ++ rest) depth hty
    (by rw [hlit]; decide) (by rw [hlit]; decide)
  obtain ⟨id, s', hlabel, hparser, hgrows, hnamed, hlookup⟩ := parseLabel_run c.label rest h
  refine ⟨⟨c.literal.intVal, id⟩, s', ?_, hparser, hgrows, hnamed, rfl, hlookup⟩
  rw [parseCase]
  refine (run_bind htype).trans ((run_bind ofP_intVal).trans ((run_bind (ofP_expect hlit)).trans ?_))
  refine (run_bind (ofP_expect_kind .tokComma s _)).trans ?_
  exact (run_bind (ofP_expect_kind .tokLabel s _)).trans (run_bind hlabel)

variable (rest) in
/-- A value that is no number is refused. -/
theorem parseCase_refuses (depth : Nat) {c : CaseText} (h : BlocksNamed s)
    (hty : builtinType s.parser.builtin type.kind = some ty)
    (hlit : c.literal.kind = .tokTrue ∨ c.literal.kind = .tokFalse) :
    ∃ sc s', parseCase (depth + 1) (before s (c.tokens type ++ rest)) = some (sc, s') ∧
      s'.parser.error.isSome ∧ Grows s s' ∧ BlocksNamed s' := by
  have hkind : c.literal.kind ≠ .tokStar ∧ c.literal.kind ≠ .tokLparen ∧
      c.literal.kind ≠ .tokIntLit ∧ c.literal.kind ≠ .tokComma ∧
      c.literal.kind ≠ .tokLabel := by
    obtain hlit | hlit := hlit <;> rw [hlit] <;> decide
  obtain ⟨hstar, hlparen, hint, hcomma, hlabel⟩ := hkind
  have htype := ofP_parseType s c.literal
    ([{ kind := .tokComma }, { kind := .tokLabel }, c.label] ++ rest) depth hty
    hstar hlparen
  obtain ⟨e₁, hlit'⟩ := ofP_expect_miss s
    ([{ kind := .tokComma }, { kind := .tokLabel }, c.label] ++ rest) hint
  obtain ⟨e₂, hcomma'⟩ := ofP_expect_miss (failed s e₁)
    ([{ kind := .tokComma }, { kind := .tokLabel }, c.label] ++ rest) hcomma
  obtain ⟨e₃, hlabel'⟩ := ofP_expect_miss (failed (failed s e₁) e₂)
    ([{ kind := .tokComma }, { kind := .tokLabel }, c.label] ++ rest) hlabel
  obtain ⟨id, s', hname, hparser, hgrows, hnamed, -⟩ := parseLabel_run c.literal
    ([{ kind := .tokComma }, { kind := .tokLabel }, c.label] ++ rest)
    (((h.failed e₁).failed e₂).failed e₃)
  refine ⟨⟨c.literal.intVal, id⟩, before s' ([{ kind := .tokComma }, { kind := .tokLabel },
    c.label] ++ rest), ?_, ?_, ⟨hgrows.lookup, hgrows.blocks, hgrows.length⟩,
    hnamed.before ([{ kind := .tokComma }, { kind := .tokLabel }, c.label] ++ rest)⟩
  · rw [parseCase]
    refine (run_bind htype).trans ((run_bind ofP_intVal).trans ((run_bind hlit').trans ?_))
    exact (run_bind hcomma').trans ((run_bind hlabel').trans (run_bind hname))
  · change s'.parser.error.isSome
    rw [hparser]
    rfl

theorem Reads.grows {s : FuncParser} {c : CaseText} {sc : SwitchCase} (h : Reads s.blockMap c sc)
    (hgrows : Grows s s') : Reads s'.blockMap c sc :=
  ⟨h.1, hgrows.lookup _ _ h.2⟩

/-- A full table takes no more cases. -/
theorem push_take (cases : List SwitchCase) (c : SwitchCase) :
    (if (cases.take switchCasesMax).length < switchCasesMax then cases.take switchCasesMax ++ [c]
      else cases.take switchCasesMax) = (cases ++ [c]).take switchCasesMax := by
  by_cases h : cases.length < switchCasesMax
  · rw [take_of_length_le h.le, if_pos h, take_of_length_le (by simp; omega)]
  · have hle : switchCasesMax ≤ cases.length := Nat.le_of_not_lt h
    rw [if_neg (by simpa using hle), take_append_of_le_length hle]

theorem casesLoop_stop (depth fuel : Nat) (cases : List SwitchCase) {s : FuncParser}
    (h : s.parser.cur.kind = .tokRbracket ∨ s.parser.error.isSome) :
    casesLoop depth (fuel + 1) cases s = some (cases, s) := by
  have hget : (get : F FuncParser) s = some (s, s) := rfl
  rw [casesLoop, run_bind hget, if_pos (by tauto)]
  rfl

theorem casesLoop_more (depth fuel : Nat) (cases : List SwitchCase) {s : FuncParser} {u : Token}
    {toks : List Token} {c : SwitchCase} (herr : s.parser.error = none)
    (hcur : u.kind ≠ .tokRbracket ∧ u.kind ≠ .tokEof)
    (hcase : parseCase depth (before s (u :: toks)) = some (c, s')) :
    casesLoop depth (fuel + 1) cases (before s (u :: toks)) = casesLoop depth fuel
      (if cases.length < switchCasesMax then cases ++ [c] else cases) s' := by
  have hget : (get : F FuncParser) (before s (u :: toks)) =
      some (before s (u :: toks), before s (u :: toks)) := rfl
  have hgo : ¬ ((before s (u :: toks)).parser.cur.kind = .tokRbracket ∨
      (before s (u :: toks)).parser.cur.kind = .tokEof ∨
      (before s (u :: toks)).parser.error.isSome) := by
    rintro (h | h | h)
    · exact hcur.1 h
    · exact hcur.2 h
    · rw [show (before s (u :: toks)).parser.error = none from herr] at h
      cases h
  rw [casesLoop, run_bind hget, if_neg hgo, run_bind hcase]

theorem isIntType_cur {kind : TokKind} (h : isIntType kind = true) :
    kind ≠ .tokRbracket ∧ kind ≠ .tokEof := by
  cases kind <;> simp_all [isIntType]

variable (rest) in
/-- All cases are read; the table keeps the first of them. -/
theorem casesLoop_run (depth : Nat) (hint : isIntType type.kind = true) :
    ∀ (texts : List CaseText) (done : List SwitchCase) (fuel : Nat) (s : FuncParser),
      BlocksNamed s → s.parser.error = none →
      builtinType s.parser.builtin type.kind = some ty →
      (∀ c ∈ texts, c.literal.kind = .tokIntLit) → texts.length ≤ fuel →
      ∃ cases s', casesLoop (depth + 1) (fuel + 1) (done.take switchCasesMax)
          (before s (texts.flatMap (CaseText.tokens type) ++ { kind := .tokRbracket } :: rest)) =
          some ((done ++ cases).take switchCasesMax, before s' ({ kind := .tokRbracket } :: rest)) ∧
        s'.parser = s.parser ∧ Grows s s' ∧ BlocksNamed s' ∧
        List.Forall₂ (Reads s'.blockMap) texts cases
  | [], done, fuel, s, hnamed, _, _, _, _ => by
    refine ⟨[], s, ?_, rfl, Grows.refl s, hnamed, .nil⟩
    rw [append_nil]
    exact casesLoop_stop _ _ _ (.inl rfl)
  | c :: texts, done, fuel, s, hnamed, herr, hty, hlit, hfuel => by
    obtain ⟨fuel, rfl⟩ := Nat.exists_eq_add_of_lt hfuel
    obtain ⟨sc, s₁, hcase, hparser₁, hgrows₁, hnamed₁, hreads⟩ := parseCase_run
      (texts.flatMap (CaseText.tokens type) ++ { kind := .tokRbracket } :: rest) depth
      hnamed hty (hlit c mem_cons_self)
    obtain ⟨cases, s', hrest, hparser, hgrows, hnamed', hall⟩ := casesLoop_run depth hint texts
      (done ++ [sc]) (texts.length + fuel) s₁ hnamed₁ (hparser₁ ▸ herr) (hparser₁ ▸ hty)
      (fun d hd => hlit d (mem_cons_of_mem c hd)) (Nat.le_add_right _ _)
    refine ⟨sc :: cases, s', ?_, hparser.trans hparser₁, hgrows₁.trans hgrows, hnamed',
      .cons (hreads.grows hgrows) hall⟩
    rw [flatMap_cons, append_assoc]
    refine (casesLoop_more _ _ _ herr (isIntType_cur hint) hcase).trans ?_
    rw [push_take]
    simpa using hrest

variable (rest) in
/-- A value that is no number ends the table with an error. -/
theorem casesLoop_refuses (depth : Nat) (hint : isIntType type.kind = true) :
    ∀ (texts : List CaseText) (done : List SwitchCase) (fuel : Nat) (s : FuncParser),
      BlocksNamed s → s.parser.error = none →
      builtinType s.parser.builtin type.kind = some ty →
      (∀ c ∈ texts, c.literal.kind = .tokIntLit ∨ c.literal.kind = .tokTrue ∨
        c.literal.kind = .tokFalse) →
      (∃ c ∈ texts, c.literal.kind ≠ .tokIntLit) → texts.length ≤ fuel →
      ∃ cases s', casesLoop (depth + 1) (fuel + 1) done
          (before s (texts.flatMap (CaseText.tokens type) ++ rest)) = some (cases, s') ∧
        s'.parser.error.isSome ∧ Grows s s' ∧ BlocksNamed s'
  | [], _, _, _, _, _, _, _, hbad, _ => by
    obtain ⟨c, hc, -⟩ := hbad
    cases hc
  | c :: texts, done, fuel, s, hnamed, herr, hty, hlit, hbad, hfuel => by
    obtain ⟨fuel, rfl⟩ := Nat.exists_eq_add_of_lt hfuel
    rw [flatMap_cons, append_assoc]
    obtain hint' | hbool := hlit c mem_cons_self
    · obtain ⟨sc, s₁, hcase, hparser₁, hgrows₁, hnamed₁, -⟩ := parseCase_run
        (texts.flatMap (CaseText.tokens type) ++ rest) depth hnamed hty hint'
      have hbad' : ∃ d ∈ texts, d.literal.kind ≠ .tokIntLit := by
        obtain ⟨d, hd, hne⟩ := hbad
        obtain rfl | hd := mem_cons.1 hd
        · exact absurd hint' hne
        · exact ⟨d, hd, hne⟩
      obtain ⟨cases, s', hrest, herr', hgrows, hnamed'⟩ := casesLoop_refuses depth hint texts
        (if done.length < switchCasesMax then done ++ [sc] else done) (texts.length + fuel) s₁
        hnamed₁ (hparser₁ ▸ herr) (hparser₁ ▸ hty)
        (fun d hd => hlit d (mem_cons_of_mem c hd)) hbad' (Nat.le_add_right _ _)
      refine ⟨cases, s', ?_, herr', hgrows₁.trans hgrows, hnamed'⟩
      exact (casesLoop_more _ _ _ herr (isIntType_cur hint) hcase).trans hrest
    · obtain ⟨sc, s₁, hcase, herr₁, hgrows₁, hnamed₁⟩ := parseCase_refuses
        (texts.flatMap (CaseText.tokens type) ++ rest) depth hnamed hty hbool
      refine ⟨if done.length < switchCasesMax then done ++ [sc] else done, s₁, ?_, herr₁, hgrows₁,
        hnamed₁⟩
      exact (casesLoop_more _ _ _ herr (isIntType_cur hint) hcase).trans
        (casesLoop_stop _ _ _ (.inr herr₁))

end Cases

/-- The scrutinee is read as the operand `val`, by which the parser becomes `p`. -/
structure Scrutinee (depth : Nat) (t : SwitchText) (s : FuncParser) (rest : List Token)
    (ty : LrType) (val : LrOperand) (p : Parser) : Prop where
  run : parseOperand depth ty { s.parser with toks := t.value ++ t.tail ++ rest } = some (val, p)
  toks : p.toks = t.tail ++ rest
  quiet : Quiet p
  builtin : p.builtin = s.parser.builtin
  type : val.type = some ty
  vreg : ∀ v, val.value = .vreg v → v < p.nextVreg

/-- A block that the switch has made and that has no label. -/
def isLink (s s' : FuncParser) (i : Nat) : Bool :=
  decide (s.func.blocks.length ≤ i) && decide (i < s'.func.blocks.length) &&
    !(s'.blockMap.any fun e => e.2 == i)

def brInst (types : BuiltinTypes) (defaultId : Nat) : LrInst :=
  lrInstCreate .br (some types.typeVoid) 0 [lrOpBlock defaultId]

/-- The branches behind the instructions of the block. -/
def Branches (types : BuiltinTypes) (val : LrOperand) (valTy : LrType) (defaultId : Nat)
    (g : LrFunc) (cmp link : Nat) (tail : List LrInst) (cases : List SwitchCase) : Prop :=
  (cases = [] ∧ tail = [brInst types defaultId]) ∨
    Chain types val valTy defaultId g cmp link tail cases

/-- What the switch has become. -/
structure Built (t : SwitchText) (block : Nat) (val : LrOperand) (ty : LrType) (p : Parser)
    (s s' : FuncParser) (defaultId link : Nat) (cases : List SwitchCase) : Prop where
  error : s'.parser.error = none
  reads : List.Forall₂ (Reads s'.blockMap) (t.cases.take switchCasesMax) cases
  default : s'.blockMap.lookup (tokNameView t.default) = some defaultId
  named : BlocksNamed s'
  links : ∀ i, link ≤ i → i < link + (cases.length - 1) → isLink s s' i = true
  tail : ∀ b, s.func.blocks[block]? = some b → ∃ tail,
    s'.func.blocks[block]? = some { b with insts := b.insts ++ tail } ∧
    Branches p.builtin val ty defaultId s'.func p.nextVreg link tail cases

/-- The end of `parseSwitch`. -/
def lowerTable (val : LrOperand) (valTy : LrType) (defaultId block : Nat)
    (cases : List SwitchCase) : F Unit := do
  if cases.isEmpty then
    let types := (← get).parser.builtin
    emitInst block .br types.typeVoid 0 [lrOpBlock defaultId]
  else lowerCases val valTy defaultId block 0 cases

theorem lowerTable_run (val : LrOperand) (valTy : LrType) (defaultId : Nat)
    (cases : List SwitchCase) (s : FuncParser) (block : Nat) (hnum : Numbered s.func)
    (hblock : block < s.func.blocks.length) :
    ∃ s', lowerTable val valTy defaultId block cases s = some ((), s') ∧
      s'.func.blocks.length = s.func.blocks.length + (cases.length - 1) ∧ Numbered s'.func ∧
      s'.blockMap = s.blockMap ∧ (s.parser.error.isSome → s'.parser.error.isSome) ∧
      (Quiet s.parser → Quiet s'.parser) ∧
      ∀ b, s.func.blocks[block]? = some b → ∃ tail,
        s'.func.blocks[block]? = some { b with insts := b.insts ++ tail } ∧
        Branches s.parser.builtin val valTy defaultId s'.func s.parser.nextVreg
          s.func.blocks.length tail cases := by
  cases cases with
  | nil =>
    have hget : (get : F FuncParser) s = some (s, s) := rfl
    obtain ⟨p', hrun, hsame⟩ := emitInst_run block .br s.parser.builtin.typeVoid 0
      [lrOpBlock defaultId] s
    refine ⟨{ s with
        parser := p'
        func := appendInsts s.func block [brInst s.parser.builtin defaultId] }, ?_,
      length_appendInsts, hnum.append, rfl, hsame.error, hsame.quiet, ?_⟩
    · rw [lowerTable, if_pos isEmpty_nil, run_bind hget]
      exact hrun
    · exact fun b hb => ⟨_, appendInsts_self hb, .inl ⟨rfl, rfl⟩⟩
  | cons c rest =>
    obtain ⟨s', hrun, hlow⟩ := lowerCases_run val valTy defaultId (c :: rest) block 0 s
      (cons_ne_nil c rest) hnum hblock
    refine ⟨s', ?_, hlow.length, hlow.numbered, hlow.blockMap, hlow.error, hlow.quiet, ?_⟩
    · rw [lowerTable, if_neg (by simp)]
      exact hrun
    · intro b hb
      obtain ⟨tail, htail, hchain⟩ := hlow.tail b hb
      exact ⟨tail, htail, .inr hchain⟩

section Parsing
variable {depth block : Nat} {t : SwitchText} {s : FuncParser} {rest : List Token} {ty : LrType}
  {val : LrOperand} {p : Parser}

variable (block) in
/-- Up to the opening bracket. -/
theorem parseSwitch_header (hwf : t.WellFormed ty)
    (hty : builtinType s.parser.builtin t.type.kind = some ty)
    (htoks : s.parser.toks = t.tokens ++ rest) (hnamed : BlocksNamed s)
    (hval : Scrutinee (depth + 1) t s rest ty val p) :
    ∃ defaultId s₁, s₁.parser = p ∧ Grows s s₁ ∧ BlocksNamed s₁ ∧
      s₁.blockMap.lookup (tokNameView t.default) = some defaultId ∧
      parseSwitch (depth + 1) block s =
        (do
          let fuel := (← get).parser.toks.length + 1
          let cases ← casesLoop (depth + 1) fuel []
          ofP (expect .tokRbracket)
          lowerTable val ty defaultId block cases : F Unit)
        (before s₁ (t.cases.flatMap (CaseText.tokens t.type) ++
          { kind := .tokRbracket } :: rest)) := by
  obtain ⟨u, value, hvalue⟩ := exists_cons_of_ne_nil hwf.nonempty
  have hu := hwf.value u (by rw [hvalue]; rfl)
  have hplace : s = before s (({ kind := .tokSwitch } : Token) :: t.type :: u ::
      (value ++ t.tail ++ rest)) := by
    refine before_self ?_
    rw [htoks, SwitchText.tokens, hvalue]
    simp
  have hnext : ofP next s = some ((), before s (t.type :: u :: (value ++ t.tail ++ rest))) := by
    rw [hplace]
    exact ofP_next
  have htype := ofP_parseType s u (value ++ t.tail ++ rest) depth hty hu.1 hu.2
  have hscrutinee : ofP (parseOperand (depth + 1) ty)
      (before s (u :: (value ++ t.tail ++ rest))) =
      some (val, before { s with parser := p } (({ kind := .tokComma } : Token) ::
        { kind := .tokLabel } :: t.default :: { kind := .tokLbracket } ::
        (t.cases.flatMap (CaseText.tokens t.type) ++ { kind := .tokRbracket } :: rest))) := by
    have hrun := hval.run
    rw [hvalue] at hrun
    have hp : before { s with parser := p } (({ kind := .tokComma } : Token) ::
        { kind := .tokLabel } :: t.default :: { kind := .tokLbracket } ::
        (t.cases.flatMap (CaseText.tokens t.type) ++ { kind := .tokRbracket } :: rest)) =
        { s with parser := p } := by
      refine (before_self ?_).symm
      rw [hval.toks, SwitchText.tail]
      simp
    rw [hp]
    exact ofP_run hrun
  have hnamed' : BlocksNamed { s with parser := p } :=
    ⟨hnamed.numbered, hnamed.below, hnamed.distinct⟩
  obtain ⟨defaultId, s₁, hlabel, hparser, hgrows, hnamed₁, hlookup⟩ := parseLabel_run
    t.default (({ kind := .tokLbracket } : Token) ::
      (t.cases.flatMap (CaseText.tokens t.type) ++ { kind := .tokRbracket } :: rest)) hnamed'
  refine ⟨defaultId, s₁, hparser, ⟨hgrows.lookup, hgrows.blocks, hgrows.length⟩, hnamed₁,
    hlookup, ?_⟩
  rw [parseSwitch]
  refine (run_bind hnext).trans ((run_bind htype).trans ((run_bind hscrutinee).trans ?_))
  refine (run_bind (ofP_expect_kind .tokComma _ _)).trans ?_
  refine (run_bind (ofP_expect_kind .tokLabel _ _)).trans ((run_bind hlabel).trans ?_)
  exact run_bind (ofP_expect_kind .tokLbracket s₁ _)

theorem length_le_toks (texts : List CaseText) (type : Token) (s : FuncParser) (rest : List Token) :
    texts.length ≤
      (before s (texts.flatMap (CaseText.tokens type) ++ rest)).parser.toks.length := by
  change texts.length ≤ (texts.flatMap (CaseText.tokens type) ++ rest).length
  rw [length_append]
  refine Nat.le_add_right_of_le ?_
  induction texts with
  | nil => exact le_rfl
  | cons c texts ih =>
    simp only [flatMap_cons, length_append, length_cons, CaseText.tokens]
    omega

theorem isLink_of_fresh {s₂ : FuncParser} (hgrows : Grows s s₂) (hnamed : BlocksNamed s₂)
    (hmap : s'.blockMap = s₂.blockMap) {i : Nat} (hle : s₂.func.blocks.length ≤ i)
    (hlt : i < s'.func.blocks.length) : isLink s s' i = true := by
  have hany : (s'.blockMap.any fun e => e.2 == i) = false := by
    rw [hmap, any_eq_false]
    intro e he
    simpa using ((hnamed.below e he).trans_le hle).ne
  simp only [isLink, hany, decide_eq_true (hgrows.length.trans hle), decide_eq_true hlt]
  rfl

section
variable (hwf : t.WellFormed ty) (hty : builtinType s.parser.builtin t.type.kind = some ty)
  (htoks : s.parser.toks = t.tokens ++ rest) (hnamed : BlocksNamed s)
  (hblock : block < s.func.blocks.length) (hval : Scrutinee (depth + 1) t s rest ty val p)
include hwf hty htoks hnamed hblock hval

/-- A switch whose values are numbers is lowered to a chain over its first cases. -/
theorem parseSwitch_run (hlit : ∀ c ∈ t.cases, c.literal.kind = .tokIntLit) :
    ∃ s' defaultId link cases, parseSwitch (depth + 1) block s = some ((), s') ∧
      Built t block val ty p s s' defaultId link cases := by
  obtain ⟨defaultId, s₁, hp, hgrows, hnamed₁, hdefault, hheader⟩ :=
    parseSwitch_header block hwf hty htoks hnamed hval
  generalize hplace : before s₁ (t.cases.flatMap (CaseText.tokens t.type) ++
    { kind := .tokRbracket } :: rest) = s₀ at hheader
  have hget : (get : F FuncParser) s₀ = some (s₀, s₀) := rfl
  have hfuel : t.cases.length ≤ s₀.parser.toks.length := by
    rw [← hplace]
    exact length_le_toks t.cases t.type s₁ _
  obtain ⟨all, s₂, hcases, hparser₂, hgrows₂, hnamed₂, hall⟩ := casesLoop_run rest
    depth hwf.intType t.cases [] s₀.parser.toks.length s₁ hnamed₁ (hp ▸ hval.quiet.1)
    (by rw [hp, hval.builtin]; exact hty) hlit hfuel
  rw [hplace] at hcases
  obtain ⟨s', hlower, hlength, hnum, hmap, -, hquiet, htail⟩ := lowerTable_run val ty defaultId
    (all.take switchCasesMax) (before s₂ rest) block hnamed₂.numbered
    (hblock.trans_le (hgrows.trans hgrows₂).length)
  refine ⟨s', defaultId, s₂.func.blocks.length, all.take switchCasesMax, ?_, ?_⟩
  · rw [hheader, run_bind hget]
    refine (run_bind hcases).trans ?_
    exact (run_bind (ofP_expect_kind .tokRbracket s₂ rest)).trans hlower
  · have hp₂ : s₂.parser = p := hparser₂.trans hp
    have hmap' : s'.blockMap = s₂.blockMap := hmap
    exact
      { error := (hquiet (by rw [before, hp₂]; exact hval.quiet)).1
        reads := by
          rw [hmap']
          exact forall₂_take switchCasesMax hall
        default := by
          rw [hmap']
          exact hgrows₂.lookup _ _ hdefault
        named :=
          { numbered := hnum
            below := by
              intro e he
              rw [hmap'] at he
              rw [hlength]
              exact (hnamed₂.below e he).trans_le (Nat.le_add_right _ _)
            distinct := by
              rw [hmap']
              exact hnamed₂.distinct }
        links := fun i hle hlt =>
          isLink_of_fresh (hgrows.trans hgrows₂) hnamed₂ hmap' hle (by rw [hlength]; exact hlt)
        tail := by
          intro b hb
          have hb' : s₂.func.blocks[block]? = some b := by
            rw [(hgrows.trans hgrows₂).blocks block hblock]
            exact hb
          obtain ⟨tail, hnew, hbranches⟩ := htail b hb'
          refine ⟨tail, hnew, ?_⟩
          rw [← hp₂]
          exact hbranches }

/-- A switch with a value that is no number is refused. -/
theorem parseSwitch_refuses (hlit : ∃ c ∈ t.cases, c.literal.kind ≠ .tokIntLit) :
    ∃ s', parseSwitch (depth + 1) block s = some ((), s') ∧ s'.parser.error.isSome := by
  obtain ⟨defaultId, s₁, hp, hgrows, hnamed₁, -, hheader⟩ :=
    parseSwitch_header block hwf hty htoks hnamed hval
  have hkinds : ∀ c ∈ t.cases, c.literal.kind = .tokIntLit ∨ c.literal.kind = .tokTrue ∨
      c.literal.kind = .tokFalse := by
    intro c hc
    obtain ⟨hint, -⟩ | ⟨-, hbool⟩ := hwf.literal c hc
    · exact .inl hint
    · exact .inr hbool
  generalize hplace : before s₁ (t.cases.flatMap (CaseText.tokens t.type) ++
    { kind := .tokRbracket } :: rest) = s₀ at hheader
  have hget : (get : F FuncParser) s₀ = some (s₀, s₀) := rfl
  obtain ⟨cases, s₂, hcases, herr, hgrows₂, hnamed₂⟩ := casesLoop_refuses
    ({ kind := .tokRbracket } :: rest) depth hwf.intType t.cases []
    s₀.parser.toks.length s₁ hnamed₁ (hp ▸ hval.quiet.1) (by rw [hp, hval.builtin]; exact hty)
    hkinds hlit (by rw [← hplace]; exact length_le_toks t.cases t.type s₁ _)
  rw [hplace] at hcases
  obtain ⟨p', hexpect, herr'⟩ := ofP_expect_total .tokRbracket s₂
  obtain ⟨s', hlower, -, -, -, herror, -⟩ := lowerTable_run val ty defaultId cases
    { s₂ with parser := p' } block hnamed₂.numbered
    (hblock.trans_le (hgrows.trans hgrows₂).length)
  refine ⟨s', ?_, herror (herr' herr)⟩
  rw [hheader, run_bind hget]
  exact (run_bind hcases).trans ((run_bind hexpect).trans hlower)

end

end Parsing

/-- A function that contains the lowered switch. Its phis name blocks by their labels,
and nothing but the chain uses the registers of the comparisons. -/
structure Completes (t : SwitchText) (block : Nat) (p : Parser) (s s' : FuncParser)
    (g : LrFunc) : Prop where
  same : ∀ i, i = block ∨ isLink s s' i = true → g.blocks[i]? = s'.func.blocks[i]?
  wellFormed : ∀ (i : Nat) b, g.blocks[i]? = some b → WellFormedPhis b
  labels : ∀ (i : Nat) b, g.blocks[i]? = some b → ∀ phi ∈ phis b, ∀ o id,
    (o, id) ∈ incoming phi.operands → isLink s s' id = false
  registers : ∀ (i : Nat) b, g.blocks[i]? = some b → ∀ phi ∈ phis b, ∀ v,
    (v = phi.dest ∨ ∃ o id, (o, id) ∈ incoming phi.operands ∧ o.value = .vreg v) →
    v < p.nextVreg ∨ p.nextVreg + (t.cases.take switchCasesMax).length ≤ v

/-- From its block, behind the instructions it had before, control gets to the block
with the label, and each phi there has the value of its operand for the switch. -/
def Transfers (env : ExecEnv) (g : LrFunc) (s s' : FuncParser) (block : Nat) (ρ : Regs)
    (label : CStr) : Prop :=
  ∃ b b' fuel pred id ρ', s.func.blocks[block]? = some b ∧ g.blocks[block]? = some b' ∧
    follow env g (isLink s s') fuel block (b'.insts.drop b.insts.length) ρ = some (pred, id, ρ') ∧
    s'.blockMap.lookup label = some id ∧
    ∀ target, g.blocks[id]? = some target → ∀ phi ∈ phis target, ∀ o,
      (o, block) ∈ incoming phi.operands →
      enterBlock env pred target ρ' phi.dest = operandValue env ρ o

/-- The first comparison decides. -/
def FirstDecides (t : SwitchText) (ty : LrType) (x : BitVec 64) : Prop :=
  t.cases.length ≤ 1 ∨ ∃ c ∈ t.cases.head?, SameValue (some ty) x (literalValue c.literal)

/-- The phis of the block with the label have their values already. -/
def PhisHold (env : ExecEnv) (g : LrFunc) (s' : FuncParser) (block : Nat) (ρ : Regs)
    (label : CStr) : Prop :=
  ∀ id target, s'.blockMap.lookup label = some id → g.blocks[id]? = some target →
    ∀ phi ∈ phis target, ∀ o, (o, block) ∈ incoming phi.operands → ρ phi.dest = operandValue env ρ o

section Meaning
variable {t : SwitchText} {ty : LrType} {env : ExecEnv} {ρ : Regs} {val : LrOperand}
  {g : LrFunc}

theorem typeBits_of_isI1 (h : ty.isI1 = true) : typeBits (some ty) = 1 := by
  cases ty with
  | scalar addr kind => cases kind <;> first | rfl | cases h
  | _ => cases h

/-- An immediate of type `i1` is the same truth value. -/
theorem sameValue_caseImm {v : BitVec 64} (h : OfType ty v) (x : BitVec 64) :
    SameValue (some ty) x (caseImm ty v) ↔ SameValue (some ty) x v := by
  unfold caseImm
  by_cases hi1 : ty.isI1 = true
  · rw [if_pos hi1]
    have hv : (if v = 0 then (0 : BitVec 64) else 1).setWidth (typeBits (some ty)) =
        v.setWidth (typeBits (some ty)) := by
      unfold OfType at h
      rw [typeBits_of_isI1 hi1] at h ⊢
      generalize hb : v.setWidth 1 = b at h ⊢
      have hbit : ∀ b : BitVec 1, b = 0#1 ∨ b = 1#1 := by decide
      obtain rfl | rfl := hbit b
      · have hzero : v = 0 := by
          obtain h | h := h <;> rw [← h] <;> decide
        rw [if_pos hzero]
        rfl
      · have hone : v ≠ 0 := by
          obtain h | h := h <;> rw [← h] <;> decide
        rw [if_neg hone]
        rfl
    rw [SameValue, SameValue, hv]
  · rw [if_neg hi1]

/-- The selections of the text and of the table agree. -/
theorem selectedBlock_lookup {texts : List CaseText} (hval : val.type = some ty)
    (hdefault : bm.lookup (tokNameView t.default) = some defaultId)
    (hall : List.Forall₂ (Reads bm) texts cases)
    (hlit : ∀ c ∈ texts, c.literal.kind = .tokIntLit ∧ OfType ty c.literal.intVal) :
    bm.lookup (t.select ty (operandValue env ρ val) texts) =
      some (selectedBlock env ρ val ty defaultId cases) := by
  induction hall with
  | nil => exact hdefault
  | @cons c sc texts cases hreads hall ih =>
    have hc := hlit c mem_cons_self
    have hmatch : Matches env ρ val (caseImm ty sc.caseVal) ↔
        SameValue (some ty) (operandValue env ρ val) (literalValue c.literal) := by
      rw [Matches, hval, hreads.1, sameValue_caseImm hc.2, literalValue, hc.1]
    by_cases h : Matches env ρ val (caseImm ty sc.caseVal)
    · have hlabel : t.select ty (operandValue env ρ val) (c :: texts) = tokNameView c.label := by
        simp [SwitchText.select, hmatch.1 h]
      have hblock : selectedBlock env ρ val ty defaultId (sc :: cases) = sc.blockId := by
        simp [selectedBlock, h]
      rw [hlabel, hblock]
      exact hreads.2
    · have hlabel : t.select ty (operandValue env ρ val) (c :: texts) =
          t.select ty (operandValue env ρ val) texts := by
        rw [SwitchText.select, find?_cons_of_neg (by simpa using fun hs => h (hmatch.2 hs))]
        rfl
      have hblock : selectedBlock env ρ val ty defaultId (sc :: cases) =
          selectedBlock env ρ val ty defaultId cases := by
        rw [selectedBlock, find?_cons_of_neg (by simpa using h)]
        rfl
      rw [hlabel, hblock]
      exact ih fun d hd => hlit d (mem_cons_of_mem c hd)

variable (env ρ) in
theorem leavesFirst_iff (hval : val.type = some ty)
    (hall : List.Forall₂ (Reads bm) (t.cases.take switchCasesMax) cases)
    (hlit : ∀ c ∈ t.cases, c.literal.kind = .tokIntLit ∧ OfType ty c.literal.intVal) :
    LeavesFirst env ρ val ty cases ↔ FirstDecides t ty (operandValue env ρ val) := by
  unfold FirstDecides
  cases htexts : t.cases with
  | nil =>
    rw [htexts] at hall
    cases hall
    simp [LeavesFirst]
  | cons c texts =>
    have hc := hlit c (htexts ▸ mem_cons_self)
    have htake : (c :: texts).take switchCasesMax = c :: texts.take 255 := rfl
    rw [htexts, htake] at hall
    obtain ⟨sc, rest, hreads, hrest, rfl⟩ := forall₂_cons_left_iff.1 hall
    have hmatch : Matches env ρ val (caseImm ty sc.caseVal) ↔
        SameValue (some ty) (operandValue env ρ val) (literalValue c.literal) := by
      rw [Matches, hval, hreads.1, sameValue_caseImm hc.2, literalValue, hc.1]
    have hnil : rest = [] ↔ (c :: texts).length ≤ 1 := by
      have hlen := hrest.length_eq
      rw [length_take] at hlen
      rw [← length_eq_zero_iff, length_cons]
      omega
    rw [LeavesFirst, hmatch, hnil]
    simp

theorem Chain.same {types : BuiltinTypes} {valTy : LrType} {f : LrFunc} :
    ∀ {cases : List SwitchCase} {cmp link : Nat} {tail : List LrInst},
      Chain types val valTy defaultId f cmp link tail cases →
      (∀ i, link ≤ i → i < link + (cases.length - 1) → g.blocks[i]? = f.blocks[i]?) →
      Chain types val valTy defaultId g cmp link tail cases
  | [], _, _, _, h, _ => h.elim
  | [c], _, _, _, h, _ => h
  | c :: c' :: rest, cmp, link, tail, h, hsame => by
    obtain ⟨htail, blk, hblk, hrest⟩ := h
    refine ⟨htail, blk, ?_, Chain.same hrest fun i hle hlt => hsame i (by omega) ?_⟩
    · rw [hsame link le_rfl (by simp), hblk]
    · simp only [length_cons] at hlt ⊢
      omega

theorem follow_mono {isLink : Nat → Bool} :
    ∀ {fuel : Nat} {pred : Nat} {insts : List LrInst} {ρ : Regs} {r : Nat × Nat × Regs},
      follow env g isLink fuel pred insts ρ = some r → ∀ more,
      follow env g isLink (fuel + more) pred insts ρ = some r
  | 0, _, _, _, _, h, _ => nomatch h
  | fuel + 1, pred, insts, ρ, r, h, more => by
    rw [Nat.succ_add_eq_add_succ, Nat.add_succ, follow]
    rw [follow] at h
    obtain ⟨q, hq, hrest⟩ := Option.bind_eq_some_iff.1 h
    rw [hq, Option.bind_some]
    by_cases hlink : isLink q.1 = true
    · rw [if_pos hlink] at hrest ⊢
      obtain ⟨b, hb, hrest⟩ := Option.bind_eq_some_iff.1 hrest
      rw [hb, Option.bind_some]
      exact follow_mono hrest more
    · rw [if_neg hlink] at hrest ⊢
      exact hrest

/-- More rounds do not change where control gets to. -/
theorem follow_unique {isLink : Nat → Bool} {fuel fuel' pred : Nat} {insts : List LrInst}
    {r r' : Nat × Nat × Regs} (h : follow env g isLink fuel pred insts ρ = some r)
    (h' : follow env g isLink fuel' pred insts ρ = some r') : r = r' := by
  have hmore := follow_mono h fuel'
  have hmore' := follow_mono h' fuel
  rw [Nat.add_comm] at hmore'
  exact Option.some.inj (hmore.symm.trans hmore')

variable (env ρ) in
/-- Where the branches of the table lead, from which block, and with which registers. -/
theorem follow_branches (pred : Nat) {types : BuiltinTypes} {cmp : Nat} {tail : List LrInst}
    {isLink : Nat → Bool} (h : Branches types val ty defaultId g cmp link tail cases)
    (hlinks : ∀ i, link ≤ i → i < link + (cases.length - 1) → isLink i = true)
    (hcases : ∀ c ∈ cases, isLink c.blockId = false) (hdefault : isLink defaultId = false)
    (hval : ∀ v, val.value = .vreg v → v < cmp) :
    ∃ fuel pred' ρ', follow env g isLink fuel pred tail ρ =
        some (pred', selectedBlock env ρ val ty defaultId cases, ρ') ∧
      (∀ v, v < cmp ∨ cmp + cases.length ≤ v → ρ' v = ρ v) ∧
      (LeavesFirst env ρ val ty cases → pred' = pred) ∧
      (¬ LeavesFirst env ρ val ty cases → isLink pred' = true) := by
  obtain ⟨rfl, rfl⟩ | hchain := h
  · refine ⟨1, pred, ρ, ?_, fun _ _ => rfl, fun _ => rfl, fun hne => absurd trivial hne⟩
    have hexec : execBlock env [brInst types defaultId] ρ = some (defaultId, ρ) := rfl
    rw [follow, hexec, Option.bind_some, hdefault]
    rfl
  · exact ⟨_, follow_chain cases cmp link pred cases.length tail ρ hchain hlinks hcases hdefault
      hval le_rfl⟩

theorem isLink_label {s : FuncParser} (h : s'.blockMap.lookup name = some id) :
    isLink s s' id = false := by
  have hany : (s'.blockMap.any fun e => e.2 == id) = true :=
    any_eq_true.2 ⟨(name, id), mem_of_lookup h, by simp⟩
  simp [isLink, hany]

theorem operandValue_same {ρ' : Regs} {o : LrOperand}
    (h : ∀ v, o.value = .vreg v → ρ' v = ρ v) : operandValue env ρ' o = operandValue env ρ o := by
  unfold operandValue
  cases ho : o.value with
  | vreg v => exact h v ho
  | _ => rfl

section
variable {s : FuncParser} {p : Parser} {block : Nat}
  (h : Built t block val ty p s s' defaultId link cases) (hcomp : Completes t block p s s' g)
include h hcomp

/-- Where the lowered switch leads, and what the phis find there. -/
theorem Built.follow {b : LrBlock} (hb : s.func.blocks[block]? = some b)
    (htype : val.type = some ty) (hvreg : ∀ v, val.value = .vreg v → v < p.nextVreg)
    (hlit : ∀ c ∈ t.cases, c.literal.kind = .tokIntLit ∧ OfType ty c.literal.intVal) (env : ExecEnv)
    (ρ : Regs) :
    ∃ b' fuel pred id ρ', g.blocks[block]? = some b' ∧
      follow env g (isLink s s') fuel block (b'.insts.drop b.insts.length) ρ = some (pred, id, ρ') ∧
      s'.blockMap.lookup
        (t.select ty (operandValue env ρ val) (t.cases.take switchCasesMax)) = some id ∧
      (∀ v, v < p.nextVreg ∨ p.nextVreg + (t.cases.take switchCasesMax).length ≤ v → ρ' v = ρ v) ∧
      (FirstDecides t ty (operandValue env ρ val) → pred = block) ∧
      (¬ FirstDecides t ty (operandValue env ρ val) → isLink s s' pred = true) := by
  obtain ⟨tail, hblock, hbranches⟩ := h.tail b hb
  have hg : g.blocks[block]? = some { b with insts := b.insts ++ tail } :=
    (hcomp.same block (.inl rfl)).trans hblock
  have hbranches' : Branches p.builtin val ty defaultId g p.nextVreg link tail cases :=
    hbranches.imp id fun hchain => Chain.same hchain fun i hle hlt =>
      hcomp.same i (.inr (h.links i hle hlt))
  have hlabels : ∀ c ∈ cases, isLink s s' c.blockId = false := by
    intro c hc
    obtain ⟨i, hi, rfl⟩ := mem_iff_get.1 hc
    have hreads := h.reads.get (by rw [h.reads.length_eq]; exact i.isLt) i.isLt
    exact isLink_label hreads.2
  obtain ⟨fuel, pred, ρ', hfollow, hregs, hfirst, hlater⟩ := follow_branches env ρ block
    hbranches' h.links hlabels (isLink_label h.default) hvreg
  have hdecides := leavesFirst_iff env ρ htype h.reads hlit
  refine ⟨{ b with insts := b.insts ++ tail }, fuel, pred,
    selectedBlock env ρ val ty defaultId cases, ρ', hg, ?_, ?_, ?_, ?_, ?_⟩
  · rw [drop_left]
    exact hfollow
  · exact selectedBlock_lookup htype h.default h.reads
      fun c hc => hlit c (mem_of_mem_take hc)
  · rw [h.reads.length_eq]
    exact hregs
  · exact fun hd => hfirst (hdecides.2 hd)
  · exact fun hd => hlater fun hleaves => hd (hdecides.1 hleaves)

theorem Built.transfers_iff (hblock : block < s.func.blocks.length) (htype : val.type = some ty)
    (hvreg : ∀ v, val.value = .vreg v → v < p.nextVreg)
    (hlit : ∀ c ∈ t.cases, c.literal.kind = .tokIntLit ∧ OfType ty c.literal.intVal) (env : ExecEnv)
    (ρ : Regs) :
    Transfers env g s s' block ρ (t.select ty (operandValue env ρ val) t.cases) ↔
      t.select ty (operandValue env ρ val) (t.cases.take switchCasesMax) =
        t.select ty (operandValue env ρ val) t.cases ∧
      (FirstDecides t ty (operandValue env ρ val) ∨
        PhisHold env g s' block ρ (t.select ty (operandValue env ρ val) t.cases)) := by
  have hb : s.func.blocks[block]? = some s.func.blocks[block] := getElem?_eq_getElem hblock
  obtain ⟨b', fuel, pred, id, ρ', hb', hfollow, hlookup, hregs, hfirst, hlater⟩ :=
    h.follow hcomp hb htype hvreg hlit env ρ
  -- the phis of the block that control gets to
  have hphis : (∀ target, g.blocks[id]? = some target → ∀ phi ∈ phis target, ∀ o,
      (o, block) ∈ incoming phi.operands →
      enterBlock env pred target ρ' phi.dest = operandValue env ρ o) ↔
      FirstDecides t ty (operandValue env ρ val) ∨
        ∀ target, g.blocks[id]? = some target → ∀ phi ∈ phis target, ∀ o,
          (o, block) ∈ incoming phi.operands → ρ phi.dest = operandValue env ρ o := by
    by_cases hd : FirstDecides t ty (operandValue env ρ val)
    · refine ⟨fun _ => .inl hd, fun _ target htarget phi hphi o ho => ?_⟩
      rw [hfirst hd, enterBlock_incoming (hcomp.wellFormed id target htarget) hphi ho]
      exact operandValue_same fun v hv => hregs v
        (hcomp.registers id target htarget phi hphi v (.inr ⟨o, block, ho, hv⟩))
    · have hkept : ∀ target, g.blocks[id]? = some target → ∀ phi ∈ phis target,
          enterBlock env pred target ρ' phi.dest = ρ phi.dest := by
        intro target htarget phi hphi
        rw [enterBlock_absent (hcomp.wellFormed id target htarget) hphi]
        · exact hregs _ (hcomp.registers id target htarget phi hphi _ (.inl rfl))
        · intro o ho
          have hno := hcomp.labels id target htarget phi hphi o pred ho
          rw [hlater hd] at hno
          cases hno
      constructor
      · intro hall
        refine .inr fun target htarget phi hphi o ho => ?_
        rw [← hkept target htarget phi hphi]
        exact hall target htarget phi hphi o ho
      · rintro (hd' | hall) target htarget phi hphi o ho
        · exact absurd hd' hd
        · rw [hkept target htarget phi hphi]
          exact hall target htarget phi hphi o ho
  constructor
  · rintro ⟨b₀, b₁, fuel', pred', id', ρ'', hb₀, hb₁, hfollow', hlookup', hvalues⟩
    obtain rfl : _ = b₀ := Option.some.inj (hb.symm.trans hb₀)
    obtain rfl : b' = b₁ := Option.some.inj (hb'.symm.trans hb₁)
    have heq := follow_unique hfollow hfollow'
    cases heq
    refine ⟨h.named.label_unique hlookup hlookup', (hphis.1 hvalues).imp_right ?_⟩
    intro hall id₂ target hid₂ htarget
    obtain rfl : id = id₂ := Option.some.inj (hlookup'.symm.trans hid₂)
    exact hall target htarget
  · rintro ⟨hselect, hcond⟩
    rw [hselect] at hlookup
    refine ⟨_, b', fuel, pred, id, ρ', hb, hb', hfollow, hlookup, hphis.2 (hcond.imp (fun hd => hd) ?_)⟩
    exact fun hall target htarget => hall id target hlookup htarget

end

end Meaning

/-- The switch transfers control and values exactly when its values are spelled as
numbers, no case behind the table is selected, and the branch is taken in the block of the
switch or finds the phis with their values. -/
theorem switch_transfers_iff {depth block addr : Nat} {t : SwitchText} {s : FuncParser}
    {rest : List Token} {ty : LrType} {val : LrOperand} {p : Parser} (hwf : t.WellFormed ty)
    (hbuiltin : s.parser.builtin = lrModuleCreateTypes addr)
    (hty : builtinType (lrModuleCreateTypes addr) t.type.kind = some ty)
    (htoks : s.parser.toks = t.tokens ++ rest) (hnamed : BlocksNamed s)
    (hblock : block < s.func.blocks.length) (hval : Scrutinee (depth + 1) t s rest ty val p) :
    ∃ s', parseSwitch (depth + 1) block s = some ((), s') ∧
      ∀ g, Completes t block p s s' g → ∀ env ρ,
        s'.parser.error = none ∧
          Transfers env g s s' block ρ (t.select ty (operandValue env ρ val) t.cases) ↔
        (∀ c ∈ t.cases, c.literal.kind = .tokIntLit) ∧
          t.select ty (operandValue env ρ val) (t.cases.take switchCasesMax) =
            t.select ty (operandValue env ρ val) t.cases ∧
          (FirstDecides t ty (operandValue env ρ val) ∨
            PhisHold env g s' block ρ (t.select ty (operandValue env ρ val) t.cases)) := by
  rw [← hbuiltin] at hty
  by_cases hlit : ∀ c ∈ t.cases, c.literal.kind = .tokIntLit
  · obtain ⟨s', defaultId, link, cases, hrun, hbuilt⟩ :=
      parseSwitch_run hwf hty htoks hnamed hblock hval hlit
    have hvalues : ∀ c ∈ t.cases, c.literal.kind = .tokIntLit ∧ OfType ty c.literal.intVal := by
      intro c hc
      obtain hint | ⟨-, hbool⟩ := hwf.literal c hc
      · exact hint
      · rw [hlit c hc] at hbool
        obtain hbool | hbool := hbool <;> cases hbool
    refine ⟨s', hrun, fun g hcomp env ρ => ?_⟩
    rw [hbuilt.transfers_iff hcomp hblock hval.type hval.vreg hvalues env ρ]
    exact and_congr (iff_of_true hbuilt.error hlit) Iff.rfl
  · have hbad : ∃ c ∈ t.cases, c.literal.kind ≠ .tokIntLit := by
      by_contra hno
      exact hlit fun c hc => by_contra fun hne => hno ⟨c, hc, hne⟩
    obtain ⟨s', hrun, herr⟩ := parseSwitch_refuses hwf hty htoks hnamed hblock hval hbad
    refine ⟨s', hrun, fun g _ env ρ => iff_of_false ?_ fun h => hlit h.1⟩
    rintro ⟨hnone, -⟩
    rw [hnone] at herr
    cases herr

def labelTok (name : List UInt8) : Token := { kind := .tokLocalId, text := 37 :: name }

/-- `switch i32 %x, label %d [ i32 1, label %a  i32 2, label %b ]`. -/
def twoCases : SwitchText where
  type := { kind := .tokI32 }
  value := [labelTok [120]]
  default := labelTok [100]
  cases :=
    [⟨{ kind := .tokIntLit, intVal := 1 }, labelTok [97]⟩,
      ⟨{ kind := .tokIntLit, intVal := 2 }, labelTok [98]⟩]

/-- In the entry block of a function whose parameter is `%x`. -/
def twoCasesPlace : FuncParser where
  parser :=
    { toks := twoCases.tokens
      builtin := lrModuleCreateTypes 0
      symbols := ⟨[], [], 0, []⟩
      nextAddr := 11
      vregMap := [([120], 1)]
      nextVreg := 2 }
  func := blockCreate [101]
    { name := [102], symbolId := 0, type := .func 11 (.scalar 4 .i32) [.scalar 4 .i32] false,
      retType := .scalar 4 .i32, paramTypes := [.scalar 4 .i32], vararg := false }
  blockMap := [([101], 0)]

@[irreducible]
def twoCasesDone : FuncParser := (((parseSwitch 1 0 twoCasesPlace).map Prod.snd).getD twoCasesPlace)

/-- In the block `%b`: `%y = phi i32 [ 7, %entry ]`. -/
def sevenPhi : LrInst :=
  lrInstCreate .phi (some (.scalar 4 .i32)) 5 [lrOpImmI64 7 (some (.scalar 4 .i32)), lrOpBlock 0]

def twoCasesFunc : LrFunc := appendInsts twoCasesDone.func 3 [sevenPhi]

/-- The scrutinee. -/
def twoCasesVal : LrOperand := lrOpVreg 1 (some (.scalar 4 .i32))

def twoCasesRead : Parser :=
  { twoCasesPlace.parser with toks := twoCases.tail, vregTypes := [(1, .scalar 4 .i32)] }

theorem twoCases_wellFormed : twoCases.WellFormed (.scalar 4 .i32) where
  intType := rfl
  literal := by
    intro c hc
    refine .inl ?_
    obtain rfl | hc := mem_cons.1 hc
    · exact ⟨rfl, .inl rfl⟩
    · obtain rfl := mem_singleton.1 hc
      exact ⟨rfl, .inl rfl⟩
  value := by
    intro u hu
    obtain rfl : labelTok [120] = u := Option.some.inj hu
    decide
  nonempty := by decide

theorem twoCases_named : BlocksNamed twoCasesPlace where
  numbered :=
    { count := rfl
      ids := by
        intro i b hb
        match i, hb with
        | 0, rfl => rfl }
  below := by decide
  distinct := by decide

theorem twoCases_scrutinee :
    Scrutinee 1 twoCases twoCasesPlace [] (.scalar 4 .i32) twoCasesVal twoCasesRead where
  run := by decide
  toks := by rw [append_nil]; rfl
  quiet := ⟨rfl, by decide⟩
  builtin := rfl
  type := rfl
  vreg := by
    intro v hv
    obtain rfl : 1 = v := OperandValue.vreg.inj hv
    decide

theorem twoCases_run : parseSwitch 1 0 twoCasesPlace = some ((), twoCasesDone) := by
  decide +kernel

theorem twoCases_completes :
    Completes twoCases 0 twoCasesRead twoCasesPlace twoCasesDone twoCasesFunc := by
  have hblocks : ∀ b ∈ twoCasesFunc.blocks, phis b = [] ∨ phis b = [sevenPhi] := by
    decide +kernel
  have hphis : ∀ (i : Nat) b, twoCasesFunc.blocks[i]? = some b → ∀ phi ∈ phis b,
      phi = sevenPhi := by
    intro i b hb phi hphi
    obtain h | h := hblocks b (mem_of_getElem? hb)
    · rw [h] at hphi
      cases hphi
    · rw [h] at hphi
      exact mem_singleton.1 hphi
  have hincoming : incoming sevenPhi.operands = [(lrOpImmI64 7 (some (.scalar 4 .i32)), 0)] := by
    decide
  refine ⟨?_, ?_, ?_, ?_⟩
  · intro i hi
    refine appendInsts_of_ne ?_
    rintro rfl
    have hno : isLink twoCasesPlace twoCasesDone 3 = false := by decide +kernel
    obtain hi | hi := hi
    · exact absurd hi (by decide)
    · rw [hno] at hi
      exact Bool.noConfusion hi
  · intro i b hb
    obtain h | h := hblocks b (mem_of_getElem? hb)
    · refine ⟨by rw [h]; exact nodup_nil, ?_⟩
      rw [h]
      intro phi hphi
      exact absurd hphi not_mem_nil
    · refine ⟨by rw [h]; exact nodup_singleton _, ?_⟩
      rw [h]
      intro phi hphi o o' pred ho ho'
      rw [mem_singleton.1 hphi, hincoming, mem_singleton] at ho ho'
      exact congrArg Prod.fst (ho.trans ho'.symm)
  · intro i b hb phi hphi o id ho
    rw [hphis i b hb phi hphi, hincoming, mem_singleton] at ho
    rw [(Prod.mk.inj ho).2]
    decide
  · intro i b hb phi hphi v hv
    rw [hphis i b hb phi hphi] at hv
    obtain rfl | ⟨o, id, ho, hvreg⟩ := hv
    · exact .inr (by decide)
    · rw [hincoming, mem_singleton] at ho
      obtain ⟨rfl, -⟩ := Prod.mk.inj ho
      cases hvreg

def noOther : ExecEnv := ⟨fun _ => 0, fun _ ρ => ρ⟩

theorem twoCases_take : twoCases.cases.take switchCasesMax = twoCases.cases :=
  take_of_length_le (by decide)

/-- With `%x = 1` the first comparison leads to `%a`. -/
theorem switch_transfers_iff_twoCases :
    twoCasesDone.parser.error = none ∧
      Transfers noOther twoCasesFunc twoCasesPlace twoCasesDone 0 (fun _ => 1)
        (twoCases.select (.scalar 4 .i32) 1 twoCases.cases) := by
  have htoks : twoCasesPlace.parser.toks = twoCases.tokens ++ [] := by decide
  obtain ⟨s', hrun, hiff⟩ := switch_transfers_iff twoCases_wellFormed rfl rfl htoks twoCases_named Nat.zero_lt_one
    twoCases_scrutinee
  rw [twoCases_run] at hrun
  cases hrun
  refine (hiff twoCasesFunc twoCases_completes noOther fun _ => 1).2 ⟨?_, ?_, .inl (.inr ?_)⟩
  · decide
  · rw [twoCases_take]
  · exact ⟨⟨{ kind := .tokIntLit, intVal := 1 }, labelTok [97]⟩, rfl, by decide⟩

/-- With `%x = 2` control comes to `%b` from the link, and the phi there is not
assigned. -/
theorem phi_behind_link_missed :
    twoCases.WellFormed (.scalar 4 .i32) ∧ twoCasesPlace.parser.toks = twoCases.tokens ++ [] ∧
      BlocksNamed twoCasesPlace ∧
      Scrutinee 1 twoCases twoCasesPlace [] (.scalar 4 .i32) twoCasesVal twoCasesRead ∧
      parseSwitch 1 0 twoCasesPlace = some ((), twoCasesDone) ∧
      Completes twoCases 0 twoCasesRead twoCasesPlace twoCasesDone twoCasesFunc ∧
      ¬ Transfers noOther twoCasesFunc twoCasesPlace twoCasesDone 0 (fun _ => 2)
        (twoCases.select (.scalar 4 .i32) (operandValue noOther (fun _ => 2) twoCasesVal)
          twoCases.cases) := by
  refine ⟨twoCases_wellFormed, by decide, twoCases_named, twoCases_scrutinee,
    twoCases_run, twoCases_completes, ?_⟩
  rintro ⟨b, b', fuel, pred, id, ρ', hb, hb', hfollow, -, hvalues⟩
  have hrun : (((twoCasesFunc.blocks[0]?).bind fun b => follow noOther twoCasesFunc
      (isLink twoCasesPlace twoCasesDone) 2 0 b.insts fun _ => 2).map
        fun r => (r.1, r.2.1, r.2.2 5)) = some (4, 3, 2) := by decide +kernel
  have hempty : (twoCasesPlace.func.blocks[0]?).map (fun b => b.insts) = some [] := by
    decide
  rw [hb, Option.map_some, Option.some.injEq] at hempty
  rw [hempty] at hfollow
  rw [hb', Option.bind_some, Option.map_eq_some_iff] at hrun
  obtain ⟨r, hr, heq⟩ := hrun
  obtain rfl := follow_unique hr hfollow
  simp only [Prod.mk.injEq] at heq
  obtain ⟨rfl, rfl, hfive⟩ := heq
  have htarget : (twoCasesFunc.blocks[3]?).map phis = some [sevenPhi] := by decide +kernel
  obtain ⟨target, htarget, hphis⟩ := Option.map_eq_some_iff.1 htarget
  have hin : (lrOpImmI64 7 (some (.scalar 4 .i32)), 0) ∈ incoming sevenPhi.operands := by
    decide
  have hvalue := hvalues target htarget sevenPhi (by rw [hphis]; exact mem_singleton_self _)
    _ hin
  have hentered : enterBlock noOther 4 target ρ' sevenPhi.dest = ρ' 5 := by
    have hfor : operandFor 4 sevenPhi = none := by decide
    rw [enterBlock, hphis, find?_cons_of_pos (by decide), Option.bind_some, hfor]
    rfl
  rw [hentered, hfive] at hvalue
  revert hvalue
  decide

end Liric.Guarantees.SwitchMeaning
