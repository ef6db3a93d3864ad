import Liric.Guarantees.ParserFrames
import Liric.Guarantees.TokenTiling
import Liric.Source.Ll.FunctionBody

/-!
# Invokes as calls and branches

The lexer drops the ends of lines, so the rest of the line of an invoke, a landing pad or a resume
is the rest of the file. A body with one of them is read as the body in which the invoke is a call
and a branch only if that body is refused as well.
-/
namespace Liric.Guarantees.InvokeLines
open Lib ParserFrames TokenTiling Source.Ir Source.Ll Option List

section Lexer
variable (strtod : CStr → BitVec 64)

theorem lookupKeyword_line (s : CStr) : lookupKeyword s ≠ .tokNewline := by
  have hinteger : ∀ kind, lookupInteger s = some kind → kind ≠ .tokNewline := by
    intro kind h
    unfold lookupInteger at h
    split at h <;> (repeat' split at h) <;> first | (cases h; decide) | cases h
  have hswitch : ∀ kind, keywordSwitch s = some kind → kind ≠ .tokNewline := by
    intro kind h
    have hall : ∀ kind ∈ keywordCases.map fun row => row.2.2, kind ≠ .tokNewline := by
      decide +kernel
    exact hall kind (HashSwitch.mem_of_dispatch h)
  unfold lookupKeyword
  split
  · decide
  · cases hfirst : lookupInteger s with
    | some kind => exact hinteger kind hfirst
    | none =>
      cases hsecond : keywordSwitch s with
      | some kind => exact hswitch kind hsecond
      | none => decide

theorem identKind_line (s : CStr) : identKind s ≠ .tokNewline := by
  unfold identKind
  simp only
  split
  · exact lookupKeyword_line s
  · decide

theorem punctuation_line {c : UInt8} {kind : TokKind} (h : punctuation c = some kind) :
    kind ≠ .tokNewline := by
  unfold punctuation at h
  split at h <;> cases h <;> decide

theorem scanToken_line (c : UInt8) (rest : CStr) :
    (scanToken strtod c rest).kind ≠ .tokNewline := by
  have hident : (scanIdent c rest).kind ≠ .tokNewline := by
    unfold scanIdent
    split
    · exact identKind_line _
    · decide
  have hnumber : (scanNumber strtod c rest).kind ≠ .tokNewline := by
    unfold scanNumber scanDecimal
    simp only
    (repeat' split) <;> simp
  have hdot : (scanDot rest).kind ≠ .tokNewline := by
    unfold scanDot
    (repeat' split) <;> simp
  unfold scanToken
  split
  · next kind hkind => exact punctuation_line hkind
  · (repeat' split) <;> first | exact hident | exact hnumber | exact hdot | simp

theorem lexAll_line {fuel : Nat} {lex : Lexer} {toks : List LexToken}
    (h : lexAll strtod fuel lex = some toks) : ∀ t ∈ toks, t.kind ≠ .tokNewline := by
  induction fuel generalizing lex toks with
  | zero => cases h
  | succ fuel ih =>
    simp only [lexAll] at h
    split at h
    · cases h
      simp
    · obtain ⟨later, hlater, rfl⟩ := map_eq_some_iff.1 h
      simp only [mem_cons, forall_eq_or_imp]
      refine ⟨?_, ih hlater⟩
      unfold lrLexerNext
      simp only
      split
      · simp
      · exact scanToken_line strtod _ _

/-- No token that does not end a line. -/
def OneLine (toks : List Token) : Prop := ∀ t ∈ toks, t.kind ≠ .tokNewline

theorem lexText_line (text : CStr) : OneLine (lexText strtod text) := by
  obtain ⟨toks, hall⟩ := lexAll_total strtod text
  have hlex := hall (text.length + 1) (Nat.lt_succ_self _)
  intro t ht
  rw [lexText, hlex] at ht
  obtain ⟨u, hu, rfl⟩ := mem_map.1 ht
  exact lexAll_line strtod hlex u hu

end Lexer

set_option synthInstance.maxSize 1024

section Forward

instance forward_sigLoop (fuel : Nat) (s : SigScan) : Frame Forward (sigLoop fuel s) := by
  induction fuel generalizing s with
  | zero => exact frame_undefined
  | succ fuel ih =>
    unfold sigLoop
    infer_instance

instance forward_starsLoop (fuel : Nat) : Frame Forward (starsLoop fuel) := by
  induction fuel with
  | zero => exact frame_undefined
  | succ fuel ih =>
    unfold starsLoop
    infer_instance

instance forward_calleeSignature : Frame Forward skipOptionalCalleeSignature := by
  unfold skipOptionalCalleeSignature
  infer_instance

instance forward_argsLoop (depth fuel : Nat) (args : List LrOperand) :
    Frame Forward (argsLoop (parseTypedOperand depth) fuel args) := by
  induction fuel generalizing args with
  | zero => exact frame_undefined
  | succ fuel ih =>
    unfold argsLoop
    infer_instance

instance forward_callArgs (depth : Nat) : Frame Forward (callArgs (parseTypedOperand depth)) := by
  unfold callArgs
  infer_instance

instance forward_callText (depth : Nat) : Frame Forward (callText depth) := by
  refine frame_seq (frame_parseType depth) fun ty => frame_seq frame_skipAttrs fun _ =>
    frame_seq forward_calleeSignature fun sig => ?_
  cases sig <;> dsimp only <;> infer_instance

instance forward_metadata : Frame Forward skipMetadata := by
  have hloop : ∀ fuel, Frame Forward (metadataLoop fuel) := by
    intro fuel
    induction fuel with
    | zero => exact frame_undefined
    | succ fuel ih =>
      refine ⟨fun p a q hrun => ?_⟩
      unfold metadataLoop at hrun
      split at hrun
      · next c m rest htoks =>
        split at hrun
        · have hrest : q.toks <:+ (m :: rest).dropWhile isMetadata := ih.run _ _ _ hrun
          have hdrop : (m :: rest).dropWhile isMetadata <:+ c :: m :: rest :=
            (dropWhile_suffix _).trans (suffix_cons _ _)
          rw [Forward, htoks]
          exact hrest.trans hdrop
        · cases hrun
          exact suffix_refl _
      · cases hrun
        exact suffix_refl _
  unfold skipMetadata
  infer_instance

end Forward

/-- No token in front of the parser ends a line. -/
def Flat (s : FuncParser) : Prop := OneLine s.parser.toks

theorem OneLine.suffix {toks rest : List Token} (h : OneLine toks) (hrest : rest <:+ toks) :
    OneLine rest :=
  fun t ht => h t (hrest.subset ht)

variable {s t : FuncParser}

section Stays
variable {α : Type}

instance flat_ofP {x : P α} [hx : Frame Forward x] : Stays Flat (ofP x) := by
  constructor
  intro s a t hs hrun
  obtain ⟨⟨b, p⟩, hp, hdone⟩ := map_eq_some_iff.1 hrun
  cases hdone
  exact hs.suffix (hx.run _ _ _ hp)

/-- A step that leaves the parser alone. -/
theorem flat_step {x : F α} (h : ∀ s a t, x s = some (a, t) → t.parser = s.parser) :
    Stays Flat x := by
  constructor
  intro s a t hs hrun
  rw [Flat, h s a t hrun]
  exact hs

theorem parser_createBlock {name : CStr} {r : Nat × Nat}
    (h : createBlock name s = some (r, t)) : t.parser = s.parser := by
  cases h
  rfl

theorem parser_resolveBlock {name : CStr} {id : Nat}
    (h : resolveBlock name s = some (id, t)) : t.parser = s.parser := by
  unfold resolveBlock at h
  split at h
  · cases h
    rfl
  · obtain ⟨⟨r, u⟩, hcreate, hdone⟩ := map_eq_some_iff.1 h
    have hparser : u.parser = s.parser := parser_createBlock hcreate
    cases hdone
    exact hparser

instance flat_resolveBlock (name : CStr) : Stays Flat (resolveBlock name) :=
  flat_step fun _ _ _ => parser_resolveBlock

instance flat_blockAppend (block : Nat) (inst : LrInst) : Stays Flat (blockAppend block inst) := by
  apply flat_step
  intro s a t h
  cases h
  rfl

instance flat_recordDestType (dest : Nat) (type : LrType) :
    Stays Flat (recordDestType dest type) := by
  unfold recordDestType
  infer_instance

instance flat_emitInst (block : Nat) (op : Opcode) (type : LrType) (dest : Nat)
    (ops : List LrOperand) : Stays Flat (emitInst block op type dest ops) := by
  unfold emitInst
  infer_instance

instance flat_parseLabel : Stays Flat parseLabel := by
  unfold parseLabel
  infer_instance

instance flat_parseCall (depth block dest : Nat) : Stays Flat (parseCall depth block dest) := by
  unfold parseCall emitCall
  infer_instance

instance flat_emitBr (block target : Nat) : Stays Flat (emitBr block target) := by
  unfold emitBr
  infer_instance

instance flat_parseBr (depth block : Nat) : Stays Flat (parseBr depth block) := by
  refine Stays.bind inferInstance fun _ => Stays.ite ?_ ?_
  · refine Stays.bind inferInstance fun _ => Stays.bind inferInstance fun s => ?_
    infer_instance
  · infer_instance

instance flat_invokeHead (depth block dest : Nat) : Stays Flat (invokeHead depth block dest) := by
  unfold invokeHead
  infer_instance

instance flat_resolveBlockPtr (name : CStr) : Stays Flat (resolveBlockPtr name) := by
  unfold resolveBlockPtr
  infer_instance

instance flat_otherInst (other : OtherInst) (dest : Option Nat) (op : TokKind) (block : Nat) :
    Stays Flat (otherInst other dest op block) := by
  constructor
  intro s a t hs hrun
  obtain ⟨⟨n, u⟩, -, hdone⟩ := map_eq_some_iff.1 hrun
  cases hdone
  exact hs.suffix (drop_suffix n _)

instance forward_lineLoop (fuel : Nat) : Frame Forward (lineLoop fuel) := by
  induction fuel with
  | zero => exact frame_undefined
  | succ fuel ih =>
    unfold lineLoop
    infer_instance

instance flat_skipToNewline : Stays Flat (ofP skipToNewline) := by
  unfold skipToNewline
  infer_instance

instance flat_parseInvoke (depth block dest : Nat) : Stays Flat (parseInvoke depth block dest) := by
  unfold parseInvoke
  infer_instance

end Stays

/-- At the end of the text, or with an error. -/
def AtEnd (s : FuncParser) : Prop :=
  s.parser.cur.kind = .tokEof ∨ s.parser.error.isSome = true

theorem lineLoop_step (fuel : Nat) (p : Parser) :
    lineLoop (fuel + 1) p =
      (if p.cur.kind == .tokNewline || p.cur.kind == .tokEof || p.error.isSome then pure ()
      else next >>= fun _ => lineLoop fuel) p := rfl

variable {a : Unit}

theorem lineLoop_end (fuel : Nat) {p q : Parser} (hline : OneLine p.toks)
    (h : lineLoop fuel p = some (a, q)) : q.cur.kind = .tokEof ∨ q.error.isSome = true := by
  induction fuel generalizing p with
  | zero => cases h
  | succ fuel ih =>
    have hcur : p.cur.kind ≠ .tokNewline := by
      unfold Parser.cur
      cases hp : p.toks with
      | nil => simp
      | cons t rest =>
        rw [hp] at hline
        exact hline t mem_cons_self
    by_cases hend : p.cur.kind = .tokEof ∨ p.error.isSome = true
    · have hstop : lineLoop (fuel + 1) p = some ((), p) := by
        rw [lineLoop_step, if_pos (by rcases hend with h | h <;> simp [h])]
        rfl
      rw [hstop] at h
      cases h
      exact hend
    · have hnext : lineLoop (fuel + 1) p = lineLoop fuel { p with toks := p.toks.tail } := by
        obtain ⟨hkind, herror⟩ := not_or.1 hend
        rw [lineLoop_step, if_neg (by simpa [hcur, hkind] using herror)]
        rfl
      rw [hnext] at h
      exact ih (hline.suffix (tail_suffix _)) h

theorem skipToNewline_end : Partial Flat (ofP skipToNewline) fun _ => AtEnd := by
  intro s a t hs hrun
  obtain ⟨⟨b, p⟩, hp, hdone⟩ := map_eq_some_iff.1 hrun
  have hend := lineLoop_end _ hs hp
  cases hdone
  exact hend

theorem parser_emitBr {block target : Nat}
    (h : emitBr block target s = some (a, t)) : t.parser = s.parser := by
  cases h
  rfl

theorem parseInvoke_end (depth block dest : Nat) :
    Partial Flat (parseInvoke depth block dest) fun _ => AtEnd := by
  refine Partial.bind (flat_invokeHead depth block dest).run fun normal =>
    Partial.bind skipToNewline_end fun _ => ?_
  intro s a t hs hrun
  rw [AtEnd, parser_emitBr hrun]
  exact hs

instance atEnd_skipMetadata : Stays AtEnd (ofP skipMetadata) := by
  have hloop : ∀ fuel (p q : Parser) (a : Unit), (p.cur.kind = .tokEof ∨ p.error.isSome = true) →
      metadataLoop fuel p = some (a, q) → q.cur.kind = .tokEof ∨ q.error.isSome = true := by
    intro fuel
    induction fuel with
    | zero =>
      intro p q a _ hrun
      cases hrun
    | succ fuel ih =>
      intro p q a hend hrun
      unfold metadataLoop at hrun
      split at hrun
      · next c m rest htoks =>
        split at hrun
        · next hcomma =>
          have herror : p.error.isSome = true := by
            refine hend.resolve_left fun heof => ?_
            rw [Parser.cur, htoks, headD_cons, hcomma.1] at heof
            cases heof
          refine ih _ q a ?_ hrun
          exact Or.inr herror
        · cases hrun
          exact hend
      · cases hrun
        exact hend
  constructor
  intro s a t hs hrun
  obtain ⟨⟨b, p⟩, hp, hdone⟩ := map_eq_some_iff.1 hrun
  have hend := hloop _ _ _ _ hs hp
  cases hdone
  exact hend

theorem bodyEnds_of_atEnd (h : AtEnd s) : bodyEnds s.parser = true := by
  rcases h with hkind | herror
  · simp [bodyEnds, hkind]
  · simp [bodyEnds, herror]

instance atEnd_bodyLoop (instruction : Nat → F Unit) (fuel : Nat) (cur : Option Nat) :
    Stays AtEnd (bodyLoop instruction fuel cur) := by
  constructor
  intro s a t hs hrun
  cases fuel with
  | zero => cases hrun
  | succ fuel =>
    have hstop : bodyLoop instruction (fuel + 1) cur s = some ((), s) := by
      unfold bodyLoop
      refine (run_bind (a := s) (t := s) rfl).trans ?_
      rw [if_pos (bodyEnds_of_atEnd hs)]
      rfl
    rw [hstop] at hrun
    cases hrun
    exact hs

/-- The closing brace that is missing at the end. -/
theorem expect_atEnd (hs : AtEnd s)
    (hrun : ofP (expect .tokRbrace) s = some (a, t)) : t.parser.error.isSome = true := by
  obtain ⟨⟨b, p⟩, hp, hdone⟩ := map_eq_some_iff.1 hrun
  have herror : p.error.isSome = true := by
    unfold expect at hp
    by_cases hbrace : s.parser.cur.kind = .tokRbrace
    · have hset : s.parser.error.isSome = true := by
        refine hs.resolve_left fun heof => ?_
        rw [hbrace] at heof
        cases heof
      have haccept : accept .tokRbrace s.parser =
          some (true, { s.parser with toks := s.parser.toks.tail }) := if_pos hbrace
      rw [run_bind haccept] at hp
      cases hp
      exact hset
    · have haccept : accept .tokRbrace s.parser = some (false, s.parser) := if_neg hbrace
      rw [run_bind haccept] at hp
      cases hp
      simp
  cases hdone
  exact herror

/-- The rest of the line, where `line` counts its tokens. -/
def dropLine (line : List Token → Nat) : P Unit :=
  modify fun p => { p with toks := p.toks.drop (line p.toks) }

/-- An invoke read as the call and the branch to its normal label. -/
def loweredInvoke (line : List Token → Nat) (depth block dest : Nat) : F Unit := do
  let normalId ← invokeHead depth block dest
  emitBr block normalId
  ofP (dropLine line)

section Readings
variable (other : OtherInst) (depth : Nat) (line : List Token → Nat)

def loweredInstruction (block : Nat) : F Unit :=
  instructionWith other depth (loweredInvoke line depth) (ofP (dropLine line)) block

/-- Without results for an invoke, a landing pad or a resume. -/
def plainInstruction (block : Nat) : F Unit :=
  instructionWith other depth (fun _ _ _ => none) (fun _ => none) block

theorem forks_invoke (block dest : Nat) :
    Forks Flat AtEnd (parseInvoke depth block dest) (loweredInvoke line depth block dest)
      (fun _ => none) :=
  Forks.stop (parseInvoke_end depth block dest)

theorem forks_pad : Forks Flat AtEnd (ofP skipToNewline) (ofP (dropLine line)) (fun _ => none) :=
  Forks.stop skipToNewline_end

theorem forks_assigned (block dest : Nat) :
    Forks Flat AtEnd
      (parseAssigned other depth (parseInvoke depth) (ofP skipToNewline) block dest)
      (parseAssigned other depth (loweredInvoke line depth) (ofP (dropLine line)) block dest)
      (parseAssigned other depth (fun _ _ _ => none) (fun _ => none) block dest) := by
  refine Forks.bindSame fun op => Forks.bindSame fun _ =>
    Forks.bindSame fun _ => ?_
  exact Forks.ite (Forks.refl _) (Forks.ite (forks_invoke depth line block dest)
    (Forks.ite (forks_pad line) (Forks.refl _)))

theorem forks_void (block : Nat) :
    Forks Flat AtEnd
      (parseVoid other depth (parseInvoke depth) (ofP skipToNewline) block)
      (parseVoid other depth (loweredInvoke line depth) (ofP (dropLine line)) block)
      (parseVoid other depth (fun _ _ _ => none) (fun _ => none) block) := by
  refine Forks.bindSame fun op => ?_
  refine Forks.ite (Forks.refl _) (Forks.ite (Forks.refl _) (Forks.ite ?_ ?_))
  · exact Forks.bindSame fun _ => forks_invoke depth line block 0
  · exact Forks.ite (forks_pad line) (Forks.refl _)

theorem forks_instruction (block : Nat) :
    Forks Flat AtEnd (parseInstruction other depth block)
      (loweredInstruction other depth line block) (plainInstruction other depth block) := by
  refine Forks.bindSame fun t => Forks.ite ?_ (forks_void other depth line block)
  refine Forks.bindSame fun _ => Forks.bindSame fun _ => Forks.ite ?_ (Forks.refl _)
  exact Forks.bindSame fun dest =>
    forks_assigned other depth line block dest

instance flat_assigned (block dest : Nat) :
    Stays Flat (parseAssigned other depth (parseInvoke depth) (ofP skipToNewline) block dest) := by
  unfold parseAssigned
  infer_instance

instance flat_void (block : Nat) :
    Stays Flat (parseVoid other depth (parseInvoke depth) (ofP skipToNewline) block) := by
  unfold parseVoid
  infer_instance

instance flat_instruction (block : Nat) : Stays Flat (parseInstruction other depth block) := by
  refine Stays.bind inferInstance fun t => ?_
  by_cases ht : t.kind = .tokLocalId
  · rw [if_pos ht]
    refine Stays.bind inferInstance fun _ => Stays.bind inferInstance fun _ => Stays.ite ?_ ?_
    · infer_instance
    · refine Stays.bind inferInstance fun _ => Stays.bind ⟨?_⟩ fun _ => inferInstance
      intro s a u hs hrun
      cases hrun
      intro v hv
      rcases mem_cons.1 hv with rfl | hrest
      · rw [ht]
        decide
      · exact hs v hrest
  · rw [if_neg ht]
    exact flat_void other depth block

instance flat_bodyStep (cur : Option Nat) :
    Stays Flat (bodyStep (parseInstruction other depth) cur) := by
  refine Stays.bind .get fun s => ?_
  cases labelAhead s.parser.toks with
  | some name => infer_instance
  | none => cases cur <;> dsimp only <;> infer_instance

theorem forks_bodyStep (cur : Option Nat) :
    Forks Flat AtEnd (bodyStep (parseInstruction other depth) cur)
      (bodyStep (loweredInstruction other depth line) cur)
      (bodyStep (plainInstruction other depth) cur) := by
  refine Forks.bindSame fun s => ?_
  cases labelAhead s.parser.toks with
  | some name => exact Forks.refl _
  | none =>
    have hrest : ∀ block, Forks Flat AtEnd
        (parseInstruction other depth block >>= fun _ => ofP skipMetadata >>= fun _ =>
          pure (some block))
        (loweredInstruction other depth line block >>= fun _ => ofP skipMetadata >>= fun _ =>
          pure (some block))
        (plainInstruction other depth block >>= fun _ => ofP skipMetadata >>= fun _ =>
          pure (some block)) := fun block =>
      Forks.bind (forks_instruction other depth line block) fun _ => Forks.refl _
    cases cur with
    | some block => exact Forks.bindSame hrest
    | none => exact Forks.bindSame hrest

theorem forks_bodyLoop (fuel : Nat) (cur : Option Nat) :
    Forks Flat AtEnd (bodyLoop (parseInstruction other depth) fuel cur)
      (bodyLoop (loweredInstruction other depth line) fuel cur)
      (bodyLoop (plainInstruction other depth) fuel cur) := by
  induction fuel generalizing cur with
  | zero => exact Forks.refl _
  | succ fuel ih =>
    refine Forks.bindSame fun s => Forks.ite (Forks.refl _) ?_
    exact Forks.bind (forks_bodyStep other depth line cur) ih

theorem forks_body (fuel : Nat) :
    Forks Flat (fun s => s.parser.error.isSome = true) (parseFunctionBody other depth fuel)
      (functionBody (loweredInstruction other depth line) fuel)
      (functionBody (plainInstruction other depth) fuel) := by
  refine Forks.bindSame fun _ => ?_
  intro s hs
  rcases forks_bodyLoop other depth line fuel none s hs with ⟨hsecond, hthird⟩ | ⟨hnone, hend⟩
  · refine Or.inl ⟨?_, ?_⟩
    · simp only [bind, StateT.bind, hsecond]
    · simp only [bind, StateT.bind, hthird]
  · refine Or.inr ⟨by simp only [bind, StateT.bind, hnone, Option.bind], ?_⟩
    intro a t hrun
    obtain ⟨b, u, hloop, hrest⟩ := run_bind_inv hrun
    exact expect_atEnd (hend b u hloop) hrest

end Readings

/-- A function body in front of the parser, and how its lines end. -/
structure BodyText where
  strtod : CStr → BitVec 64
  text : CStr
  other : OtherInst
  depth : Nat
  fuel : Nat
  line : List Token → Nat
  start : FuncParser
  inText : start.parser.toks <:+ lexText strtod text

namespace BodyText

variable (b : BodyText)

def parsed : Option (Unit × FuncParser) :=
  parseFunctionBody b.other b.depth b.fuel b.start

/-- The text in which an invoke is a call and a branch. -/
def lowered : Option (Unit × FuncParser) :=
  functionBody (loweredInstruction b.other b.depth b.line) b.fuel b.start

/-- None of the three instructions stands in the body. -/
def plain : Option (Unit × FuncParser) :=
  functionBody (plainInstruction b.other b.depth) b.fuel b.start

/-- What the lowered text gives is what the parser gives. -/
def Meets : Prop :=
  ∀ s, b.lowered = some ((), s) → s.parser.error = none → b.parsed = some ((), s)

def Plain : Prop :=
  ∀ s, b.lowered = some ((), s) → s.parser.error = none → b.plain.isSome = true

end BodyText

theorem meets_iff_plain (b : BodyText) : b.Meets ↔ b.Plain := by
  have hflat : Flat b.start := (lexText_line b.strtod b.text).suffix b.inText
  rcases forks_body b.other b.depth b.line b.fuel b.start hflat with
    ⟨hlowered, hplain⟩ | ⟨hnone, hend⟩
  · have hsame : b.parsed = b.lowered := hlowered
    have hread : b.parsed = b.plain := hplain
    constructor
    · intro _ s hs _
      rw [← hread, hsame, hs]
      rfl
    · intro _ s hs _
      rw [hsame, hs]
  · have hplain : b.plain = none := hnone
    constructor
    · intro hmeets s hs herror
      have hset : s.parser.error.isSome = true := hend () s (hmeets s hs herror)
      rw [herror] at hset
      cases hset
    · intro hread s hs herror
      have hsome := hread s hs herror
      rw [hplain] at hsome
      cases hsome

def invokeText : CStr :=
  "{ invoke void %f() to label %ok unwind label %bad
ok:
  br label %ok
bad:
  %e = landingpad ptr cleanup
  resume ptr %e
}".toUTF8.toList

/-- Two tokens stand behind `landingpad`, three from `unwind` and from `resume` on. -/
def invokeBody : BodyText where
  strtod _ := 0
  text := invokeText
  other _ _ _ _ := none
  depth := 4
  fuel := 16
  line toks := if (toks.map (·.kind)).head? = some .tokPtr then 2 else 3
  start :=
    { parser :=
        { toks := lexText (fun _ => 0) invokeText
          builtin := lrModuleCreateTypes 0
          symbols := .empty
          nextAddr := 0
          nextVreg := 1 }
      func :=
        { name := []
          symbolId := 0
          type := (lrModuleCreateTypes 0).typeVoid
          retType := (lrModuleCreateTypes 0).typeVoid
          paramTypes := []
          vararg := false } }
  inText := suffix_refl _

theorem invoke_refused : ¬ invokeBody.Meets := by
  intro h
  have hlowered : (invokeBody.lowered.map fun r => r.2.parser.error) = some none := by
    decide +kernel
  have hparsed : (invokeBody.parsed.map fun r => r.2.parser.error) =
      some (some (.expectedToken .tokRbrace .tokEof)) := by
    decide +kernel
  obtain ⟨⟨u, s⟩, hs, herror⟩ := map_eq_some_iff.1 hlowered
  rw [h s hs herror, map_some, herror] at hparsed
  cases hparsed

end Liric.Guarantees.InvokeLines
