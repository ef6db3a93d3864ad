import Liric.Lib.TextTiling
import Liric.Source.Ll.Lexer

/-!
# Tokens and what is between them

The tokens of any text, up to the end of the text, are slices of it, in order and one behind the
other; only whitespace and comments are in front of them and at the end.
-/
namespace Liric.Guarantees.TokenTiling
open Lib.TextTiling List
open Source.Ir (CStr)
open Source.Ll

variable {kind : TokKind} {fuel : Nat} {lex : Lexer} {toks : List LexToken}

def Comment (body : CStr) : Prop := ∀ c ∈ body, c ≠ 10

/-- Whitespace and comments, each with the newline at its end. -/
inductive Gap : CStr → Prop where
  | nil : Gap []
  | space {c : UInt8} {rest : CStr} : c = 32 ∨ c = 9 ∨ c = 13 ∨ c = 10 → Gap rest → Gap (c :: rest)
  | comment {body rest : CStr} : Comment body → Gap rest → Gap (59 :: (body ++ 10 :: rest))

/-- At the end of the text a comment needs no newline. -/
inductive LastGap : CStr → Prop where
  | gap {g : CStr} : Gap g → LastGap g
  | comment {g body : CStr} : Gap g → Comment body → LastGap (g ++ 59 :: body)

theorem LastGap.space {c : UInt8} {rest : CStr} (hc : c = 32 ∨ c = 9 ∨ c = 13 ∨ c = 10)
    (h : LastGap rest) : LastGap (c :: rest) := by
  cases h with
  | gap h => exact .gap (.space hc h)
  | comment h hbody => exact .comment (.space hc h) hbody

theorem LastGap.closed {body rest : CStr} (hbody : Comment body) (h : LastGap rest) :
    LastGap (59 :: (body ++ 10 :: rest)) := by
  cases h with
  | gap h => exact .gap (.comment hbody h)
  | @comment g last h hlast =>
    have hlater : LastGap ((59 :: (body ++ 10 :: g)) ++ 59 :: last) :=
      .comment (.comment hbody h) hlast
    simpa using hlater

theorem isSpace_iff {c : UInt8} : isSpace c = true ↔ c = 32 ∨ c = 9 ∨ c = 13 ∨ c = 10 := by
  simp [isSpace, or_assoc]

theorem comment_nil : Comment [] := by simp [Comment]

theorem Comment.cons {c : UInt8} {body : CStr} (hc : c ≠ 10) (h : Comment body) :
    Comment (c :: body) := by
  simp only [Comment, mem_cons, forall_eq_or_imp]
  exact ⟨hc, h⟩

section
variable (rest : CStr)

theorem skip_space {c : UInt8} (h : isSpace c = true) :
    skipWhitespaceAndComments false (c :: rest) = skipWhitespaceAndComments false rest + 1 := by
  simp [skipWhitespaceAndComments, h, Nat.add_comm]

theorem skip_open :
    skipWhitespaceAndComments false (59 :: rest) = skipWhitespaceAndComments true rest + 1 := by
  simp [skipWhitespaceAndComments, isSpace, Nat.add_comm]

theorem skip_stop {c : UInt8} (hspace : isSpace c = false) (hopen : c ≠ 59) :
    skipWhitespaceAndComments false (c :: rest) = 0 := by
  simp [skipWhitespaceAndComments, hspace, hopen]

theorem skip_newline :
    skipWhitespaceAndComments true (10 :: rest) = skipWhitespaceAndComments false rest + 1 := by
  simp [skipWhitespaceAndComments, Nat.add_comm]

theorem skip_comment {c : UInt8} (h : c ≠ 10) :
    skipWhitespaceAndComments true (c :: rest) = skipWhitespaceAndComments true rest + 1 := by
  have hother : (c != 10) = true := by simpa using h
  simp [skipWhitespaceAndComments, hother, Nat.add_comm]

/-- What is stepped over, outside and in a comment, when something is left behind it. -/
theorem skip_gap (text : CStr) :
    (skipWhitespaceAndComments false text < text.length →
      Gap (text.take (skipWhitespaceAndComments false text))) ∧
    (skipWhitespaceAndComments true text < text.length →
      ∃ body g, text.take (skipWhitespaceAndComments true text) = body ++ 10 :: g ∧
        Comment body ∧ Gap g) := by
  induction text with
  | nil => simp [skipWhitespaceAndComments]
  | cons c rest ih =>
    obtain ⟨hout, hin⟩ := ih
    constructor
    · by_cases hspace : isSpace c = true
      · rw [skip_space rest hspace, length_cons, take_succ_cons]
        intro hlt
        exact .space (isSpace_iff.1 hspace) (hout (Nat.lt_of_succ_lt_succ hlt))
      · by_cases hopen : c = 59
        · subst hopen
          rw [skip_open, length_cons, take_succ_cons]
          intro hlt
          obtain ⟨body, g, htake, hbody, hg⟩ := hin (Nat.lt_of_succ_lt_succ hlt)
          rw [htake]
          exact .comment hbody hg
        · rw [skip_stop rest (Bool.eq_false_iff.2 hspace) hopen]
          exact fun _ => .nil
    · by_cases hnewline : c = 10
      · subst hnewline
        rw [skip_newline, length_cons, take_succ_cons]
        intro hlt
        exact ⟨[], _, rfl, comment_nil, hout (Nat.lt_of_succ_lt_succ hlt)⟩
      · rw [skip_comment rest hnewline, length_cons, take_succ_cons]
        intro hlt
        obtain ⟨body, g, htake, hbody, hg⟩ := hin (Nat.lt_of_succ_lt_succ hlt)
        exact ⟨c :: body, g, by rw [htake]; rfl, hbody.cons hnewline, hg⟩

/-- What is stepped over when nothing is left. -/
theorem skip_last (text : CStr) :
    (skipWhitespaceAndComments false text = text.length → LastGap text) ∧
    (skipWhitespaceAndComments true text = text.length →
      Comment text ∨ ∃ body g, text = body ++ 10 :: g ∧ Comment body ∧ LastGap g) := by
  induction text with
  | nil => exact ⟨fun _ => .gap .nil, fun _ => .inl comment_nil⟩
  | cons c rest ih =>
    obtain ⟨hout, hin⟩ := ih
    constructor
    · by_cases hspace : isSpace c = true
      · rw [skip_space rest hspace, length_cons]
        intro hend
        exact .space (isSpace_iff.1 hspace) (hout (Nat.succ.inj hend))
      · by_cases hopen : c = 59
        · subst hopen
          rw [skip_open, length_cons]
          intro hend
          rcases hin (Nat.succ.inj hend) with hbody | ⟨body, g, rfl, hbody, hg⟩
          · exact .comment .nil hbody
          · exact .closed hbody hg
        · rw [skip_stop rest (Bool.eq_false_iff.2 hspace) hopen]
          simp
    · by_cases hnewline : c = 10
      · subst hnewline
        rw [skip_newline, length_cons]
        intro hend
        exact .inr ⟨[], rest, rfl, comment_nil, hout (Nat.succ.inj hend)⟩
      · rw [skip_comment rest hnewline, length_cons]
        intro hend
        rcases hin (Nat.succ.inj hend) with hbody | ⟨body, g, rfl, hbody, hg⟩
        · exact .inl (hbody.cons hnewline)
        · exact .inr ⟨c :: body, g, rfl, hbody.cons hnewline, hg⟩

theorem skip_le (inComment : Bool) (text : CStr) :
    skipWhitespaceAndComments inComment text ≤ text.length := by
  induction text generalizing inComment with
  | nil => simp [skipWhitespaceAndComments]
  | cons c rest ih =>
    have hcomment := ih (c != 10)
    have hspace := ih false
    have hopen := ih true
    unfold skipWhitespaceAndComments
    simp only [length_cons]
    split
    · omega
    · split
      · omega
      · split <;> omega

theorem runOf_le (p : UInt8 → Bool) (rest : CStr) : runOf p rest ≤ rest.length :=
  (takeWhile_sublist p).length_le

theorem quotedLen_le : quotedLen rest ≤ rest.length := by
  fun_induction quotedLen rest with
  | case1 => simp
  | case2 => simp
  | case3 => simp
  | case4 => simp; omega
  | case5 => simp at *; omega

theorem nameLen_le : nameLen rest ≤ rest.length := by
  unfold nameLen
  split
  · next rest =>
    have hquoted := quotedLen_le rest
    simp only [length_cons]
    omega
  · exact runOf_le _ _

theorem fractionLen_le : fractionLen rest ≤ rest.length := by
  unfold fractionLen
  split
  · next rest =>
    have hrun := runOf_le isDigitAscii rest
    simp only [length_cons]
    omega
  · omega

theorem signLen_le : signLen rest ≤ rest.length := by
  unfold signLen
  cases rest with
  | nil => simp
  | cons c rest =>
    split <;> simp

theorem exponentLen_le : exponentLen rest ≤ rest.length := by
  cases rest with
  | nil => simp [exponentLen]
  | cons c rest =>
    have hsign := signLen_le rest
    have hrun := runOf_le isDigitAscii (rest.drop (signLen rest))
    rw [length_drop] at hrun
    simp only [exponentLen, length_cons]
    split <;> omega

end

/-- Tokens have a byte at least and end in the text. -/
structure Proper (rest : CStr) (t : Scanned) : Prop where
  kind : t.kind ≠ .tokEof
  pos : 0 < t.len
  fits : t.len ≤ rest.length + 1

theorem Proper.ident {rest : CStr} {n : Nat} (hkind : kind ≠ .tokEof) (h : n ≤ rest.length)
    (intVal floatVal : BitVec 64) :
    Proper rest ⟨kind, 1 + n, intVal, floatVal⟩ where
  kind := hkind
  pos := Nat.add_pos_left Nat.one_pos n
  fits := by
    rw [Nat.add_comm]
    exact Nat.add_le_add_right h 1

theorem proper_one (rest : CStr) (hkind : kind ≠ .tokEof) :
    Proper rest ⟨kind, 1, 0, 0⟩ where
  kind := hkind
  pos := Nat.one_pos
  fits := Nat.le_add_left 1 _

variable (strtod : CStr → BitVec 64) (c : UInt8) (rest : CStr)

theorem scanDecimal_proper : Proper rest (scanDecimal strtod c rest) := by
  have hdigits := runOf_le isDigitAscii rest
  have hreal : realLen (rest.drop (runOf isDigitAscii rest)) ≤
      rest.length - runOf isDigitAscii rest := by
    have hfraction := fractionLen_le (rest.drop (runOf isDigitAscii rest))
    have hexponent := exponentLen_le ((rest.drop (runOf isDigitAscii rest)).drop
      (fractionLen (rest.drop (runOf isDigitAscii rest))))
    rw [length_drop] at hfraction
    rw [length_drop, length_drop] at hexponent
    rw [realLen]
    omega
  unfold scanDecimal
  simp only [Nat.add_assoc]
  split
  · exact .ident (by simp) (by omega) _ _
  · exact .ident (by simp) hdigits _ _

theorem scanNumber_proper : Proper rest (scanNumber strtod c rest) := by
  unfold scanNumber
  split
  · exact proper_one rest (by simp)
  · split
    · next hhex =>
      cases rest with
      | nil => simp at hhex
      | cons d rest =>
        have hrun := runOf_le isHexDigit rest
        simp only [tail_cons]
        rw [show 2 + runOf isHexDigit rest = 1 + (1 + runOf isHexDigit rest) by omega]
        exact .ident (by simp) (by simp only [length_cons]; omega) _ _
    · exact scanDecimal_proper strtod c rest

theorem identKind_proper (s : CStr) : identKind s ≠ .tokEof := by
  unfold identKind
  simp only
  split
  · assumption
  · simp

theorem scanIdent_proper : Proper rest (scanIdent c rest) := by
  unfold scanIdent
  split
  · exact .ident (identKind_proper _) (runOf_le isIdentChar rest) _ _
  · exact proper_one rest (by simp)

theorem scanDot_proper : Proper rest (scanDot rest) := by
  unfold scanDot
  split
  · next hdots =>
    have hlen := congrArg List.length hdots
    simp only [length_take, length_cons, length_nil] at hlen
    exact ⟨by simp, by simp, by simp only; omega⟩
  · split
    · exact .ident (by simp) (runOf_le isIdentChar rest) _ _
    · exact proper_one rest (by simp)

theorem punctuation_proper (h : punctuation c = some kind) : kind ≠ .tokEof := by
  rintro rfl
  unfold punctuation at h
  split at h <;> simp at h

theorem scanToken_proper : Proper rest (scanToken strtod c rest) := by
  unfold scanToken
  split
  · next kind hkind => exact proper_one rest (punctuation_proper c hkind)
  · split
    · exact scanDot_proper rest
    · split
      · exact .ident (by simp) (runOf_le isIdentChar rest) _ _
      · split
        · exact .ident (by simp) (runOf_le isDigitAscii rest) _ _
        · split
          · exact .ident (by simp) (nameLen_le rest) _ _
          · split
            · exact .ident (by simp) (nameLen_le rest) _ _
            · split
              · exact .ident (by simp) (quotedLen_le rest) _ _
              · split
                · next hstring =>
                  cases rest with
                  | nil => simp at hstring
                  | cons d rest =>
                    have hquoted := quotedLen_le rest
                    simp only [tail_cons]
                    rw [show 2 + quotedLen rest = 1 + (1 + quotedLen rest) by omega]
                    exact .ident (by simp) (by simp only [length_cons]; omega) _ _
                · split
                  · exact scanNumber_proper strtod c rest
                  · exact scanIdent_proper c rest

/-- The next token of a text, behind its gap. -/
def lexStep (text : CStr) : Option (Nat × Nat) :=
  match text.drop (skipWhitespaceAndComments false text) with
  | [] => none
  | c :: rest => some (skipWhitespaceAndComments false text, (scanToken strtod c rest).len)

def lexScanner : Scanner Gap LastGap where
  step := lexStep strtod
  ends := by
    intro text h
    unfold lexStep at h
    split at h
    · next hdrop =>
      apply (skip_last text).1
      have hend := drop_eq_nil_iff.1 hdrop
      exact Nat.le_antisymm (skip_le false text) hend
    · cases h
  gap := by
    intro text g n h
    unfold lexStep at h
    split at h
    · cases h
    · next c rest hdrop =>
      cases h
      apply (skip_gap text).1
      have hlen := congrArg List.length hdrop
      simp only [length_drop, length_cons] at hlen
      omega
  proper := by
    intro text g n h
    unfold lexStep at h
    split at h
    · cases h
    · next c rest hdrop =>
      cases h
      have hproper := scanToken_proper strtod c rest
      have hlen := congrArg List.length hdrop
      simp only [length_drop, length_cons] at hlen
      have hfits := hproper.fits
      exact ⟨hproper.pos, by omega⟩

variable {c rest} {src : CStr} {pos : Nat}

theorem lrLexerNext_end (h : src.drop (pos + skipWhitespaceAndComments false (src.drop pos)) = []) :
    (lrLexerNext strtod ⟨src, pos⟩).1.kind = .tokEof := by
  unfold lrLexerNext
  simp only [h]

theorem lrLexerNext_token
    (h : src.drop (pos + skipWhitespaceAndComments false (src.drop pos)) = c :: rest) :
    lrLexerNext strtod ⟨src, pos⟩ =
      (⟨(scanToken strtod c rest).kind, pos + skipWhitespaceAndComments false (src.drop pos),
          (scanToken strtod c rest).len, (scanToken strtod c rest).intVal,
          (scanToken strtod c rest).floatVal⟩,
        ⟨src, pos + skipWhitespaceAndComments false (src.drop pos) +
          (scanToken strtod c rest).len⟩) := by
  unfold lrLexerNext
  simp only [h]

theorem lexAll_end (h : src.drop (pos + skipWhitespaceAndComments false (src.drop pos)) = []) :
    lexAll strtod (fuel + 1) ⟨src, pos⟩ = some [] := by
  rw [lexAll]
  exact if_pos (lrLexerNext_end strtod h)

theorem lexAll_token
    (h : src.drop (pos + skipWhitespaceAndComments false (src.drop pos)) = c :: rest) :
    lexAll strtod (fuel + 1) ⟨src, pos⟩ =
      (lexAll strtod fuel (lrLexerNext strtod ⟨src, pos⟩).2).map
        ((lrLexerNext strtod ⟨src, pos⟩).1 :: ·) := by
  have hkind : (lrLexerNext strtod ⟨src, pos⟩).1.kind ≠ .tokEof := by
    rw [lrLexerNext_token strtod h]
    exact (scanToken_proper strtod c rest).kind
  exact if_neg hkind

/-- The lexer is the scanner with the kinds and values of the tokens. -/
theorem lexAll_slices (fuel : Nat) (src : CStr) (pos : Nat) :
    (lexAll strtod fuel ⟨src, pos⟩).map (List.map fun t => (t.start, t.len)) =
      (lexScanner strtod).slices fuel pos (src.drop pos) := by
  induction fuel generalizing pos with
  | zero => rfl
  | succ fuel ih =>
    rw [Scanner.slices]
    cases hdrop : src.drop (pos + skipWhitespaceAndComments false (src.drop pos)) with
    | nil =>
      have hstep : (lexScanner strtod).step (src.drop pos) = none := by
        simp [lexScanner, lexStep, hdrop]
      rw [lexAll_end strtod hdrop, hstep]
      rfl
    | cons c rest =>
      have hstep : (lexScanner strtod).step (src.drop pos) =
          some (skipWhitespaceAndComments false (src.drop pos), (scanToken strtod c rest).len) := by
        simp [lexScanner, lexStep, hdrop]
      rw [lexAll_token strtod hdrop, lrLexerNext_token strtod hdrop, hstep]
      simp only [Option.map_map, drop_drop]
      rw [← Nat.add_assoc, ← ih, Option.map_map]
      rfl

theorem lexAll_kinds (h : lexAll strtod fuel lex = some toks) : ∀ t ∈ toks, t.kind ≠ .tokEof := by
  induction fuel generalizing lex toks with
  | zero => cases h
  | succ fuel ih =>
    simp only [lexAll] at h
    split at h
    · cases h
      simp
    · next hkind =>
      obtain ⟨later, hlater, rfl⟩ := Option.map_eq_some_iff.1 h
      simp only [mem_cons, forall_eq_or_imp]
      exact ⟨hkind, ih hlater⟩

theorem lexAll_more (h : lexAll strtod fuel lex = some toks) :
    lexAll strtod (fuel + 1) lex = some toks := by
  induction fuel generalizing lex toks with
  | zero => cases h
  | succ fuel ih =>
    rw [lexAll] at h ⊢
    simp only at h ⊢
    split at h
    · next hend => rwa [if_pos hend]
    · next hkind =>
      obtain ⟨later, hlater, rfl⟩ := Option.map_eq_some_iff.1 h
      rw [if_neg hkind, ih hlater]
      rfl

theorem lexAll_le {fuel' : Nat} (hle : fuel ≤ fuel') (h : lexAll strtod fuel lex = some toks) :
    lexAll strtod fuel' lex = some toks := by
  induction hle with
  | refl => exact h
  | step _ ih => exact lexAll_more strtod ih

/-- More tokens than bytes are not needed. -/
theorem lexAll_total (src : CStr) :
    ∃ toks, ∀ fuel > src.length, lexAll strtod fuel (lrLexerInit src) = some toks := by
  obtain ⟨found, hfound⟩ := (lexScanner strtod).slices_ends (Nat.lt_succ_self src.length) 0
  have hslices := lexAll_slices strtod (src.length + 1) src 0
  rw [drop_zero, hfound] at hslices
  obtain ⟨toks, hlex, -⟩ := Option.map_eq_some_iff.1 hslices
  exact ⟨toks, fun fuel hfuel => lexAll_le strtod hfuel hlex⟩

/-- Of every text the tokens up to the end are finitely many slices, none of them empty, in order
and disjoint, and what is between them and at the end is whitespace and comments. -/
theorem tokens_tile (src : CStr) :
    ∃ toks, (∀ fuel > src.length, lexAll strtod fuel (lrLexerInit src) = some toks) ∧
      Tiles Gap LastGap 0 src (toks.map fun t => (t.start, t.len)) ∧
      (∀ t ∈ toks, t.kind ≠ .tokEof ∧ 0 < t.len ∧ t.start + t.len ≤ src.length) ∧
      toks.Pairwise fun t u => t.start + t.len ≤ u.start := by
  obtain ⟨toks, hall⟩ := lexAll_total strtod src
  have hlex := hall (src.length + 1) (Nat.lt_succ_self _)
  have htiles : Tiles Gap LastGap 0 src (toks.map fun t => (t.start, t.len)) := by
    have hslices := lexAll_slices strtod (src.length + 1) src 0
    rw [drop_zero, show lexAll strtod (src.length + 1) ⟨src, 0⟩ = some toks from hlex] at hslices
    exact (lexScanner strtod).slices_tile hslices.symm
  refine ⟨toks, hall, htiles, fun t ht => ?_, ?_⟩
  · obtain ⟨-, hpos, hend⟩ := htiles.inside _ (mem_map_of_mem ht)
    rw [Nat.zero_add] at hend
    exact ⟨lexAll_kinds strtod hlex t ht, hpos, hend⟩
  · exact pairwise_map.1 htiles.ordered

end Liric.Guarantees.TokenTiling
