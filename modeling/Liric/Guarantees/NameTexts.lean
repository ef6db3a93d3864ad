import Liric.Guarantees.TokenTiling
import Liric.Source.Ir.Dump

/-!
# Names in the text of a dump

A name that is printed behind `@` or `%` is one token of the text. The lexer does not take
backslashes away, and a minus sign ends a name that has no quotes.
-/
namespace Liric.Guarantees.NameTexts
open List
open TokenTiling (skip_stop lrLexerNext_token)
open Source.Ir Source.Ll

theorem quotedLen_cons {c : UInt8} {rest : CStr} (hquote : c ≠ 34) (hslash : c ≠ 92) :
    quotedLen (c :: rest) = 1 + quotedLen rest := by
  cases rest with
  | nil => simp [quotedLen]
  | cons d rest => simp [quotedLen, hquote, hslash]

theorem quotedLen_quote (rest : CStr) : quotedLen (34 :: rest) = 1 := by
  cases rest <;> simp [quotedLen]

theorem quotedLen_slash (c : UInt8) (rest : CStr) :
    quotedLen (92 :: c :: rest) = 2 + quotedLen rest := by
  simp [quotedLen]

/-- The closing quote is the one that is printed. -/
theorem quotedLen_escapeName (name rest : CStr) :
    quotedLen (escapeName name ++ 34 :: rest) = (escapeName name).length + 1 := by
  induction name with
  | nil => simp [escapeName, quotedLen_quote]
  | cons c name ih =>
    unfold escapeName
    split
    · rw [cons_append, cons_append, quotedLen_slash, ih, length_cons, length_cons]
      omega
    · next hplain =>
      obtain ⟨hquote, hslash⟩ := not_or.1 hplain
      rw [cons_append, quotedLen_cons hquote hslash, ih, length_cons]
      omega

theorem escapeName_length (name : CStr) : name.length ≤ (escapeName name).length := by
  induction name with
  | nil => simp [escapeName]
  | cons c name ih =>
    unfold escapeName
    split <;> simp only [length_cons] <;> omega

theorem escapeName_eq_iff (name : CStr) : escapeName name = name ↔ 34 ∉ name ∧ 92 ∉ name := by
  induction name with
  | nil => simp [escapeName]
  | cons c name ih =>
    unfold escapeName
    split
    · next hspecial =>
      have hlonger : 92 :: c :: escapeName name ≠ c :: name := by
        intro hsame
        have hlen := congrArg List.length hsame
        have hle := escapeName_length name
        simp only [length_cons] at hlen
        omega
      simp only [hlonger, false_iff, mem_cons, not_or, not_and]
      rintro ⟨hquote, -⟩ hslash
      exact absurd hspecial (not_or.2 ⟨Ne.symm hquote, Ne.symm hslash⟩)
    · next hplain =>
      obtain ⟨hquote, hslash⟩ := not_or.1 hplain
      simp [ih, Ne.symm hquote, Ne.symm hslash]

theorem forall_byte {P : UInt8 → Prop} (h : ∀ n : Fin 256, P (UInt8.ofFin n)) (c : UInt8) : P c :=
  h c.toFin

theorem isPlainChar_iff (c : UInt8) : isPlainChar c = true ↔ isIdentChar c = true ∨ c = 45 := by
  revert c
  apply forall_byte
  decide +kernel

variable {name : CStr}

theorem takeWhile_ident {rest : CStr} (hname : ∀ c ∈ name, isIdentChar c = true)
    (hrest : ∀ c ∈ rest.head?, isIdentChar c = false) :
    (name ++ rest).takeWhile isIdentChar = name := by
  rw [takeWhile_append_of_pos hname]
  cases rest with
  | nil => simp
  | cons c rest => simp [hrest c rfl]

/-- A minus sign ends the token. -/
theorem takeWhile_minus (h : 45 ∈ name) (rest : CStr) :
    ((name ++ rest).takeWhile isIdentChar).length < name.length := by
  induction name with
  | nil => cases h
  | cons c name ih =>
    rw [cons_append, takeWhile_cons]
    by_cases hminus : c = 45
    · subst hminus
      have hstop : isIdentChar 45 = false := by decide
      simp [hstop]
    · have hlater := ih (mem_of_ne_of_mem (Ne.symm hminus) h)
      split
      · simp only [length_cons]
        omega
      · simp

/-- What can be printed behind a name: ` `, `,`, `(`, `)`, `]`, `>` and a newline. -/
def dumpFollows : List UInt8 := [32, 44, 40, 41, 93, 62, 10]

def sigilKind (sigil : UInt8) : TokKind := if sigil = 37 then .tokLocalId else .tokGlobalId

variable (strtod : CStr → BitVec 64)

/-- The text is lexed as one token with the name. -/
def Survives (name : CStr) : Prop :=
  ∀ sigil ∈ [37, 64], ∀ next ∈ dumpFollows, ∀ rest : CStr,
    let text := printIrSymbolRef sigil name ++ next :: rest
    let t := (lrLexerNext strtod (lrLexerInit text)).1
    t.kind = sigilKind sigil ∧ t.start = 0 ∧ t.len = (printIrSymbolRef sigil name).length ∧
      tokNameView (t.read text) = name

/-- Names without quotes and backslashes, and without minus signs where no other character calls
for quotes. -/
structure Kept (name : CStr) : Prop where
  nonempty : name ≠ []
  quote : 34 ∉ name
  slash : 92 ∉ name
  minus : irNameIsPlain name = true → 45 ∉ name

/-- What stands behind the sigil. -/
def nameBody (name : CStr) : CStr :=
  if name.isEmpty then [63] else if irNameIsPlain name then name else printIrEscapedName name

section Sigil
variable {sigil : UInt8}

theorem print_sigil (hsigil : sigil ∈ [37, 64]) (name : CStr) :
    printIrSymbolRef sigil name = sigil :: nameBody name := by
  have hprinted : sigil ≠ 0 := by
    rintro rfl
    exact absurd hsigil (by decide)
  rw [printIrSymbolRef, if_pos hprinted]
  rfl

theorem lex_sigil (hsigil : sigil ∈ [37, 64]) (body : CStr) :
    (lrLexerNext strtod (lrLexerInit (sigil :: body))).1 =
      ⟨sigilKind sigil, 0, 1 + nameLen body, 0, 0⟩ := by
  have hscan : scanToken strtod sigil body = ⟨sigilKind sigil, 1 + nameLen body, 0, 0⟩ ∧
      isSpace sigil = false ∧ sigil ≠ 59 := by
    simp only [mem_cons, not_mem_nil, or_false] at hsigil
    rcases hsigil with rfl | rfl
    · exact ⟨rfl, by decide, by decide⟩
    · exact ⟨rfl, by decide, by decide⟩
  obtain ⟨hscan, hspace, hopen⟩ := hscan
  have hdrop : (sigil :: body).drop (0 + skipWhitespaceAndComments false
      ((sigil :: body).drop 0)) = sigil :: body := by
    rw [drop_zero, skip_stop body hspace hopen]
    rfl
  rw [lrLexerInit, lrLexerNext_token strtod hdrop, hscan, drop_zero, skip_stop body hspace hopen]

theorem tokNameView_sigil (hsigil : sigil ∈ [37, 64]) {t : Token} {body : CStr}
    (h : t.text = sigil :: body) :
    tokNameView t =
      if body.length ≥ 2 ∧ body.head? = some 34 ∧ body.getLast? = some 34 then body.tail.dropLast
      else body := by
  unfold tokNameView
  simp only [mem_cons, not_mem_nil, or_false] at hsigil
  rcases hsigil with rfl | rfl <;> simp only [h]

/-- The token ends where the name does, and then it has the name that is between the quotes. -/
theorem survives_iff (name : CStr) :
    Survives strtod name ↔
      (∀ next ∈ dumpFollows, ∀ rest : CStr,
        nameLen (nameBody name ++ next :: rest) = (nameBody name).length) ∧
      (if (nameBody name).length ≥ 2 ∧ (nameBody name).head? = some 34 ∧
          (nameBody name).getLast? = some 34 then (nameBody name).tail.dropLast
        else nameBody name) = name := by
  have htoken : ∀ sigil ∈ ([37, 64] : List UInt8), ∀ next rest,
      (lrLexerNext strtod (lrLexerInit (printIrSymbolRef sigil name ++ next :: rest))).1 =
        ⟨sigilKind sigil, 0, 1 + nameLen (nameBody name ++ next :: rest), 0, 0⟩ := by
    intro sigil hsigil next rest
    rw [print_sigil hsigil, cons_append, lex_sigil strtod hsigil]
  have hview : ∀ sigil ∈ ([37, 64] : List UInt8), ∀ next rest,
      nameLen (nameBody name ++ next :: rest) = (nameBody name).length →
      tokNameView ((⟨sigilKind sigil, 0, 1 + nameLen (nameBody name ++ next :: rest), 0, 0⟩ :
        LexToken).read (printIrSymbolRef sigil name ++ next :: rest)) =
      if (nameBody name).length ≥ 2 ∧ (nameBody name).head? = some 34 ∧
          (nameBody name).getLast? = some 34 then (nameBody name).tail.dropLast
        else nameBody name := by
    intro sigil hsigil next rest hlen
    apply tokNameView_sigil hsigil
    rw [LexToken.read, print_sigil hsigil, hlen]
    simp [Nat.add_comm 1]
  constructor
  · intro h
    have hlen : ∀ next ∈ dumpFollows, ∀ rest : CStr,
        nameLen (nameBody name ++ next :: rest) = (nameBody name).length := by
      intro next hnext rest
      obtain ⟨-, -, hlen, -⟩ := h 37 (by decide) next hnext rest
      rw [htoken 37 (by decide), print_sigil (by decide), length_cons] at hlen
      simp only at hlen
      omega
    refine ⟨hlen, ?_⟩
    obtain ⟨-, -, -, hname⟩ := h 37 (by decide) 32 (by decide) []
    rw [htoken 37 (by decide), hview 37 (by decide) 32 [] (hlen 32 (by decide) [])] at hname
    exact hname
  · rintro ⟨hlen, hname⟩ sigil hsigil next hnext rest
    simp only [htoken sigil hsigil]
    refine ⟨trivial, trivial, ?_, ?_⟩
    · rw [print_sigil hsigil, length_cons, hlen next hnext rest, Nat.add_comm]
    · rw [hview sigil hsigil next rest (hlen next hnext rest)]
      exact hname

end Sigil

theorem nameLen_unquoted {text : CStr} (h : text.head? ≠ some 34) :
    nameLen text = runOf isIdentChar text := by
  unfold nameLen
  split
  · simp at h
  · rfl

theorem nameBody_plain (h : irNameIsPlain name = true) : nameBody name = name := by
  have hnonempty : name.isEmpty = false := by
    unfold irNameIsPlain at h
    simp only [Bool.and_eq_true, Bool.not_eq_true'] at h
    exact h.1
  simp [nameBody, hnonempty, h]

theorem nameBody_quoted (hname : name ≠ []) (h : irNameIsPlain name = false) :
    nameBody name = 34 :: (escapeName name ++ [34]) := by
  simp [nameBody, hname, h, printIrEscapedName]

theorem plain_chars (h : irNameIsPlain name = true) :
    ∀ c ∈ name, isIdentChar c = true ∨ c = 45 := by
  unfold irNameIsPlain at h
  rw [Bool.and_eq_true, all_eq_true] at h
  exact fun c hc => (isPlainChar_iff c).1 (h.2 c hc)

theorem plain_head (h : irNameIsPlain name = true) (next : UInt8) (rest : CStr) :
    (name ++ next :: rest).head? ≠ some 34 := by
  cases name with
  | nil => cases h
  | cons c name =>
    rintro hhead
    cases hhead
    have hquote := plain_chars h 34 mem_cons_self
    revert hquote
    decide

theorem dumpFollows_stop : ∀ next ∈ dumpFollows, isIdentChar next = false := by decide +kernel

theorem survives_plain (h : irNameIsPlain name = true) : Survives strtod name ↔ 45 ∉ name := by
  rw [survives_iff, nameBody_plain h]
  have hhead : name.head? ≠ some 34 := by
    have hlong := plain_head h 32 []
    cases name with
    | nil => cases h
    | cons c name => exact hlong
  have hview : (if name.length ≥ 2 ∧ name.head? = some 34 ∧ name.getLast? = some 34 then
      name.tail.dropLast else name) = name := if_neg fun hquoted => hhead hquoted.2.1
  rw [hview]
  constructor
  · rintro ⟨hlen, -⟩ hminus
    have hshort := takeWhile_minus hminus (32 :: [])
    have hall := hlen 32 (by decide) []
    rw [nameLen_unquoted (plain_head h 32 []), runOf] at hall
    omega
  · intro hminus
    refine ⟨fun next hnext rest => ?_, rfl⟩
    have hident : ∀ c ∈ name, isIdentChar c = true := by
      intro c hc
      rcases plain_chars h c hc with hident | rfl
      · exact hident
      · exact absurd hc hminus
    have hstop : ∀ c ∈ (next :: rest).head?, isIdentChar c = false := by
      intro c hc
      cases hc
      exact dumpFollows_stop next hnext
    rw [nameLen_unquoted (plain_head h next rest), runOf, takeWhile_ident hident hstop]

theorem survives_quoted (hname : name ≠ [])
    (h : irNameIsPlain name = false) : Survives strtod name ↔ 34 ∉ name ∧ 92 ∉ name := by
  rw [survives_iff, nameBody_quoted hname h, ← escapeName_eq_iff]
  have hview : (if (34 :: (escapeName name ++ [34])).length ≥ 2 ∧
      (34 :: (escapeName name ++ [34])).head? = some 34 ∧
      (34 :: (escapeName name ++ [34])).getLast? = some 34 then
        (34 :: (escapeName name ++ [34])).tail.dropLast
      else 34 :: (escapeName name ++ [34])) = escapeName name := by
    rw [if_pos]
    · simp
    · refine ⟨by simp, rfl, ?_⟩
      rw [← cons_append, List.getLast?_concat]
  rw [hview]
  constructor
  · exact fun h => h.2
  · intro hsame
    refine ⟨fun next _ rest => ?_, hsame⟩
    rw [cons_append, append_assoc, singleton_append, nameLen, quotedLen_escapeName]
    simp only [length_cons, length_append, length_nil]
    omega

/-- Of the empty name a question mark is left behind the token. -/
theorem not_survives_nil : ¬ Survives strtod [] := by
  rw [survives_iff]
  rintro ⟨hlen, -⟩
  have hall := hlen 32 (by decide) []
  revert hall
  decide

/-- A printed name is read back if and only if no quote, backslash or bare minus sign is in it. -/
theorem survives_iff_kept (strtod : CStr → BitVec 64) (name : CStr) :
    Survives strtod name ↔ Kept name := by
  by_cases hname : name = []
  · subst hname
    exact iff_of_false (not_survives_nil strtod) fun h => h.nonempty rfl
  · cases hplain : irNameIsPlain name with
    | true =>
      rw [survives_plain strtod hplain]
      constructor
      · intro hminus
        have hnot : ∀ c, isIdentChar c = false → c ≠ 45 → c ∉ name := by
          intro c hident hother hmem
          rcases plain_chars hplain c hmem with htrue | rfl
          · rw [hident] at htrue
            cases htrue
          · exact hother rfl
        exact ⟨hname, hnot 34 (by decide) (by decide), hnot 92 (by decide) (by decide),
          fun _ => hminus⟩
      · exact fun h => h.minus hplain
    | false =>
      rw [survives_quoted strtod hname hplain]
      constructor
      · rintro ⟨hquote, hslash⟩
        exact ⟨hname, hquote, hslash, fun htrue => by rw [hplain] at htrue; cases htrue⟩
      · exact fun h => ⟨h.quote, h.slash⟩

/-- The name `a-b` is printed without quotes, and the lexer reads `a`. -/
theorem minus_lost : ¬ Survives (fun _ => 0) [97, 45, 98] := by
  intro h
  obtain ⟨-, -, hlen, -⟩ := h 37 (by decide) 32 (by decide) []
  revert hlen
  decide

end Liric.Guarantees.NameTexts
