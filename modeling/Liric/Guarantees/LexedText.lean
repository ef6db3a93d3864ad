import Liric.Guarantees.NameTexts
import Liric.Lib.Decimal

/-!
# Reading a text from the front

The tokens of a text are the first one and those of the text behind it, wherever the text is, so
texts that are put together piece by piece are lexed piece by piece.
-/
namespace Liric.Guarantees.LexedText
open Lib TokenTiling NameTexts List
open Source.Ir (CStr)
open Source.Ll

variable {text rest digits : CStr} {c : UInt8}

variable {strtod : CStr → BitVec 64}

/-- A token of a text that has `n` more bytes in front. -/
def moved (n : Nat) (t : LexToken) : LexToken := { t with start := n + t.start }

theorem read_moved (src : CStr) (n : Nat) (t : LexToken) :
    (moved n t).read src = t.read (src.drop n) := by
  simp [moved, LexToken.read, drop_drop]

theorem lexAll_moved (fuel : Nat) (src : CStr) (n pos : Nat) :
    lexAll strtod fuel ⟨src, n + pos⟩ =
      (lexAll strtod fuel ⟨src.drop n, pos⟩).map (List.map (moved n)) := by
  induction fuel generalizing pos with
  | zero => rfl
  | succ fuel ih =>
    have hsame : src.drop (n + pos + skipWhitespaceAndComments false (src.drop (n + pos))) =
        (src.drop n).drop (pos + skipWhitespaceAndComments false ((src.drop n).drop pos)) := by
      rw [drop_drop, drop_drop, Nat.add_assoc]
    cases hdrop : (src.drop n).drop (pos +
        skipWhitespaceAndComments false ((src.drop n).drop pos)) with
    | nil =>
      rw [lexAll_end strtod (hsame.trans hdrop), lexAll_end strtod hdrop]
      rfl
    | cons c rest =>
      rw [lexAll_token strtod (hsame.trans hdrop), lexAll_token strtod hdrop,
        lrLexerNext_token strtod (hsame.trans hdrop), lrLexerNext_token strtod hdrop, drop_drop]
      simp only [Nat.add_assoc, ih, Option.map_map]
      rfl

theorem lexText_fuel {fuel : Nat} (h : text.length < fuel) :
    lexAll strtod fuel (lrLexerInit text) = lexAll strtod (text.length + 1) (lrLexerInit text) := by
  obtain ⟨toks, hall⟩ := lexAll_total strtod text
  rw [hall fuel h, hall (text.length + 1) (Nat.lt_succ_self _)]

theorem lexText_end (h : text.drop (skipWhitespaceAndComments false text) = []) :
    lexText strtod text = [] := by
  have hdrop : text.drop (0 + skipWhitespaceAndComments false (text.drop 0)) = [] := by
    rwa [Nat.zero_add]
  rw [lexText, lrLexerInit, lexAll_end strtod hdrop]
  rfl

/-- The token that is read at `c`. -/
def tokenAt (strtod : CStr → BitVec 64) (c : UInt8) (rest : CStr) : Token :=
  let t := scanToken strtod c rest
  ⟨t.kind, (c :: rest).take t.len, t.intVal, t.floatVal⟩

theorem lexText_token (h : text.drop (skipWhitespaceAndComments false text) = c :: rest) :
    lexText strtod text =
      tokenAt strtod c rest :: lexText strtod ((c :: rest).drop (scanToken strtod c rest).len) := by
  have hdrop : text.drop (0 + skipWhitespaceAndComments false (text.drop 0)) = c :: rest := by
    rwa [Nat.zero_add]
  have hlen := congrArg List.length h
  simp only [length_drop, length_cons] at hlen
  obtain ⟨-, hpos, hfits⟩ := scanToken_proper strtod c rest
  have hrest : text.drop (skipWhitespaceAndComments false text +
      (scanToken strtod c rest).len) = (c :: rest).drop (scanToken strtod c rest).len := by
    rw [← drop_drop, h]
  have hfuel : ((c :: rest).drop (scanToken strtod c rest).len).length < text.length := by
    rw [length_drop, length_cons]
    omega
  rw [lexText, lrLexerInit, lexAll_token strtod hdrop, lrLexerNext_token strtod hdrop]
  simp only [drop_zero, Nat.zero_add]
  rw [← Nat.add_zero (skipWhitespaceAndComments false text + _), lexAll_moved, hrest,
    ← lrLexerInit, lexText_fuel hfuel, lexText]
  obtain ⟨toks, hall⟩ := lexAll_total strtod ((c :: rest).drop (scanToken strtod c rest).len)
  rw [hall _ (Nat.lt_succ_self _)]
  simp only [Option.map_some, Option.getD_some, map_cons, map_map, LexToken.read,
    tokenAt, h, List.cons.injEq, true_and]
  apply map_congr_left
  intro t _
  have hmoved := read_moved text (skipWhitespaceAndComments false text +
    (scanToken strtod c rest).len) t
  rwa [hrest] at hmoved

/-- In front of `rest` the text has the tokens `toks`. -/
def Lexes (strtod : CStr → BitVec 64) (text : CStr) (toks : List Token) (rest : CStr) : Prop :=
  lexText strtod text = toks ++ lexText strtod rest

theorem Lexes.refl (text : CStr) : Lexes strtod text [] text := rfl

theorem Lexes.append {a b c : CStr} {ts us : List Token} (h : Lexes strtod a ts b)
    (h' : Lexes strtod b us c) : Lexes strtod a (ts ++ us) c := by
  rw [Lexes, h, h', append_assoc]

theorem Lexes.cons {a b c : CStr} {t : Token} {us : List Token} (h : Lexes strtod a [t] b)
    (h' : Lexes strtod b us c) : Lexes strtod a (t :: us) c := h.append h'

theorem lexes_token (hspace : isSpace c = false) (hopen : c ≠ 59) :
    Lexes strtod (c :: rest) [tokenAt strtod c rest]
      ((c :: rest).drop (scanToken strtod c rest).len) := by
  have hdrop : (c :: rest).drop (skipWhitespaceAndComments false (c :: rest)) = c :: rest := by
    rw [skip_stop rest hspace hopen]
    rfl
  exact lexText_token hdrop

theorem lexes_blank (rest : CStr) : Lexes strtod (32 :: rest) [] rest := by
  have hskip : skipWhitespaceAndComments false (32 :: rest) =
      skipWhitespaceAndComments false rest + 1 := skip_space rest (by decide)
  have hdrop : (32 :: rest).drop (skipWhitespaceAndComments false (32 :: rest)) =
      rest.drop (skipWhitespaceAndComments false rest) := by
    rw [hskip, drop_succ_cons]
  cases hrest : rest.drop (skipWhitespaceAndComments false rest) with
  | nil => rw [Lexes, lexText_end (hdrop.trans hrest), lexText_end hrest, append_nil]
  | cons c later =>
    rw [Lexes, lexText_token (hdrop.trans hrest), lexText_token hrest, nil_append]

/-- Tokens that are their spelling and nothing else. -/
def plain (kind : TokKind) (text : CStr) : Token := ⟨kind, text, 0, 0⟩

theorem punctuation_start : ∀ c, punctuation c ≠ none → isSpace c = false ∧ c ≠ 59 := by
  apply forall_byte
  decide +kernel

theorem lexes_punctuation {kind : TokKind} (h : punctuation c = some kind) (rest : CStr) :
    Lexes strtod (c :: rest) [plain kind [c]] rest := by
  obtain ⟨hspace, hopen⟩ := punctuation_start c (by simp [h])
  have hscan : scanToken strtod c rest = ⟨kind, 1, 0, 0⟩ := by
    unfold scanToken
    simp only [h]
  have htoken : Lexes strtod (c :: rest) _ _ := lexes_token hspace hopen
  simpa [tokenAt, hscan, plain] using htoken

theorem lexes_dots (rest : CStr) :
    Lexes strtod (46 :: 46 :: 46 :: rest) [plain .tokDotdotdot [46, 46, 46]] rest := by
  have hscan : scanToken strtod 46 (46 :: 46 :: rest) = ⟨.tokDotdotdot, 3, 0, 0⟩ := by
    simp [scanToken, punctuation, scanDot]
  have htoken : Lexes strtod (46 :: 46 :: 46 :: rest) _ _ :=
    lexes_token (show isSpace 46 = false by decide) (by decide)
  simpa [tokenAt, hscan, plain] using htoken

variable {toks : List Token}

/-- A character that is a token. -/
theorem Lexes.punct {kind : TokKind} (h : Lexes strtod text toks rest)
    (hc : punctuation c = some kind) :
    Lexes strtod (c :: text) (plain kind [c] :: toks) rest :=
  (lexes_punctuation hc text).cons h

theorem Lexes.blank (h : Lexes strtod text toks rest) :
    Lexes strtod (32 :: text) toks rest := (lexes_blank text).append h

/-- A text behind a word or a number. -/
def Breaks (rest : CStr) : Prop := ∀ c ∈ rest.head?, isIdentChar c = false ∧ c ≠ 34

theorem breaks_nil : Breaks [] := by simp [Breaks]

theorem breaks_cons (h : isIdentChar c = false ∧ c ≠ 34) (rest : CStr) :
    Breaks (c :: rest) := by
  simpa [Breaks] using h

theorem Breaks.ident (h : Breaks rest) : ∀ c ∈ rest.head?, isIdentChar c = false :=
  fun c hc => (h c hc).1

theorem letter_start : ∀ c, (isAlphaAscii c = true ∨ c = 95) → punctuation c = none ∧ c ≠ 46 ∧
    c ≠ 33 ∧ c ≠ 35 ∧ c ≠ 37 ∧ c ≠ 64 ∧ c ≠ 34 ∧ c ≠ 45 ∧ isDigitAscii c = false ∧
      isSpace c = false ∧ c ≠ 59 := by
  apply forall_byte
  decide +kernel

theorem scanToken_letter (h : isAlphaAscii c = true ∨ c = 95) (hstring : rest.head? ≠ some 34) :
    scanToken strtod c rest = scanIdent c rest := by
  obtain ⟨hpunct, hdot, hbang, hhash, hpercent, hat, hquote, hminus, hdigit, -, -⟩ :=
    letter_start c h
  unfold scanToken
  simp only [hpunct]
  simp [hdot, hbang, hhash, hpercent, hat, hquote, hminus, hdigit, hstring]

/-- A word of identifier characters that begins with a letter or an underscore. -/
structure Word (w : CStr) : Prop where
  start : w.head?.any (fun c => isAlphaAscii c || c == 95) = true
  chars : w.all isIdentChar = true

instance (w : CStr) : Decidable (Word w) :=
  decidable_of_iff (w.head?.any (fun c => isAlphaAscii c || c == 95) = true ∧
    w.all isIdentChar = true) ⟨fun h => ⟨h.1, h.2⟩, fun h => ⟨h.start, h.chars⟩⟩

theorem lexes_word {w : CStr} (hw : Word w) (hrest : Breaks rest) :
    Lexes strtod (w ++ rest) [plain (identKind w) w] rest := by
  obtain ⟨hstart, hchars⟩ := hw
  cases w with
  | nil => cases hstart
  | cons c w =>
    have hc : isAlphaAscii c = true ∨ c = 95 := by simpa using hstart
    obtain ⟨-, -, -, -, -, -, -, -, -, hspace, hopen⟩ := letter_start c hc
    simp only [all_cons, Bool.and_eq_true, all_eq_true] at hchars
    have hrun : runOf isIdentChar (w ++ rest) = w.length := by
      rw [runOf, takeWhile_ident hchars.2 hrest.ident]
    have hstring : (w ++ rest).head? ≠ some 34 := by
      intro hquote
      cases w with
      | nil => exact (hrest 34 hquote).2 rfl
      | cons d w =>
        cases hquote
        exact absurd (hchars.2 34 mem_cons_self) (by decide)
    have htoken : Lexes strtod (c :: (w ++ rest)) _ _ := lexes_token hspace hopen
    have hscan : scanToken strtod c (w ++ rest) = ⟨identKind (c :: w), 1 + w.length, 0, 0⟩ := by
      rw [scanToken_letter hc hstring, scanIdent, if_pos hc]
      simp [hrun, Nat.add_comm 1]
    simpa [tokenAt, hscan, plain, Nat.add_comm 1] using htoken

def Digits (digits : CStr) : Prop := ∀ c ∈ digits, isDigitAscii c = true

theorem digit_start : ∀ c, isDigitAscii c = true → punctuation c = none ∧ c ≠ 46 ∧ c ≠ 33 ∧
    c ≠ 35 ∧ c ≠ 37 ∧ c ≠ 64 ∧ c ≠ 34 ∧ c ≠ 99 ∧ c ≠ 45 ∧ isSpace c = false ∧ c ≠ 59 ∧
      c ≠ 120 ∧ c ≠ 88 := by
  apply forall_byte
  decide +kernel

theorem ident_break : ∀ c, isIdentChar c = false → isDigitAscii c = false ∧ c ≠ 46 ∧ c ≠ 101 ∧
    c ≠ 69 ∧ c ≠ 120 ∧ c ≠ 88 := by
  apply forall_byte
  decide +kernel

theorem takeWhile_digits (h : Digits digits) (hrest : Breaks rest) :
    runOf isDigitAscii (digits ++ rest) = digits.length := by
  rw [runOf, takeWhile_append_of_pos h]
  cases rest with
  | nil => simp
  | cons c rest =>
    have hstop := (ident_break c (hrest c rfl).1).1
    simp [hstop]

/-- The number ends behind its digits. -/
theorem scanDecimal_digits (h : Digits digits) (hrest : Breaks rest) (c : UInt8) :
    scanDecimal strtod c (digits ++ rest) =
      ⟨.tokIntLit, 1 + digits.length, integerValue c digits, 0⟩ := by
  have hreal : (rest.head?.any fun d => d == 46 || d == 101 || d == 69) = false := by
    cases rest with
    | nil => rfl
    | cons d rest =>
      obtain ⟨-, hdot, he, hE, -⟩ := ident_break d (hrest d rfl).1
      simp [hdot, he, hE]
  unfold scanDecimal
  simp [takeWhile_digits h hrest, hreal]

theorem head_ne_hex (h : Digits digits) (hrest : Breaks rest) :
    ((digits ++ rest).head?.any fun d => d == 120 || d == 88) = false := by
  cases digits with
  | nil =>
    cases rest with
    | nil => rfl
    | cons d rest =>
      obtain ⟨-, -, -, -, hx, hX⟩ := ident_break d (hrest d rfl).1
      simp [hx, hX]
  | cons d digits =>
    obtain ⟨-, -, -, -, -, -, -, -, -, -, -, hx, hX⟩ := digit_start d (h d mem_cons_self)
    simp [hx, hX]

theorem lexes_digits (hne : digits ≠ []) (h : Digits digits) (hrest : Breaks rest) :
    Lexes strtod (digits ++ rest) [⟨.tokIntLit, digits, decimalValue digits, 0⟩] rest := by
  cases digits with
  | nil => exact absurd rfl hne
  | cons c digits =>
    have hc := h c mem_cons_self
    have hdigits : Digits digits := fun d hd => h d (mem_cons_of_mem c hd)
    obtain ⟨hpunct, hdot, hbang, hhash, hpercent, hat, hquote, hstring, hminus, hspace, hopen, -⟩ :=
      digit_start c hc
    have hscan : scanToken strtod c (digits ++ rest) =
        ⟨.tokIntLit, 1 + digits.length, decimalValue (c :: digits), 0⟩ := by
      have hnumber : scanToken strtod c (digits ++ rest) = scanNumber strtod c (digits ++ rest) := by
        unfold scanToken
        simp only [hpunct]
        simp [hdot, hbang, hhash, hpercent, hat, hquote, hstring, hc]
      rw [hnumber, scanNumber, if_neg fun hm => hminus hm.1,
        if_neg fun hx => absurd hx.2 (by rw [head_ne_hex hdigits hrest]; decide),
        scanDecimal_digits hdigits hrest, integerValue, if_neg hminus]
    have htoken : Lexes strtod (c :: (digits ++ rest)) _ _ := lexes_token hspace hopen
    simpa [tokenAt, hscan, Nat.add_comm 1] using htoken

theorem digits_decimalName (n : Nat) : Digits (decimalName n) := by
  intro c hc
  obtain ⟨hlow, hhigh⟩ := digit_of_mem_numeral hc
  have hbyte : ∀ c : UInt8, 48 ≤ c.toNat → c.toNat ≤ 57 → isDigitAscii c = true := by
    apply forall_byte
    decide +kernel
  exact hbyte c hlow hhigh

theorem decimalName_ne_nil (n : Nat) : decimalName n ≠ [] := by
  rw [decimalName, toUTF8_toString]
  simp

theorem decimalValue_chars (cs : List Char) (h : ∀ c ∈ cs, 48 ≤ c.val.toNat ∧ c.val.toNat ≤ 57)
    (init : Nat) :
    (cs.map fun c => c.val.toUInt8).foldl
        (fun val c => val * 10 + (c - 48).toBitVec.setWidth 64) (BitVec.ofNat 64 init) =
      BitVec.ofNat 64 (Nat.ofDigitChars 10 cs init) := by
  induction cs generalizing init with
  | nil => simp
  | cons c cs ih =>
    obtain ⟨hlow, hhigh⟩ := h c mem_cons_self
    have hdigit : BitVec.ofNat 64 init * 10 + (c.val.toUInt8 - 48).toBitVec.setWidth 64 =
        BitVec.ofNat 64 (10 * init + (c.toNat - '0'.toNat)) := by
      have hbyte := toNat_sub_zero hlow hhigh
      apply BitVec.eq_of_toNat_eq
      have hword : ((c.val.toUInt8 - 48).toBitVec.setWidth 64).toNat = c.toNat - 48 := by
        rw [BitVec.toNat_setWidth, UInt8.toNat_toBitVec, hbyte, Nat.mod_eq_of_lt]
        have hval : c.toNat = c.val.toNat := rfl
        omega
      have hzero : '0'.toNat = 48 := rfl
      rw [BitVec.toNat_add, BitVec.toNat_mul, hword, hzero, BitVec.toNat_ofNat, BitVec.toNat_ofNat]
      have hten : (10 : BitVec 64).toNat = 10 := rfl
      rw [hten]
      omega
    rw [map_cons, foldl_cons, hdigit, ih fun d hd => h d (mem_cons_of_mem c hd),
      Nat.ofDigitChars_cons]

theorem decimalValue_decimalName (n : Nat) : decimalValue (decimalName n) = BitVec.ofNat 64 n := by
  rw [decimalName, toUTF8_toString, decimalValue]
  have hchars := decimalValue_chars (Nat.toDigits 10 n) (fun c hc => digit_val hc) 0
  rw [Nat.ofDigitChars_ten_toDigits] at hchars
  exact hchars

theorem lexes_decimal (n : Nat) (hrest : Breaks rest) :
    Lexes strtod (decimalName n ++ rest)
      [⟨.tokIntLit, decimalName n, BitVec.ofNat 64 n, 0⟩] rest := by
  rw [← decimalValue_decimalName]
  exact lexes_digits (decimalName_ne_nil n) (digits_decimalName n) hrest

end Liric.Guarantees.LexedText
