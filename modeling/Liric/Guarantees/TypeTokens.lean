import Liric.Guarantees.LexedText

/-!
# Tokens of a printed type

The text that a dump has of a type is read as its tokens, also in front of more text.
-/
namespace Liric.Guarantees.TypeTokens
open LexedText Source.Ir Source.Ll

variable {rest : CStr} {toks : List Token}

variable {strtod : CStr → BitVec 64}

section Spellings

@[simp] theorem spelled_lbracket : spelled "[" = [91] := rfl
@[simp] theorem spelled_rbracket : spelled "]" = [93] := rfl
@[simp] theorem spelled_langle : spelled "<" = [60] := rfl
@[simp] theorem spelled_rangle : spelled ">" = [62] := rfl
@[simp] theorem spelled_by : spelled " x " = [32, 120, 32] := rfl
@[simp] theorem spelled_lbrace : spelled "\x7b " = [123, 32] := rfl
@[simp] theorem spelled_rbrace : spelled " \x7d" = [32, 125] := rfl
@[simp] theorem spelled_lparen : spelled " (" = [32, 40] := rfl
@[simp] theorem spelled_rparen : spelled ")" = [41] := rfl
@[simp] theorem spelled_comma : spelled ", " = [44, 32] := rfl
@[simp] theorem spelled_dots : spelled "..." = [46, 46, 46] := rfl

end Spellings

mutual
def typeTokens : LrType → List Token
  | .scalar _ kind => [plain (identKind (typeName kind)) (typeName kind)]
  | .ptr .. => [plain .tokPtr (spelled "ptr")]
  | .array _ elem count =>
    plain .tokLbracket [91] :: ⟨.tokIntLit, decimalName count.toNat, count, 0⟩ ::
      plain .tokX [120] :: (typeTokens elem ++ [plain .tokRbracket [93]])
  | .vector _ elem count =>
    plain .tokLangle [60] :: ⟨.tokIntLit, decimalName count.toNat, count, 0⟩ ::
      plain .tokX [120] :: (typeTokens elem ++ [plain .tokRangle [62]])
  | .struct _ fields packed _ =>
    if packed then
      plain .tokLangle [60] :: plain .tokLbrace [123] :: (typesTokens fields ++
        [plain .tokRbrace [125], plain .tokRangle [62]])
    else plain .tokLbrace [123] :: (typesTokens fields ++ [plain .tokRbrace [125]])
  | .func _ ret params vararg =>
    typeTokens ret ++ plain .tokLparen [40] :: (typesTokens params ++
      (if vararg then
        (if params.isEmpty then [] else [plain .tokComma [44]]) ++
          [plain .tokDotdotdot [46, 46, 46]]
      else []) ++ [plain .tokRparen [41]])

/-- Types with commas between them. -/
def typesTokens : List LrType → List Token
  | [] => []
  | [type] => typeTokens type
  | type :: rest => typeTokens type ++ plain .tokComma [44] :: typesTokens rest
end

mutual
/-- No struct in the type has a name or more than 256 fields. -/
def Literal : LrType → Prop
  | .scalar .. => True
  | .ptr .. => True
  | .array _ elem _ => Literal elem
  | .vector _ elem _ => Literal elem
  | .struct _ fields _ name => structName name = none ∧ fields.length ≤ 256 ∧ AllLiteral fields
  | .func _ ret params _ => Literal ret ∧ AllLiteral params

def AllLiteral : List LrType → Prop
  | [] => True
  | type :: rest => Literal type ∧ AllLiteral rest
end

theorem breaks_blank (rest : CStr) : Breaks (32 :: rest) := breaks_cons (by decide) rest

theorem breaks_comma (rest : CStr) : Breaks (44 :: rest) := breaks_cons (by decide) rest

theorem breaks_rparen (rest : CStr) : Breaks (41 :: rest) := breaks_cons (by decide) rest

theorem breaks_rbracket (rest : CStr) : Breaks (93 :: rest) := breaks_cons (by decide) rest

theorem breaks_rangle (rest : CStr) : Breaks (62 :: rest) := breaks_cons (by decide) rest

theorem typeName_word (kind : ScalarKind) : Word (typeName kind) := by
  cases kind <;> decide

theorem lexes_typeName (kind : ScalarKind) (hrest : Breaks rest) :
    Lexes strtod (typeName kind ++ rest) (typeTokens (.scalar 0 kind)) rest :=
  lexes_word (typeName_word kind) hrest

theorem lexes_ptr (hrest : Breaks rest) :
    Lexes strtod (spelled "ptr" ++ rest) [plain .tokPtr (spelled "ptr")] rest := by
  have hkind : identKind (spelled "ptr") = .tokPtr := by decide +kernel
  have hword : Lexes strtod (spelled "ptr" ++ rest) _ rest := lexes_word (by decide) hrest
  rwa [hkind] at hword

theorem lexes_x (hrest : Breaks rest) : Lexes strtod (120 :: rest) [plain .tokX [120]] rest := by
  have hkind : identKind [120] = .tokX := by decide +kernel
  have hword : Lexes strtod (120 :: rest) _ rest := lexes_word (show Word [120] by decide) hrest
  rwa [hkind] at hword

/-- The count of an array or a vector. -/
theorem lexes_count (n : BitVec 64) {text : CStr} (h : Lexes strtod text toks rest) :
    Lexes strtod (decimalName n.toNat ++ (32 :: 120 :: 32 :: text))
      (⟨.tokIntLit, decimalName n.toNat, n, 0⟩ :: plain .tokX [120] :: toks) rest := by
  have hnumber : Lexes strtod (decimalName n.toNat ++ (32 :: 120 :: 32 :: text)) _ _ :=
    lexes_decimal n.toNat (breaks_blank _)
  rw [BitVec.ofNat_toNat, BitVec.setWidth_eq] at hnumber
  exact hnumber.cons ((lexes_x (breaks_blank text)).cons h.blank).blank

theorem lexes_braced {fields : CStr}
    (h : ∀ rest, Lexes strtod (fields ++ 32 :: rest) toks (32 :: rest)) :
    Lexes strtod (braced false fields ++ rest)
      (plain .tokLbrace [123] :: (toks ++ [plain .tokRbrace [125]])) rest := by
  have hclose : Lexes strtod (32 :: 125 :: rest) [plain .tokRbrace [125]] rest :=
    ((Lexes.refl rest).punct rfl).blank
  have hall := (((h (125 :: rest)).append hclose).blank).punct (show punctuation 123 = _ from rfl)
  simpa [braced] using hall

theorem lexes_packed {fields : CStr}
    (h : ∀ rest, Lexes strtod (fields ++ 32 :: rest) toks (32 :: rest)) :
    Lexes strtod (braced true fields ++ rest)
      (plain .tokLangle [60] :: plain .tokLbrace [123] ::
        (toks ++ [plain .tokRbrace [125], plain .tokRangle [62]])) rest := by
  have hclose : Lexes strtod (32 :: 125 :: 62 :: rest)
      [plain .tokRbrace [125], plain .tokRangle [62]] rest :=
    (((Lexes.refl rest).punct rfl).punct rfl).blank
  have hopen := (((h (125 :: 62 :: rest)).append hclose).blank).punct
    (show punctuation 123 = _ from rfl)
  have hall := hopen.punct (show punctuation 60 = _ from rfl)
  simpa [braced] using hall

/-- The dots behind the parameters. -/
theorem lexes_vararg (params : List LrType) (vararg : Bool) {text : CStr}
    (h : Lexes strtod text toks rest) :
    Lexes strtod (printVararg params vararg ++ text) ((if vararg then
        (if params.isEmpty then [] else [plain .tokComma [44]]) ++
          [plain .tokDotdotdot [46, 46, 46]]
      else []) ++ toks) rest := by
  cases vararg with
  | false => simpa [printVararg] using h
  | true =>
    have hdots : Lexes strtod (46 :: 46 :: 46 :: text) _ rest := (lexes_dots text).cons h
    cases params with
    | nil => simpa [printVararg] using hdots
    | cons type params =>
      have hcomma := hdots.blank.punct (show punctuation 44 = _ from rfl)
      simpa [printVararg] using hcomma

mutual
/-- A printed type is read as its tokens. -/
theorem lexes_type : (type : LrType) → Literal type → ∀ {rest : CStr}, Breaks rest →
    Lexes strtod (printType type ++ rest) (typeTokens type) rest
  | .scalar _ kind, _, rest, hrest => lexes_typeName kind hrest
  | .ptr .., _, rest, hrest => lexes_ptr hrest
  | .array _ elem count, helem, rest, _ => by
    have hclose := (lexes_type elem helem (breaks_rbracket rest)).append
      ((Lexes.refl rest).punct (show punctuation 93 = _ from rfl))
    have hall := (lexes_count count hclose).punct (show punctuation 91 = _ from rfl)
    simpa [printType, typeTokens] using hall
  | .vector _ elem count, helem, rest, _ => by
    have hclose := (lexes_type elem helem (breaks_rangle rest)).append
      ((Lexes.refl rest).punct (show punctuation 62 = _ from rfl))
    have hall := (lexes_count count hclose).punct (show punctuation 60 = _ from rfl)
    simpa [printType, typeTokens] using hall
  | .struct _ fields packed name, hliteral, rest, _ => by
    obtain ⟨hname, -, hfields⟩ := hliteral
    have htypes : ∀ rest, Lexes strtod (printTypes fields ++ 32 :: rest) (typesTokens fields)
        (32 :: rest) := fun rest => lexes_types fields hfields (breaks_blank rest)
    cases packed with
    | false => simpa [printType, typeTokens, hname] using lexes_braced htypes
    | true => simpa [printType, typeTokens, hname] using lexes_packed htypes
  | .func _ ret params vararg, hliteral, rest, _ => by
    obtain ⟨hret, hparams⟩ := hliteral
    have hparen : Lexes strtod (41 :: rest) [plain .tokRparen [41]] rest :=
      (Lexes.refl rest).punct rfl
    have hclose := lexes_vararg params vararg hparen
    have hlexed : Lexes strtod (printTypes params ++ (printVararg params vararg ++ 41 :: rest))
        (typesTokens params) (printVararg params vararg ++ 41 :: rest) := by
      -- without parameters the dots are the first token
      by_cases hparam : params = []
      · subst hparam
        exact Lexes.refl _
      · apply lexes_types params hparams
        cases vararg with
        | false => exact breaks_rparen rest
        | true => simpa [printVararg, hparam] using breaks_comma _
    have hopen := (hlexed.append hclose).punct
      (show punctuation 40 = _ from rfl)
    have hall := (lexes_type ret hret (breaks_blank _)).append hopen.blank
    simpa [printType, typeTokens] using hall

theorem lexes_types : (types : List LrType) → AllLiteral types → ∀ {rest : CStr}, Breaks rest →
    Lexes strtod (printTypes types ++ rest) (typesTokens types) rest
  | [], _, rest, _ => Lexes.refl rest
  | [type], htypes, rest, hrest => lexes_type type htypes.1 hrest
  | type :: next :: types, htypes, rest, hrest => by
    have hmore := ((lexes_types (next :: types) htypes.2 hrest).blank).punct
      (show punctuation 44 = _ from rfl)
    have hall := (lexes_type type htypes.1 (breaks_comma _)).append hmore
    simpa [printTypes, typesTokens] using hall
end

end Liric.Guarantees.TypeTokens
