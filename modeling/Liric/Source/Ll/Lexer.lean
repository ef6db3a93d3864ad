import Liric.Lib.HashSwitch
import Liric.Source.Ll.Parser

/-!
# The lexer of the text parser

Source: src/ll_lexer.h:176-188 (`lr_token_t`, `lr_lexer_t`), src/ll_lexer.c:29-54 (character
classes), 56-74 (`skip_whitespace_and_comments`), 76-569 (`keywords`, `keyword_hash`,
`lookup_keyword`), 571-757 (`make_token`, `lr_lexer_next`).

Every test `pos < n` of the source is a test of what is left of the text, so the scanning
loops are functions of the bytes behind the position and give the number of bytes they step
over. `strtod` is a parameter. Numbers of 20 digits and more wrap around.
-/
namespace Liric.Source.Ll
open Lib Ir

/-- `lr_token_t` as the lexer makes it: a slice of the text. -/
structure LexToken where
  kind : TokKind
  start : Nat
  len : Nat
  intVal : BitVec 64 := 0
  floatVal : BitVec 64 := 0
  deriving DecidableEq

structure Lexer where
  src : CStr
  pos : Nat
  deriving DecidableEq

def lrLexerInit (src : CStr) : Lexer := ⟨src, 0⟩

def isDigitAscii (c : UInt8) : Bool := c - 48 < 10

def isAlphaAscii (c : UInt8) : Bool := (c ||| 32) - 97 < 26

def isIdentChar (c : UInt8) : Bool :=
  isAlphaAscii c || isDigitAscii c || c == 95 || c == 46 || c == 36

def isHexDigit (c : UInt8) : Bool := isDigitAscii c || (c ||| 32) - 97 < 6

def hexVal (c : UInt8) : UInt8 := if isDigitAscii c then c - 48 else (c ||| 32) - 97 + 10

/-- A space, a tab, a carriage return or a newline. -/
def isSpace (c : UInt8) : Bool := c == 32 || c == 9 || c == 13 || c == 10

/-- The loop that steps over all bytes of a class. -/
def runOf (p : UInt8 → Bool) (rest : CStr) : Nat := (rest.takeWhile p).length

/-- The bytes of whitespace and comments. In a comment `memchr` has found the next newline or
none. -/
def skipWhitespaceAndComments (inComment : Bool) : CStr → Nat
  | [] => 0
  | c :: rest =>
    if inComment then 1 + skipWhitespaceAndComments (c != 10) rest
    else if isSpace c then 1 + skipWhitespaceAndComments false rest
    else if c = 59 then 1 + skipWhitespaceAndComments true rest
    else 0

/-- A spelling of the source as bytes. -/
def spelled (s : String) : CStr := s.toList.map Char.toUInt8

/-- The table of `keywords`. -/
def keywords : List (CStr × TokKind) :=
  [("define", .tokDefine), ("declare", .tokDeclare), ("ret", .tokRet), ("br", .tokBr),
    ("label", .tokLabel), ("add", .tokAdd), ("sub", .tokSub), ("mul", .tokMul), ("sdiv", .tokSdiv),
    ("srem", .tokSrem), ("udiv", .tokUdiv), ("urem", .tokUrem), ("and", .tokAnd), ("or", .tokOr),
    ("xor", .tokXor), ("shl", .tokShl), ("lshr", .tokLshr), ("ashr", .tokAshr), ("fadd", .tokFadd),
    ("fsub", .tokFsub), ("fmul", .tokFmul), ("fdiv", .tokFdiv), ("frem", .tokFrem),
    ("fneg", .tokFneg), ("icmp", .tokIcmp), ("fcmp", .tokFcmp), ("alloca", .tokAlloca),
    ("load", .tokLoad), ("store", .tokStore), ("getelementptr", .tokGetelementptr),
    ("call", .tokCall), ("phi", .tokPhi), ("select", .tokSelect), ("sext", .tokSext),
    ("zext", .tokZext), ("trunc", .tokTrunc), ("bitcast", .tokBitcast), ("ptrtoint", .tokPtrtoint),
    ("inttoptr", .tokInttoptr), ("sitofp", .tokSitofp), ("uitofp", .tokUitofp),
    ("fptosi", .tokFptosi), ("fptoui", .tokFptoui), ("fpext", .tokFpext), ("fptrunc", .tokFptrunc),
    ("extractvalue", .tokExtractvalue), ("insertvalue", .tokInsertvalue),
    ("unreachable", .tokUnreachable), ("switch", .tokSwitch), ("invoke", .tokInvoke),
    ("landingpad", .tokLandingpad), ("resume", .tokResume), ("unwind", .tokUnwind),
    ("cleanup", .tokCleanup), ("catch", .tokCatch), ("personality", .tokPersonality),
    ("to", .tokTo), ("align", .tokAlign), ("nsw", .tokNsw), ("nuw", .tokNuw),
    ("inbounds", .tokInbounds), ("nonnull", .tokNonnull), ("noundef", .tokNoundef),
    ("signext", .tokSignext), ("zeroext", .tokZeroext), ("nocapture", .tokNocapture),
    ("readonly", .tokReadonly), ("writeonly", .tokWriteonly), ("global", .tokGlobal),
    ("constant", .tokConstant), ("external", .tokExternal), ("internal", .tokInternal),
    ("private", .tokPrivate), ("common", .tokCommon), ("linkonce_odr", .tokLinkonceOdr),
    ("dso_local", .tokDsolocal), ("unnamed_addr", .tokUnnamedAddr),
    ("local_unnamed_addr", .tokLocalUnnamedAddr), ("type", .tokType), ("opaque", .tokOpaque),
    ("null", .tokNull), ("undef", .tokUndef), ("zeroinitializer", .tokZeroinitializer),
    ("true", .tokTrue), ("false", .tokFalse), ("nnan", .tokNnan), ("ninf", .tokNinf),
    ("nsz", .tokNsz), ("void", .tokVoid), ("float", .tokFloat), ("double", .tokDouble),
    ("x86_fp80", .tokX86Fp80), ("ptr", .tokPtr), ("eq", .tokEq), ("ne", .tokNe), ("sgt", .tokSgt),
    ("sge", .tokSge), ("slt", .tokSlt), ("sle", .tokSle), ("ugt", .tokUgt), ("uge", .tokUge),
    ("ult", .tokUlt), ("ule", .tokUle), ("oeq", .tokOeq), ("one", .tokOne), ("ogt", .tokOgt),
    ("oge", .tokOge), ("olt", .tokOlt), ("ole", .tokOle), ("ord", .tokOrd), ("ueq", .tokUeq),
    ("une", .tokUne), ("uno", .tokUno), ("x", .tokX)]
  |>.map fun row => (spelled row.1, row.2)

/-- FNV-1a. -/
def keywordHash (s : CStr) : UInt32 := s.foldl (fun h c => (h ^^^ c.toUInt32) * 16777619) 2166136261

/-- The cases of the switch: the hash, and the only word that is compared. -/
def keywordCases : List (UInt32 × CStr × TokKind) :=
  [(0x01f7e39f, "signext", .tokSignext), (0x0684099c, "urem", .tokUrem),
    (0x0691ea25, "constant", .tokConstant), (0x0b069958, "false", .tokFalse),
    (0x0f29c2a6, "and", .tokAnd), (0x11c2662d, "select", .tokSelect),
    (0x13266a9c, "ninf", .tokNinf), (0x186c5d43, "nsw", .tokNsw), (0x1c362229, "fsub", .tokFsub),
    (0x1cb0ec77, "ashr", .tokAshr), (0x1dff06ae, "global", .tokGlobal),
    (0x236c6e94, "nsz", .tokNsz), (0x287286a1, "nuw", .tokNuw),
    (0x2c9151f9, "nonnull", .tokNonnull), (0x30dbb8a6, "srem", .tokSrem),
    (0x30f467ac, "ret", .tokRet), (0x331d748a, "external", .tokExternal),
    (0x33952f14, "fdiv", .tokFdiv), (0x34efc59f, "bitcast", .tokBitcast),
    (0x36cff9c0, "ult", .tokUlt), (0x38c330f3, "ugt", .tokUgt),
    (0x39262605, "declare", .tokDeclare), (0x3b391274, "add", .tokAdd),
    (0x41437d99, "insertvalue", .tokInsertvalue), (0x42454824, "to", .tokTo),
    (0x441a6a43, "eq", .tokEq), (0x47c34890, "uge", .tokUge), (0x47d01483, "ule", .tokUle),
    (0x48b5725f, "void", .tokVoid), (0x4c75e965, "fmul", .tokFmul),
    (0x4d5b0474, "common", .tokCommon), (0x4db211e5, "true", .tokTrue), (0x4f2bc4b5, "br", .tokBr),
    (0x4fbed7fa, "ueq", .tokUeq), (0x4ff85ef6, "lshr", .tokLshr), (0x5127f14d, "type", .tokType),
    (0x51d4a16f, "uno", .tokUno), (0x5244aa84, "phi", .tokPhi), (0x55764c09, "ptr", .tokPtr),
    (0x5836603c, "ne", .tokNe), (0x58b04806, "fpext", .tokFpext), (0x5bd4b12d, "une", .tokUne),
    (0x5cca1c55, "alloca", .tokAlloca), (0x5d342984, "or", .tokOr),
    (0x602c63de, "align", .tokAlign), (0x62cb0d0c, "private", .tokPrivate),
    (0x668cbeb0, "noundef", .tokNoundef), (0x668d4269, "sext", .tokSext),
    (0x670195b6, "sitofp", .tokSitofp), (0xc1f8df40, "uitofp", .tokUitofp),
    (0x6a9f8552, "define", .tokDefine), (0x6f15601e, "opaque", .tokOpaque),
    (0x705624fc, "zext", .tokZext), (0x75191b51, "undef", .tokUndef),
    (0x77074ba4, "null", .tokNull), (0x7f6a0e3f, "extractvalue", .tokExtractvalue),
    (0x7f795119, "ptrtoint", .tokPtrtoint), (0x91b3e243, "frem", .tokFrem),
    (0x91fa8f16, "writeonly", .tokWriteonly), (0x93e05f71, "switch", .tokSwitch),
    (0x991deba0, "ord", .tokOrd), (0x9a796d00, "internal", .tokInternal),
    (0xa02c414d, "getelementptr", .tokGetelementptr), (0xa0eb0f08, "double", .tokDouble),
    (0xa642d0f0, "oeq", .tokOeq), (0xa6c45d85, "float", .tokFloat), (0xa7105b55, "fneg", .tokFneg),
    (0xaaedf37f, "inbounds", .tokInbounds), (0xaaefa29b, "udiv", .tokUdiv),
    (0xad2b82a6, "olt", .tokOlt), (0xb2f7980d, "invoke", .tokInvoke),
    (0x4807fb41, "landingpad", .tokLandingpad), (0xff39a36a, "resume", .tokResume),
    (0xa4dc0768, "unwind", .tokUnwind), (0xd95df1b3, "cleanup", .tokCleanup),
    (0x4288e94c, "catch", .tokCatch), (0x0e221f23, "personality", .tokPersonality),
    (0xb3f184a9, "call", .tokCall), (0xb6b438fe, "zeroext", .tokZeroext),
    (0xb736d533, "local_unnamed_addr", .tokLocalUnnamedAddr), (0xba2719ef, "one", .tokOne),
    (0xbe2b9d69, "ole", .tokOle), (0xbf3ce81d, "ogt", .tokOgt), (0xc7649392, "fptosi", .tokFptosi),
    (0xbb5e7080, "fptoui", .tokFptoui), (0xc7e7bc2e, "store", .tokStore),
    (0xc93854dd, "sle", .tokSle), (0xcc6bdb7e, "xor", .tokXor),
    (0xce0beff7, "readonly", .tokReadonly), (0xce3cffba, "oge", .tokOge),
    (0xd522b60d, "dso_local", .tokDsolocal), (0xd55e61e5, "trunc", .tokTrunc),
    (0xd809e3a3, "unnamed_addr", .tokUnnamedAddr), (0xd8386c7a, "slt", .tokSlt),
    (0xd83b82b8, "icmp", .tokIcmp), (0xd89e21f1, "unreachable", .tokUnreachable),
    (0xda211651, "sgt", .tokSgt), (0xdc4e3915, "sub", .tokSub), (0xe02debb6, "shl", .tokShl),
    (0xe0c77861, "zeroinitializer", .tokZeroinitializer), (0xe2f81043, "fptrunc", .tokFptrunc),
    (0xe60759e9, "load", .tokLoad), (0xe81fa798, "nocapture", .tokNocapture),
    (0xe9212dee, "sge", .tokSge), (0xe9f1dd8b, "fcmp", .tokFcmp), (0xeb84ed81, "mul", .tokMul),
    (0xf06d8280, "fadd", .tokFadd), (0xf18b906c, "linkonce_odr", .tokLinkonceOdr),
    (0xf577d25e, "nnan", .tokNnan), (0xf69717fd, "label", .tokLabel),
    (0xf7c31c4f, "inttoptr", .tokInttoptr), (0xf820d675, "sdiv", .tokSdiv),
    (0xfd0c5087, "x", .tokX), (0x87d98b64, "x86_fp80", .tokX86Fp80)]
  |>.map fun row => (row.1, spelled row.2.1, row.2.2)

/-- The fast path for `i1`, `i8`, `i16`, `i32` and `i64`. -/
def lookupInteger : CStr → Option TokKind
  | [105, a] => if a = 49 then some .tokI1 else if a = 56 then some .tokI8 else none
  | [105, a, b] =>
    if a = 49 ∧ b = 54 then some .tokI16
    else if a = 51 ∧ b = 50 then some .tokI32
    else if a = 54 ∧ b = 52 then some .tokI64
    else none
  | _ => none

/-- The switch: the labels differ, so the first case with the hash is the only one. -/
def keywordSwitch (s : CStr) : Option TokKind := HashSwitch.dispatch keywordHash keywordCases s

/-- `tokEof` is no keyword. -/
def lookupKeyword (s : CStr) : TokKind :=
  if s.isEmpty then .tokEof
  else ((lookupInteger s).or (keywordSwitch s)).getD .tokEof

/-- What a token has behind its start. -/
structure Scanned where
  kind : TokKind
  len : Nat
  intVal : BitVec 64 := 0
  floatVal : BitVec 64 := 0
  deriving DecidableEq

/-- The tokens of one character. -/
def punctuation : UInt8 → Option TokKind
  | 40 => some .tokLparen
  | 41 => some .tokRparen
  | 123 => some .tokLbrace
  | 125 => some .tokRbrace
  | 91 => some .tokLbracket
  | 93 => some .tokRbracket
  | 44 => some .tokComma
  | 61 => some .tokEquals
  | 42 => some .tokStar
  | 58 => some .tokColon
  | 60 => some .tokLangle
  | 62 => some .tokRangle
  | _ => none

/-- Behind a dot. -/
def scanDot (rest : CStr) : Scanned :=
  if rest.take 2 = [46, 46] then ⟨.tokDotdotdot, 3, 0, 0⟩
  else if rest.head?.any isIdentChar then ⟨.tokLocalId, 1 + runOf isIdentChar rest, 0, 0⟩
  else ⟨.tokError, 1, 0, 0⟩

/-- The bytes behind an opening quote up to and with the closing one; a backslash takes the
byte behind it along. -/
def quotedLen : CStr → Nat
  | [] => 0
  | [_] => 1
  | c :: d :: rest =>
    if c = 34 then 1
    else if c = 92 then 2 + quotedLen rest
    else 1 + quotedLen (d :: rest)

/-- The bytes of a name behind its sigil. -/
def nameLen : CStr → Nat
  | 34 :: rest => 1 + quotedLen rest
  | rest => runOf isIdentChar rest

/-- The digits as a number modulo 2 ^ 64. -/
def decimalValue (digits : CStr) : BitVec 64 :=
  digits.foldl (fun val c => val * 10 + (c - 48).toBitVec.setWidth 64) 0

def hexBits (digits : CStr) : BitVec 64 :=
  digits.foldl (fun bits c => (bits <<< 4) ||| (hexVal c).toBitVec.setWidth 64) 0

/-- A dot and digits. -/
def fractionLen : CStr → Nat
  | 46 :: rest => 1 + runOf isDigitAscii rest
  | _ => 0

def signLen (rest : CStr) : Nat := if rest.head?.any fun c => c == 43 || c == 45 then 1 else 0

/-- An `e`, a sign and digits. -/
def exponentLen : CStr → Nat
  | [] => 0
  | c :: rest =>
    if c = 101 ∨ c = 69 then
      1 + signLen rest + runOf isDigitAscii (rest.drop (signLen rest))
    else 0

/-- The fraction and the exponent of a number. -/
def realLen (rest : CStr) : Nat := fractionLen rest + exponentLen (rest.drop (fractionLen rest))

/-- The value of an integer: `c` is its first digit or a minus sign. -/
def integerValue (c : UInt8) (digits : CStr) : BitVec 64 :=
  if c = 45 then -decimalValue digits else decimalValue (c :: digits)

section Scan
variable (strtod : CStr → BitVec 64)

/-- The digits of a number with a base of 10. -/
def scanDecimal (c : UInt8) (rest : CStr) : Scanned :=
  let n := runOf isDigitAscii rest
  if (rest.drop n).head?.any fun d => d == 46 || d == 101 || d == 69 then
    let len := 1 + n + realLen (rest.drop n)
    ⟨.tokFloatLit, len, 0, if len < 64 then strtod ((c :: rest).take len) else 0⟩
  else ⟨.tokIntLit, 1 + n, integerValue c (rest.take n), 0⟩

/-- A number that begins with a digit or a minus sign. -/
def scanNumber (c : UInt8) (rest : CStr) : Scanned :=
  if c = 45 ∧ ¬ rest.head?.any isDigitAscii then ⟨.tokError, 1, 0, 0⟩
  else if c = 48 ∧ rest.head?.any fun d => d == 120 || d == 88 then
    let n := runOf isHexDigit rest.tail
    ⟨.tokFloatLit, 2 + n, 0, hexBits (rest.tail.take n)⟩
  else scanDecimal strtod c rest

/-- An identifier is a keyword or the name of a local value. -/
def identKind (s : CStr) : TokKind :=
  let kw := lookupKeyword s
  if kw ≠ .tokEof then kw else .tokLocalId

def scanIdent (c : UInt8) (rest : CStr) : Scanned :=
  if isAlphaAscii c ∨ c = 95 then
    let len := 1 + runOf isIdentChar rest
    ⟨identKind ((c :: rest).take len), len, 0, 0⟩
  else ⟨.tokError, 1, 0, 0⟩

/-- The switch of `lr_lexer_next`. -/
def scanToken (c : UInt8) (rest : CStr) : Scanned :=
  match punctuation c with
  | some kind => ⟨kind, 1, 0, 0⟩
  | none =>
    if c = 46 then scanDot rest
    else if c = 33 then ⟨.tokMetadataId, 1 + runOf isIdentChar rest, 0, 0⟩
    else if c = 35 then ⟨.tokAttrGroup, 1 + runOf isDigitAscii rest, 0, 0⟩
    else if c = 37 then ⟨.tokLocalId, 1 + nameLen rest, 0, 0⟩
    else if c = 64 then ⟨.tokGlobalId, 1 + nameLen rest, 0, 0⟩
    else if c = 34 then ⟨.tokStringLit, 1 + quotedLen rest, 0, 0⟩
    else if c = 99 ∧ rest.head? = some 34 then ⟨.tokStringLit, 2 + quotedLen rest.tail, 0, 0⟩
    else if c = 45 ∨ isDigitAscii c then scanNumber strtod c rest
    else scanIdent c rest

def lrLexerNext (lex : Lexer) : LexToken × Lexer :=
  let pos := lex.pos + skipWhitespaceAndComments false (lex.src.drop lex.pos)
  match lex.src.drop pos with
  | [] => (⟨.tokEof, pos, 0, 0, 0⟩, { lex with pos := pos })
  | c :: rest =>
    let t := scanToken strtod c rest
    (⟨t.kind, pos, t.len, t.intVal, t.floatVal⟩, { lex with pos := pos + t.len })

/-- The tokens of repeated calls up to the first `tokEof`, without it; `none` if it is not among
the first `fuel` ones. -/
def lexAll : (fuel : Nat) → Lexer → Option (List LexToken)
  | 0, _ => none
  | fuel + 1, lex =>
    let (t, lex) := lrLexerNext strtod lex
    if t.kind = .tokEof then some [] else (lexAll fuel lex).map (t :: ·)

end Scan

/-- A token with its spelling. -/
def LexToken.read (t : LexToken) (src : CStr) : Token where
  kind := t.kind
  text := (src.drop t.start).take t.len
  intVal := t.intVal
  floatVal := t.floatVal

/-- What the parser of a text reads. -/
def lexText (strtod : CStr → BitVec 64) (text : CStr) : List Token :=
  ((lexAll strtod (text.length + 1) (lrLexerInit text)).getD []).map fun t => t.read text

end Liric.Source.Ll
