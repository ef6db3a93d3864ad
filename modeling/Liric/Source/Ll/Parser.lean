import Liric.Source.Ir.Operands
import Liric.Source.Ir.Symbols

/-!
# Types and constant operands of the text parser

Source: src/ll_lexer.h:8-174 (tokens), src/ll_parser.c:127-170 (token handling), 557-587
(`resolve_vreg_n`), 664-700 (globals), 713-773 and 799-914 (`parse_type`), 916-978 (`skip_attrs`),
980-1260 (`parse_const_gep_operand` to `parse_typed_operand`), 1262-1325 (`skip_balanced_*`),
1420-1482 (`bind_vreg_type`).

The parser reads the tokens the lexer makes of the text; behind the last one
there is only `tokEof`. The first error is kept. The name tables are lists in
order of registration, searched from the front. Functions that call each other
carry a bound on the depth of the calls. `none` is a run that has no result: the
bound is used up, a probe of the symbol table does not end, or a fixed array of
the source is written or read outside its bounds.
-/
namespace Liric.Source.Ll
open Ir

inductive TokKind where
  | tokEof | tokError | tokDefine | tokDeclare | tokRet | tokBr | tokLabel | tokAdd | tokSub
  | tokMul | tokSdiv | tokSrem | tokUdiv | tokUrem | tokAnd | tokOr | tokXor | tokShl | tokLshr
  | tokAshr | tokFadd | tokFsub | tokFmul | tokFdiv | tokFrem | tokFneg | tokIcmp | tokFcmp
  | tokAlloca | tokLoad | tokStore | tokGetelementptr | tokCall | tokPhi | tokSelect | tokSext
  | tokZext | tokTrunc | tokBitcast | tokPtrtoint | tokInttoptr | tokSitofp | tokUitofp
  | tokFptosi | tokFptoui | tokFpext | tokFptrunc | tokExtractvalue | tokInsertvalue
  | tokUnreachable | tokSwitch | tokInvoke | tokLandingpad | tokResume | tokUnwind | tokCleanup
  | tokCatch | tokPersonality | tokTo | tokAlign | tokNsw | tokNuw | tokInbounds | tokNonnull
  | tokNoundef | tokSignext | tokZeroext | tokNocapture | tokReadonly | tokWriteonly
  | tokGlobal | tokConstant | tokExternal | tokInternal | tokPrivate | tokCommon
  | tokLinkonceOdr | tokDsolocal | tokUnnamedAddr | tokLocalUnnamedAddr | tokType | tokOpaque
  | tokNull | tokUndef | tokZeroinitializer | tokTrue | tokFalse | tokNnan | tokNinf | tokNsz
  | tokEq | tokNe | tokSgt | tokSge | tokSlt | tokSle | tokUgt | tokUge | tokUlt | tokUle
  | tokOeq | tokOne | tokOgt | tokOge | tokOlt | tokOle | tokOrd | tokUeq | tokUne | tokUno
  | tokVoid | tokI1 | tokI8 | tokI16 | tokI32 | tokI64 | tokFloat | tokDouble | tokX86Fp80
  | tokPtr | tokLocalId | tokGlobalId | tokIntLit | tokFloatLit | tokStringLit | tokLparen
  | tokRparen | tokLbrace | tokRbrace | tokLbracket | tokRbracket | tokComma | tokEquals
  | tokStar | tokDotdotdot | tokColon | tokLangle | tokRangle | tokExclaim | tokX | tokHash
  | tokAttrGroup | tokMetadataId | tokNewline
  deriving DecidableEq

/-- `lr_token_t`; `text` is the spelling, with `%` or `@` in front of a name. -/
structure Token where
  kind : TokKind
  text : CStr := []
  intVal : BitVec 64 := 0
  floatVal : BitVec 64 := 0
  deriving DecidableEq

inductive ParseError where
  /-- "expected '%s', got '%s'" -/
  | expectedToken (want got : TokKind)
  /-- "expected type, got '%s'" -/
  | expectedType (got : TokKind)
  /-- "expected operand, got '%s'" -/
  | expectedOperand (got : TokKind)
  /-- "expected '{' after '<' in packed struct literal" -/
  | expectedBraceAfterAngle
  /-- "expected function name" -/
  | expectedFunctionName
  /-- "unexpected token '%s' in basic block" -/
  | unexpectedInBlock (got : TokKind)
  /-- "unterminated parenthesized type in call", "unterminated aggregate constant"
  and "unterminated array constant", by the opening token -/
  | unterminated (opening : TokKind)
  /-- "type mismatch for value '%%%.*s': expected %s, got %s" -/
  | typeMismatch (name : CStr) (expected known : LrType)
  deriving DecidableEq

structure TypeMapEntry where
  name : CStr
  type : LrType
  placeholder : Bool
  deriving DecidableEq

/-- The fields of `lr_parser_t` and of its module that types and operands use.
`nextAddr` is the address the arena hands out next, `nextVreg` the counter of the
function being parsed. -/
structure Parser where
  toks : List Token
  error : Option ParseError := none
  builtin : BuiltinTypes
  symbols : SymbolTable
  nextAddr : Nat
  globalMap : List (CStr × Nat) := []
  typeMap : List TypeMapEntry := []
  vregMap : List (CStr × Nat) := []
  vregNumeric : List (Nat × Nat) := []
  vregTypes : List (Nat × LrType) := []
  nextVreg : Nat := 0
  deriving DecidableEq

abbrev P := StateT Parser Option

def Parser.cur (p : Parser) : Token := p.toks.headD { kind := .tokEof }

def undefined {α : Type} : P α := fun _ => none

def curTok : P Token := fun p => some (p.cur, p)

def reportError (e : ParseError) : P Unit := fun p =>
  some ((), { p with error := p.error <|> some e })

def next : P Unit := fun p => some ((), { p with toks := p.toks.tail })

def check (kind : TokKind) : P Bool := fun p => some (p.cur.kind == kind, p)

/-- `match` of the source. -/
def accept (kind : TokKind) : P Bool := fun p =>
  if p.cur.kind = kind then some (true, { p with toks := p.toks.tail }) else some (false, p)

def expect (kind : TokKind) : P Unit := do
  if ← accept kind then pure ()
  else reportError (.expectedToken kind (← curTok).kind)

def expectIf (wanted : Bool) (kind : TokKind) : P Unit := if wanted then expect kind else pure ()

/-- A loop that consumes a token in every round but the last. -/
def withTokenFuel {α : Type} (loop : Nat → P α) : P α := fun p => loop (p.toks.length + 1) p

/-- `tok_name_view`: the name without its sigil and its quotes. -/
def tokNameView (t : Token) : CStr :=
  let s := match t.text with
    | 37 :: rest | 64 :: rest => rest
    | s => s
  if s.length ≥ 2 ∧ s.head? = some 34 ∧ s.getLast? = some 34 then s.tail.dropLast else s

/-- The loop of `skip_balanced_parens`, `_braces` and `_brackets` at depth `depth`. -/
def skipBalancedLoop (opening closing : TokKind) : Nat → Nat → P Nat
  | 0, _ => undefined
  | fuel + 1, depth => do
    if depth = 0 ∨ (← check .tokEof) then pure depth
    else if ← accept opening then skipBalancedLoop opening closing fuel (depth + 1)
    else if ← accept closing then skipBalancedLoop opening closing fuel (depth - 1)
    else
      next
      skipBalancedLoop opening closing fuel depth

def skipBalanced (opening closing : TokKind) : P Unit := do
  expect opening
  let depth ← withTokenFuel (fun fuel => skipBalancedLoop opening closing fuel 1)
  if depth ≠ 0 then reportError (.unterminated opening) else pure ()

def skipBalancedParens : P Unit := skipBalanced .tokLparen .tokRparen
def skipBalancedBraces : P Unit := skipBalanced .tokLbrace .tokRbrace
def skipBalancedBrackets : P Unit := skipBalanced .tokLbracket .tokRbracket

def isBareIdentifier (t : Token) : Bool :=
  t.kind == .tokLocalId && !t.text.isEmpty && t.text.head? != some 37 && t.text.head? != some 64

/-- The keywords `skip_attrs` steps over. -/
def isAttr : TokKind → Bool
  | .tokNsw | .tokNuw | .tokInbounds | .tokNonnull | .tokNoundef | .tokSignext | .tokZeroext
  | .tokNocapture | .tokReadonly | .tokWriteonly | .tokNnan | .tokNinf | .tokNsz
  | .tokDsolocal | .tokLinkonceOdr | .tokExternal | .tokInternal | .tokPrivate | .tokCommon
  | .tokUnnamedAddr | .tokLocalUnnamedAddr | .tokAttrGroup | .tokMetadataId => true
  | _ => false

def skipAttrPayload : P Unit := do
  if ← check .tokLparen then skipBalancedParens else pure ()

def skipAttrsLoop : Nat → P Unit
  | 0 => undefined
  | fuel + 1 => do
    let cur ← curTok
    if isAttr cur.kind then
      next
      skipAttrsLoop fuel
    else if cur.kind = .tokAlign then
      next
      let _ ← accept .tokIntLit
      skipAttrsLoop fuel
    else if isBareIdentifier cur then
      next
      skipAttrPayload
      skipAttrsLoop fuel
    else pure ()

def skipAttrs : P Unit := withTokenFuel skipAttrsLoop

/-- An allocation in the arena of the module. -/
def allocType (mk : Nat → LrType) : P LrType := fun p =>
  some (mk p.nextAddr, { p with nextAddr := p.nextAddr + 1 })

def resolveType (name : CStr) : P (Option LrType) := fun p =>
  some ((p.typeMap.find? (fun e => e.name == name)).map TypeMapEntry.type, p)

/-- A name that is not known yet stands for an empty struct until it is defined. -/
def resolveOrCreateForwardType (name : CStr) : P LrType := do
  match ← resolveType name with
  | some type => pure type
  | none =>
    let placeholder ← allocType (fun addr => .struct addr [] false (some name))
    fun p => some (placeholder, { p with typeMap := p.typeMap ++ [⟨name, placeholder, true⟩] })

/-- The local arrays `fields[256]` and `params[256]`. -/
def localArrayCap : Nat := 256

def pushBounded (xs : List LrType) (x : LrType) : P (List LrType) :=
  if xs.length < localArrayCap then pure (xs ++ [x]) else undefined

/-- `while (match(p, LR_TOK_COMMA)) fields[nf++] = parse_type(p);` -/
def fieldsLoop (elem : P LrType) : Nat → List LrType → P (List LrType)
  | 0, _ => undefined
  | fuel + 1, fields => do
    if ← accept .tokComma then
      let fields ← pushBounded fields (← elem)
      fieldsLoop elem fuel fields
    else pure fields

/-- The fields of a struct type up to its closing brace. -/
def parseFields (elem : P LrType) : P (List LrType) := do
  if ← check .tokRbrace then pure []
  else
    let first ← elem
    withTokenFuel (fun fuel => fieldsLoop elem fuel [first])

/-- `[N x T]` and `<N x T>` from the count on. -/
def parseCounted (elem : P LrType) (closing : TokKind)
    (mk : Nat → LrType → BitVec 64 → LrType) : P LrType := do
  let count := (← curTok).intVal
  expect .tokIntLit
  expect .tokX
  let elemTy ← elem
  expect closing
  allocType (fun addr => mk addr elemTy count)

def paramsLoop (elem : P LrType) : Nat → List LrType → P (List LrType × Bool)
  | 0, _ => undefined
  | fuel + 1, params => do
    if ← accept .tokComma then
      if ← accept .tokDotdotdot then pure (params, true)
      else
        let params ← pushBounded params (← elem)
        paramsLoop elem fuel params
    else pure (params, false)

/-- The parameters of a function type up to its closing parenthesis, and whether
they end in `...`. -/
def parseParams (elem : P LrType) : P (List LrType × Bool) := do
  if ← check .tokRparen then pure ([], false)
  else if ← accept .tokDotdotdot then pure ([], true)
  else
    let first ← elem
    withTokenFuel (fun fuel => paramsLoop elem fuel [first])

/-- Stars and parameter lists behind a type. -/
def suffixLoop (elem : P LrType) : Nat → LrType → P LrType
  | 0, _ => undefined
  | fuel + 1, ty => do
    if ← accept .tokStar then
      suffixLoop elem fuel (← get).builtin.typePtr
    else if ← accept .tokLparen then
      let (params, vararg) ← parseParams elem
      expect .tokRparen
      let ty ← allocType (fun addr => .func addr ty params vararg)
      suffixLoop elem fuel ty
    else pure ty

/-- The scalar and pointer types that are one token. -/
def builtinType (b : BuiltinTypes) : TokKind → Option LrType
  | .tokVoid => some b.typeVoid
  | .tokI1 => some b.typeI1
  | .tokI8 => some b.typeI8
  | .tokI16 => some b.typeI16
  | .tokI32 => some b.typeI32
  | .tokI64 => some b.typeI64
  | .tokFloat => some b.typeFloat
  | .tokDouble => some b.typeDouble
  | .tokX86Fp80 => some b.typeX86Fp80
  | .tokPtr => some b.typePtr
  | _ => none

def parseStruct (elem : P LrType) (packed : Bool) : P LrType := do
  let fields ← parseFields elem
  expect .tokRbrace
  expectIf packed .tokRangle
  allocType (fun addr => .struct addr fields packed none)

/-- The switch of `parse_type`, with `elem` for its recursive calls. -/
def parseTypeHead (elem : P LrType) : P LrType := do
  let t ← curTok
  match builtinType (← get).builtin t.kind with
  | some ty =>
    next
    pure ty
  | none =>
    if t.kind = .tokLocalId then
      next
      resolveOrCreateForwardType (tokNameView t)
    else if t.kind = .tokLbracket then
      next
      parseCounted elem .tokRbracket .array
    else if t.kind = .tokLbrace then
      next
      parseStruct elem false
    else if t.kind = .tokLangle then
      next
      if ← check .tokIntLit then parseCounted elem .tokRangle .vector
      else
        expect .tokLbrace
        parseStruct elem true
    else
      reportError (.expectedType t.kind)
      pure (← get).builtin.typeVoid

def parseType : Nat → P LrType
  | 0 => undefined
  | depth + 1 => do
    let ty ← parseTypeHead (parseType depth)
    withTokenFuel (fun fuel => suffixLoop (parseType depth) fuel ty)

/-- `parse_u32_decimal_n`. -/
def parseU32Decimal (s : CStr) : Option Nat :=
  if s.isEmpty then none
  else s.foldlM (fun v c =>
    if 48 ≤ c ∧ c ≤ 57 ∧ v * 10 + (c.toNat - 48) < 2 ^ 32 then some (v * 10 + (c.toNat - 48))
    else none) 0

/-- `lr_vreg_new` and `register_vreg_name`: a numeric name also gets its slot. -/
def newVreg (name : CStr) : P Nat := fun p =>
  let id := p.nextVreg
  some (id, { p with
    nextVreg := p.nextVreg + 1
    vregMap := p.vregMap ++ [(name, id)]
    vregNumeric := match parseU32Decimal name with
      | some n => (n, id) :: p.vregNumeric
      | none => p.vregNumeric })

/-- The decimal digits `snprintf` writes for `%u`. -/
def decimalName (n : Nat) : CStr := (toString n).toUTF8.toList

def resolveVreg (name : CStr) : P Nat := do
  match parseU32Decimal name with
  | some n =>
    match (← get).vregNumeric.lookup n with
    | some id => pure id
    | none => newVreg (decimalName n)
  | none =>
    match (← get).vregMap.lookup name with
    | some id => pure id
    | none => newVreg name

mutual
def typeEqualsRecursive : LrType → LrType → Bool
  | .scalar _ k, .scalar _ l => k = l
  | .ptr .., .ptr .. => true
  | .array _ e c, .array _ f d => c == d && typeEqualsRecursive e f
  | .vector _ e c, .vector _ f d => c == d && typeEqualsRecursive e f
  | .struct _ fs p _, .struct _ gs q _ => p == q && fieldsEqualRecursive fs gs
  | .func _ r ps v, .func _ s qs w =>
    typeEqualsRecursive r s && v == w && fieldsEqualRecursive ps qs
  | _, _ => false

def fieldsEqualRecursive : List LrType → List LrType → Bool
  | [], [] => true
  | f :: fs, g :: gs => typeEqualsRecursive f g && fieldsEqualRecursive fs gs
  | _, _ => false
end

/-- The answer is whether the value may have the expected type. -/
def bindVregType (vreg : Nat) (expected : LrType) (name : CStr) : P Bool := do
  match (← get).vregTypes.lookup vreg with
  | none =>
    modify (fun p => { p with vregTypes := (vreg, expected) :: p.vregTypes })
    pure true
  | some known =>
    if typeEqualsRecursive known expected then pure true
    else
      reportError (.typeMismatch name expected known)
      pure false

/-- `lr_frontend_intern_symbol`. -/
def internSymbol (name : CStr) : P Nat := fun p =>
  if name.isEmpty then some (uint32Max, p)
  else (lrModuleInternSymbol p.symbols name).map (fun (symbols, id) =>
    (id, { p with symbols := symbols }))

/-- A global name is looked up in the parser's table and interned if it is new. -/
def resolveGlobal (name : CStr) : P Nat := do
  let gid := ((← get).globalMap.lookup name).getD uint32Max
  if gid = uint32Max then
    let gid ← internSymbol name
    modify (fun p => { p with globalMap := p.globalMap ++ [(name, gid)] })
    pure gid
  else pure gid

/-- `m * 2 ^ -s` rounded to the nearest integer, ties to even. -/
def roundShift (m s : Nat) : Nat :=
  let q := m / 2 ^ s
  let r := m % 2 ^ s
  if 2 * r > 2 ^ s ∨ (2 * r = 2 ^ s ∧ q % 2 = 1) then q + 1 else q

/-- The C conversion from `double` to `float`, on bits. -/
def floatOfDouble (bits : BitVec 64) : BitVec 32 :=
  let sign := if bits.msb then 2 ^ 31 else 0
  let e := bits.toNat / 2 ^ 52 % 2 ^ 11
  let m := bits.toNat % 2 ^ 52
  let magnitude :=
    if e = 2047 then
      if m = 0 then 0x7F800000 else 0x7FC00000 ||| (m / 2 ^ 29)
    else if e < 897 then
      -- below the normal range of `float` the last place stays at 2 ^ -149
      roundShift (if e = 0 then m else m + 2 ^ 52) (926 - max e 1)
    else min 0x7F800000 ((e - 897) * 2 ^ 23 + roundShift (m + 2 ^ 52) 29)
  BitVec.ofNat 32 (sign + magnitude)

/-- The low `n` bytes of a word, least significant first. -/
def bytesLe {w : Nat} (v : BitVec w) (n : Nat) : List UInt8 :=
  (List.range n).map (fun i => UInt8.ofNat (v.toNat / 2 ^ (8 * i)))

/-- A write into the eight byte buffer of a packed constant. -/
def writeBuf (buf : List UInt8) (offset : Nat) (bytes : List UInt8) : Option (List UInt8) :=
  if offset + bytes.length ≤ buf.length then
    some (buf.take offset ++ bytes ++ buf.drop (offset + bytes.length))
  else none

def packScalarBits (buf : List UInt8) (offset : Nat) (ft : LrType) (op : LrOperand) :
    Option (List UInt8) :=
  let fsz := (lrTypeSize ft).toNat
  match op.value with
  | .immI64 v => writeBuf buf offset (bytesLe v (min fsz 8))
  | .immF64 v =>
    match ft with
    | .scalar _ .float => writeBuf buf offset (bytesLe (floatOfDouble v) 4)
    -- sixteen bytes of a `long double` never fit
    | .scalar _ .x86Fp80 => none
    | _ => writeBuf buf offset (bytesLe v 8)
  | _ => if offset + fsz ≤ buf.length then writeBuf buf offset (List.replicate fsz 0) else none

/-- `memcpy(&packed_val, buf, total)` into a zero. -/
def packedVal (buf : List UInt8) (total : Nat) : BitVec 64 :=
  BitVec.ofNat 64 ((buf.take total).foldr (fun b acc => b.toNat + 256 * acc) 0)

def zeroBuf : List UInt8 := List.replicate 8 0

/-- The loop that packs the fields of a struct constant. -/
def packFields (type : LrType) : List LrType → List LrOperand → Nat → List UInt8 →
    Option (List UInt8)
  | [], _, _, buf => some buf
  | _ :: _, [], _, _ => none
  | ft :: fts, op :: ops, i, buf => do
    let buf ← packScalarBits buf (lrStructFieldOffset type i).toNat ft op
    packFields type fts ops (i + 1) buf

def aggFieldsMax : Nat := 16

/-- The operands of an aggregate up to its closing token. -/
def elemsLoop (typed : P LrOperand) (closing : TokKind) : Nat → List LrOperand →
    P (List LrOperand)
  | 0, _ => undefined
  | fuel + 1, ops => do
    if (← check closing) || (← check .tokEof) then pure ops
    else
      let ops := ops ++ [← typed]
      if ← accept .tokComma then elemsLoop typed closing fuel ops else pure ops

def liftOption {α : Type} (x : Option α) : P α := fun p => x.map (fun a => (a, p))

def parseStructConstantFields (typed : P LrOperand) (type : LrType) : P LrOperand := do
  let packed ← accept .tokLangle
  expect .tokLbrace
  let ops ← withTokenFuel (fun fuel => elemsLoop typed .tokRbrace fuel [])
  expect .tokRbrace
  expectIf packed .tokRangle
  match type with
  | .struct _ fields _ _ =>
    if ops.length = fields.length ∧ lrTypeSize type ≤ 8 then
      -- only the first sixteen operands were stored
      let buf ← liftOption (packFields type fields (ops.take aggFieldsMax) 0 zeroBuf)
      pure (lrOpImmI64 (packedVal buf (lrTypeSize type).toNat) (some type))
    else pure (lrOpUndef (some type))
  | _ => pure (lrOpUndef (some type))

/-- The packing of the elements of a vector constant: behind the last element of
the type nothing is packed, and an element that does not fit ends the packing. -/
def packElems (elem : LrType) (count total : Nat) : List LrOperand → Nat → List UInt8 →
    Option (Option (List UInt8))
  | [], _, buf => some (some buf)
  | op :: ops, i, buf =>
    let elemSize := (lrTypeSize elem).toNat
    if i < count then
      if i * elemSize + elemSize ≤ total then do
        let buf ← packScalarBits buf (i * elemSize) elem op
        packElems elem count total ops (i + 1) buf
      else some none
    else packElems elem count total ops (i + 1) buf

/-- The elements of a vector constant behind its `<`. -/
def parseVectorConstant (typed : P LrOperand) (type elem : LrType) (count : BitVec 64) :
    P LrOperand := do
  let elemSize := lrTypeSize elem
  let total := lrTypeSize type
  let ops ← withTokenFuel (fun fuel => elemsLoop typed .tokRangle fuel [])
  expect .tokRangle
  if elemSize > 0 ∧ total > 0 ∧ total ≤ 8 then
    match ← liftOption (packElems elem count.toNat total.toNat ops 0 zeroBuf) with
    | some buf =>
      if ops.length = count.toNat then
        pure (lrOpImmI64 (packedVal buf total.toNat) (some type))
      else pure (lrOpUndef (some type))
    | none => pure (lrOpUndef (some type))
  else pure (lrOpUndef (some type))

def parseAggregateConstantOperand (typed : P LrOperand) (type : LrType) : P LrOperand := do
  let isStruct := match type with
    | .struct .. => true
    | _ => false
  if (← check .tokLbrace) && isStruct then parseStructConstantFields typed type
  else if ← accept .tokLangle then
    match type with
    | .vector _ elem count =>
      if count > 0 then parseVectorConstant typed type elem count
      else
        skipBalancedBraces
        let _ ← accept .tokRangle
        pure (lrOpUndef (some type))
    | _ =>
      skipBalancedBraces
      let _ ← accept .tokRangle
      pure (lrOpUndef (some type))
  else if ← check .tokLbrace then
    skipBalancedBraces
    pure (lrOpUndef (some type))
  else
    skipBalancedBrackets
    pure (lrOpUndef (some type))

/-- The accumulators of `parse_const_gep_operand`. -/
structure ConstGep where
  offsetOk : Bool := true
  byteOffset : BitVec 64 := 0
  curTy : LrType
  idxPos : Nat := 0
  deriving DecidableEq

/-- One index of the constant expression. An index that is not a constant ends
the computation of the offset; so does a field index outside its struct. -/
def constGepStep (g : ConstGep) (idxOp : LrOperand) : ConstGep :=
  match g.offsetOk, idxOp.value with
  | true, .immI64 idx =>
    if g.idxPos = 0 then
      { g with byteOffset := g.byteOffset + idx * lrTypeSize g.curTy, idxPos := g.idxPos + 1 }
    else
      match g.curTy with
      | .array _ elem _ | .vector _ elem _ =>
        { g with
          byteOffset := g.byteOffset + idx * lrTypeSize elem
          curTy := elem
          idxPos := g.idxPos + 1 }
      | .struct _ fields _ _ =>
        match if idx.slt 0 then none else fields[idx.toNat]? with
        | none => { g with offsetOk := false, idxPos := g.idxPos + 1 }
        | some field =>
          { g with
            byteOffset := g.byteOffset + lrStructFieldOffset g.curTy idx.toNat
            curTy := field
            idxPos := g.idxPos + 1 }
      | .scalar .. | .ptr .. | .func .. =>
        { g with byteOffset := g.byteOffset + idx * lrTypeSize g.curTy, idxPos := g.idxPos + 1 }
  | _, _ => { g with offsetOk := false }

def constGepLoop (typed : P LrOperand) : Nat → ConstGep → P ConstGep
  | 0, _ => undefined
  | fuel + 1, g => do
    if ← accept .tokComma then
      let idxOp ← typed
      constGepLoop typed fuel (constGepStep g idxOp)
    else pure g

/-- The operand for a base and the accumulated offset. -/
def constGepResult (base : LrOperand) (g : ConstGep) (resultTy : LrType) : LrOperand :=
  match base.value with
  | .global id =>
    { lrOpGlobal id (some resultTy) with
      globalOffset := if g.offsetOk then base.globalOffset + g.byteOffset else base.globalOffset }
  | .vreg id => lrOpVreg id (some resultTy)
  | _ => lrOpNull (some resultTy)

/-- `parse_const_gep_operand`, with its calls of `parse_type` and
`parse_typed_operand` as parameters. -/
def constGepOperand (parseTy : P LrType) (typed : P LrOperand) (resultTy : LrType) :
    P LrOperand := do
  expect .tokGetelementptr
  skipAttrs
  let wrapped ← accept .tokLparen
  let sourceTy ← parseTy
  expect .tokComma
  let base ← typed
  let g ← withTokenFuel (fun fuel => constGepLoop typed fuel { curTy := sourceTy })
  expectIf wrapped .tokRparen
  pure (constGepResult base g resultTy)

/-- The casts a constant expression may be wrapped in. -/
def isCast : TokKind → Bool
  | .tokBitcast | .tokInttoptr | .tokPtrtoint | .tokSext | .tokZext | .tokTrunc | .tokSitofp
  | .tokUitofp | .tokFptosi | .tokFptoui | .tokFpext | .tokFptrunc => true
  | _ => false

/-- A cast keeps the operand and takes the type it is wanted at. -/
def castOperand (parseTy : P LrType) (typed : P LrOperand) (type : LrType) : P LrOperand := do
  next
  expect .tokLparen
  let src ← typed
  expect .tokTo
  let _ ← parseTy
  expect .tokRparen
  pure { src with type := some type }

/-- A literal in angle brackets. -/
def angleOperand (typed : P LrOperand) (type : LrType) : P LrOperand :=
  match type with
  | .struct .. => parseStructConstantFields typed type
  | .vector .. => parseAggregateConstantOperand typed type
  | _ => do
    next
    if ← check .tokLbrace then
      skipBalancedBraces
      expect .tokRangle
      pure (lrOpUndef (some type))
    else
      reportError .expectedBraceAfterAngle
      pure (lrOpImmI64 0 (some type))

/-- The operands that are one token: the token is consumed. -/
def tokenOperand (t : Token) (type : LrType) : P LrOperand :=
  match t.kind with
  | .tokIntLit => do
    next
    pure (lrOpImmI64 t.intVal (some type))
  | .tokFloatLit => do
    next
    pure (lrOpImmF64 t.floatVal (some type))
  | .tokTrue => do
    next
    pure (lrOpImmI64 1 (some type))
  | .tokFalse | .tokZeroinitializer => do
    next
    pure (lrOpImmI64 0 (some type))
  | .tokNull | .tokStringLit => do
    next
    pure (lrOpNull (some type))
  | .tokUndef => do
    next
    pure (lrOpUndef (some type))
  | .tokLocalId => do
    next
    let vreg ← resolveVreg (tokNameView t)
    if ← bindVregType vreg type (tokNameView t) then pure (lrOpVreg vreg (some type))
    else pure (lrOpImmI64 0 (some type))
  | .tokGlobalId => do
    next
    let gid ← resolveGlobal (tokNameView t)
    pure (lrOpGlobal gid (some type))
  | _ => do
    reportError (.expectedOperand t.kind)
    pure (lrOpImmI64 0 (some type))

/-- `parse_operand`, with its calls of `parse_type` and `parse_typed_operand` as
parameters. -/
def operandWith (parseTy : P LrType) (typed : P LrOperand) (type : LrType) : P LrOperand := do
  let t ← curTok
  if t.kind = .tokGetelementptr then constGepOperand parseTy typed type
  else if isCast t.kind then castOperand parseTy typed type
  else if t.kind = .tokLbrace ∨ t.kind = .tokLbracket then
    parseAggregateConstantOperand typed type
  else if t.kind = .tokLangle then angleOperand typed type
  else tokenOperand t type

/-- `parse_typed_operand`: a type, attributes, and the operand. -/
def parseTypedOperand : Nat → P LrOperand
  | 0 => undefined
  | depth + 1 => do
    let t ← parseType (depth + 1)
    skipAttrs
    operandWith (parseType (depth + 1)) (parseTypedOperand depth) t

def parseOperand (depth : Nat) (type : LrType) : P LrOperand :=
  operandWith (parseType depth) (parseTypedOperand depth) type

def parseConstGepOperand (depth : Nat) (resultTy : LrType) : P LrOperand :=
  constGepOperand (parseType depth) (parseTypedOperand depth) resultTy

end Liric.Source.Ll
