import Liric.Source.Ll.Blocks

/-!
# Function bodies in the text parser

Source: src/ll_parser.c:639-661 (`resolve_block_ptr_n`), 779-794 (`call_result_type`), 1328-1386
(`skip_optional_callee_signature`), 1586-1602 (`emit_call`), 1640-1658 (the assignment of
`parse_instruction`), 1799-1855 and 2382-2439 (CALL), 2104-2179 and 2441-2512 (INVOKE, LANDINGPAD
and RESUME), 2212-2244 (BR), 2537-2601 (`parse_function_body` from the opening brace on). There is
no session.

The other instructions are a parameter: a function of the name of the value, the opcode, the block
and the state, whose result says how many tokens it takes. `malloc` and `realloc` succeed.
-/
namespace Liric.Source.Ll
open Ir

/-- The type of a call, and what a function type says about its arguments. -/
def callResultType : LrType → LrType × Bool × Nat
  | .func _ ret params vararg => (ret, vararg, params.length)
  | ty => (ty, false, 0)

/-- The locals of `skip_optional_callee_signature`. -/
structure SigScan where
  depth : Nat := 1
  hasVararg : Bool := false
  numParams : Nat := 0
  inParam : Bool := false
  deriving DecidableEq

def SigScan.endParam (s : SigScan) : SigScan :=
  { s with numParams := if s.inParam then s.numParams + 1 else s.numParams, inParam := false }

def sigLoop : Nat → SigScan → P SigScan
  | 0, _ => undefined
  | fuel + 1, s => do
    if s.depth = 0 ∨ (← check .tokEof) then pure s
    else if ← accept .tokLparen then sigLoop fuel { s with depth := s.depth + 1 }
    else if ← accept .tokRparen then
      let s := if s.depth = 1 then s.endParam else s
      sigLoop fuel { s with depth := s.depth - 1 }
    else if s.depth = 1 ∧ (← check .tokDotdotdot) then
      next
      sigLoop fuel { s with hasVararg := true, inParam := false }
    else if s.depth = 1 ∧ (← check .tokComma) then
      next
      sigLoop fuel s.endParam
    else
      next
      sigLoop fuel { s with inParam := s.inParam || s.depth == 1 }

def starsLoop : Nat → P Unit
  | 0 => undefined
  | fuel + 1 => do
    if ← accept .tokStar then starsLoop fuel else pure ()

/-- Whether the signature is variadic, and its parameters; `none` without a signature. -/
def skipOptionalCalleeSignature : P (Option (Bool × Nat)) := do
  if ← check .tokLparen then
    expect .tokLparen
    let s ← withTokenFuel (fun fuel => sigLoop fuel {})
    if s.depth ≠ 0 then reportError (.unterminated .tokLparen) else pure ()
    withTokenFuel starsLoop
    skipAttrs
    pure (some (s.hasVararg, s.numParams))
  else pure none

def argsLoop (typed : P LrOperand) : Nat → List LrOperand → P (List LrOperand)
  | 0, _ => undefined
  | fuel + 1, args => do
    if ← accept .tokComma then
      skipAttrs
      let arg ← typed
      argsLoop typed fuel (args ++ [arg])
    else pure args

def callArgs (typed : P LrOperand) : P (List LrOperand) := do
  if ← check .tokRparen then pure []
  else
    let first ← typed
    withTokenFuel (fun fuel => argsLoop typed fuel [first])

structure CallText where
  retTy : LrType
  callee : LrOperand
  args : List LrOperand
  vararg : Bool
  fixedArgs : Nat
  deriving DecidableEq

/-- A call behind its keyword, up to its closing parenthesis. -/
def callText (depth : Nat) : P CallText := do
  let (retTy, vararg, fixedArgs) := callResultType (← parseType depth)
  skipAttrs
  let sig ← skipOptionalCalleeSignature
  let callee ← parseOperand depth (← get).builtin.typePtr
  expect .tokLparen
  let args ← callArgs (parseTypedOperand depth)
  expect .tokRparen
  match sig with
  | some (sigVararg, sigFixed) => pure ⟨retTy, callee, args, vararg || sigVararg, sigFixed⟩
  | none => pure ⟨retTy, callee, args, vararg, fixedArgs⟩

def isGlobalOperand (op : LrOperand) : Bool :=
  match op.value with
  | .global _ => true
  | _ => false

def emitCall (block dest : Nat) (c : CallText) : F Unit := do
  recordDestType dest c.retTy
  blockAppend block { lrInstCreate .call (some c.retTy) dest (c.callee :: c.args) with
    callVararg := c.vararg
    callFixedArgs := c.fixedArgs
    callExternalAbi := !isGlobalOperand c.callee }

/-- Behind `call`. Without a value `dest` is 0. -/
def parseCall (depth block dest : Nat) : F Unit := do
  let c ← ofP (callText depth)
  emitCall block dest c
  ofP skipAttrs

def emitBr (block target : Nat) : F Unit := do
  let types := (← get).parser.builtin
  emitInst block .br types.typeVoid 0 [lrOpBlock target]

/-- Behind `br`. Without a label nothing is emitted. -/
def parseBr (depth block : Nat) : F Unit := do
  if ← ofP (check .tokI1) then
    ofP next
    let types := (← get).parser.builtin
    let cond ← ofP (parseOperand depth types.typeI1)
    ofP (expect .tokComma)
    ofP (expect .tokLabel)
    if ← ofP (check .tokLocalId) then
      let tid ← parseLabel
      ofP (expect .tokComma)
      ofP (expect .tokLabel)
      let fid ← parseLabel
      emitInst block .condbr types.typeVoid 0 [cond, lrOpBlock tid, lrOpBlock fid]
    else pure ()
  else
    ofP (expect .tokLabel)
    if ← ofP (check .tokLocalId) then
      let did ← parseLabel
      emitBr block did
    else pure ()

/-- The rest of a line: `!check(p, LR_TOK_NEWLINE) && !check(p, LR_TOK_EOF) && !p->had_error`. -/
def lineLoop : Nat → P Unit
  | 0 => undefined
  | fuel + 1 => do
    if (← check .tokNewline) || (← check .tokEof) || (← get).error.isSome then pure ()
    else
      next
      lineLoop fuel

def skipToNewline : P Unit := withTokenFuel lineLoop

/-- The call of an invoke and the block of its normal label. -/
def invokeHead (depth block dest : Nat) : F Nat := do
  parseCall depth block dest
  ofP (expect .tokTo)
  ofP (expect .tokLabel)
  parseLabel

/-- Behind `invoke`. -/
def parseInvoke (depth block dest : Nat) : F Unit := do
  let normalId ← invokeHead depth block dest
  ofP skipToNewline
  emitBr block normalId

/-- Any other instruction: the name of its value, its opcode and its block. -/
abbrev OtherInst := Option Nat → TokKind → Nat → FuncParser → Option (Nat × FuncParser)

def otherInst (other : OtherInst) (dest : Option Nat) (op : TokKind) (block : Nat) : F Unit :=
  fun s => (other dest op block s).map fun r =>
    ((), { r.2 with parser := { r.2.parser with toks := s.parser.toks.drop r.1 } })

section Body
variable (other : OtherInst) (depth : Nat)

/-! The cases of INVOKE, behind its keyword, and of LANDINGPAD and RESUME are `invoke` and `pad`. -/

section Cases
variable (invoke : Nat → Nat → F Unit) (pad : F Unit)

/-- Behind `%x =`. -/
def parseAssigned (block dest : Nat) : F Unit := do
  let op ← ofP (do return (← curTok).kind)
  ofP next
  ofP skipAttrs
  if op = .tokCall then parseCall depth block dest
  else if op = .tokInvoke then invoke block dest
  else if op = .tokLandingpad then pad
  else otherInst other (some dest) op block

def parseVoid (block : Nat) : F Unit := do
  let op ← ofP (do return (← curTok).kind)
  if op = .tokBr then
    ofP next
    parseBr depth block
  else if op = .tokCall then
    ofP next
    parseCall depth block 0
  else if op = .tokInvoke then
    ofP next
    invoke block 0
  else if op = .tokLandingpad ∨ op = .tokResume then pad
  else otherInst other none op block

/-- A name in front of `=` is assigned. One in front of another token comes back, but the token
behind it does not. -/
def instructionWith (block : Nat) : F Unit := do
  let t ← ofP curTok
  if t.kind = .tokLocalId then
    ofP next
    if ← ofP (accept .tokEquals) then
      let dest ← ofP (resolveVreg (tokNameView t))
      parseAssigned other depth invoke pad block dest
    else
      ofP next
      ofP (modify fun p => { p with toks := t :: p.toks })
      ofP (reportError (.unexpectedInBlock t.kind))
  else parseVoid other depth invoke pad block

end Cases

def parseInstruction (block : Nat) : F Unit :=
  instructionWith other depth (parseInvoke depth) (ofP skipToNewline) block

/-- `resolve_block_ptr_n`: the place of the block. -/
def resolveBlockPtr (name : CStr) : F Nat := do
  let id ← resolveBlock name
  return (← get).func.blocks.findIdx fun b => b.id == id

def isLabelKind : TokKind → Bool
  | .tokLocalId | .tokStringLit | .tokIntLit => true
  | _ => false

/-- The name of the label in front. -/
def labelAhead : List Token → Option CStr
  | t :: c :: _ => if isLabelKind t.kind ∧ c.kind = .tokColon then some (tokNameView t) else none
  | _ => none

def isMetadata (t : Token) : Bool := t.kind == .tokMetadataId || t.kind == .tokExclaim

/-- Metadata behind a comma. -/
def metadataLoop : Nat → P Unit
  | 0 => undefined
  | fuel + 1 => fun p =>
    match p.toks with
    | c :: m :: rest =>
      if c.kind = .tokComma ∧ isMetadata m then
        metadataLoop fuel { p with toks := (m :: rest).dropWhile isMetadata }
      else some ((), p)
    | _ => some ((), p)

def skipMetadata : P Unit := withTokenFuel metadataLoop

/-- One round of the loop over a body: a label, or an instruction of the current block. -/
def bodyStep (instruction : Nat → F Unit) (cur : Option Nat) : F (Option Nat) := do
  match labelAhead (← get).parser.toks with
  | some name =>
    ofP next
    ofP next
    let block ← resolveBlockPtr name
    return some block
  | none =>
    let block ← match cur with
      | some block => pure block
      | none => resolveBlockPtr entryName
    instruction block
    ofP skipMetadata
    return some block

/-- The loop ends at the closing brace, at the end of the text or at an error. -/
def bodyEnds (p : Parser) : Bool :=
  p.cur.kind == .tokRbrace || p.cur.kind == .tokEof || p.error.isSome

def bodyLoop (instruction : Nat → F Unit) : Nat → Option Nat → F Unit
  | 0, _ => fun _ => none
  | fuel + 1, cur => do
    if bodyEnds (← get).parser then pure ()
    else
      let cur ← bodyStep instruction cur
      bodyLoop instruction fuel cur

/-- The body of a function with the instructions that `instruction` reads. -/
def functionBody (instruction : Nat → F Unit) (fuel : Nat) : F Unit := do
  ofP (expect .tokLbrace)
  bodyLoop instruction fuel none
  ofP (expect .tokRbrace)

/-- `parse_function_body` behind the registration of the parameters. -/
def parseFunctionBody (fuel : Nat) : F Unit := functionBody (parseInstruction other depth) fuel

end Body

end Liric.Source.Ll
