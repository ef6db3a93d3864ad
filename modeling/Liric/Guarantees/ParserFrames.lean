import Liric.Lib.StateTriple
import Liric.Source.Ll.Parser

/-!
# What the parser of types and operands does to its state

A relation that holds over each assignment of the parser holds from the state in front of a type
or an operand to the state behind it.
-/
namespace Liric.Guarantees.ParserFrames
open Lib Source.Ir Source.Ll List

/-- The relation holds over each assignment that reading a type makes. -/
class TypeSteps (R : Parser → Parser → Prop) : Prop where
  refl : ∀ p, R p p
  trans : ∀ p q r, R p q → R q r → R p r
  toks : ∀ p, R p { p with toks := p.toks.tail }
  error : ∀ p e, R p { p with error := e }
  alloc : ∀ p n, R p { p with nextAddr := n }
  types : ∀ p m, R p { p with typeMap := m }

/-- And over those that reading an operand makes. -/
class OperandSteps (R : Parser → Parser → Prop) : Prop extends TypeSteps R where
  vregs : ∀ p id names numbers,
    R p { p with nextVreg := id, vregMap := names, vregNumeric := numbers }
  vregTypes : ∀ p m, R p { p with vregTypes := m }
  symbols : ∀ p s, R p { p with symbols := s }
  globals : ∀ p m, R p { p with globalMap := m }

variable {R : Parser → Parser → Prop} {α β : Type}

instance frame_undefined : Frame R (undefined : P α) := by
  constructor
  intro s a s' h
  cases h

instance frame_withTokenFuel {loop : Nat → P α} [h : ∀ fuel, Frame R (loop fuel)] :
    Frame R (withTokenFuel loop) :=
  ⟨fun s a s' hrun => (h _).run s a s' hrun⟩

/-- A step whose result is known. -/
theorem frame_step {x : P α} {f : Parser → α × Parser} (hx : ∀ p, x p = some (f p))
    (hf : ∀ p, R p (f p).2) : Frame R x := by
  constructor
  intro s a s' h
  rw [hx s] at h
  have hs : f s = (a, s') := Option.some.inj h
  have hrel := hf s
  rwa [hs] at hrel

section Types
variable [h : TypeSteps R]

instance frame_pure (a : α) : Frame R (pure a : P α) := Frame.pure h.refl a

instance frame_bind {x : P α} {f : α → P β} [hx : Frame R x] [hf : ∀ a, Frame R (f a)] :
    Frame R (x >>= f) := Frame.bind h.trans hx hf

theorem frame_seq {x : P α} {f : α → P β} (hx : Frame R x) (hf : ∀ a, Frame R (f a)) :
    Frame R (x >>= f) := frame_bind

instance frame_get : Frame R (get : P Parser) := frame_step (fun _ => rfl) h.refl

instance frame_curTok : Frame R curTok := frame_step (fun _ => rfl) h.refl

instance frame_check (kind : TokKind) : Frame R (check kind) := frame_step (fun _ => rfl) h.refl

instance frame_next : Frame R next := frame_step (fun _ => rfl) h.toks

instance frame_reportError (e : ParseError) : Frame R (reportError e) :=
  frame_step (fun _ => rfl) fun p => h.error p _

instance frame_accept (kind : TokKind) : Frame R (accept kind) := by
  constructor
  intro s a s' hrun
  unfold accept at hrun
  split at hrun
  · cases hrun
    exact h.toks s
  · cases hrun
    exact h.refl s

instance frame_expect (kind : TokKind) : Frame R (expect kind) := by
  unfold expect
  infer_instance

instance frame_expectIf (wanted : Bool) (kind : TokKind) : Frame R (expectIf wanted kind) := by
  unfold expectIf
  infer_instance

instance frame_allocType (mk : Nat → LrType) : Frame R (allocType mk) :=
  frame_step (fun _ => rfl) fun p => h.alloc p _

instance frame_resolveType (name : CStr) : Frame R (resolveType name) :=
  frame_step (fun _ => rfl) h.refl

instance frame_resolveOrCreateForwardType (name : CStr) :
    Frame R (resolveOrCreateForwardType name) := by
  have htypes : ∀ (type : LrType) (m : Parser → List TypeMapEntry),
      Frame R (fun p => some (type, { p with typeMap := m p }) : P LrType) :=
    fun _ _ => frame_step (fun _ => rfl) fun p => h.types p _
  refine frame_seq (frame_resolveType name) fun known => ?_
  cases known <;> dsimp only <;> infer_instance

instance frame_pushBounded (xs : List LrType) (x : LrType) : Frame R (pushBounded xs x) := by
  unfold pushBounded
  infer_instance

variable {elem : P LrType} [Frame R elem]

instance frame_fieldsLoop (fuel : Nat) (fields : List LrType) :
    Frame R (fieldsLoop elem fuel fields) := by
  induction fuel generalizing fields with
  | zero => exact frame_undefined
  | succ fuel ih =>
    unfold fieldsLoop
    infer_instance

instance frame_parseFields : Frame R (parseFields elem) := by
  unfold parseFields
  infer_instance

instance frame_parseCounted (closing : TokKind) (mk : Nat → LrType → BitVec 64 → LrType) :
    Frame R (parseCounted elem closing mk) := by
  unfold parseCounted
  infer_instance

instance frame_paramsLoop (fuel : Nat) (params : List LrType) :
    Frame R (paramsLoop elem fuel params) := by
  induction fuel generalizing params with
  | zero => exact frame_undefined
  | succ fuel ih =>
    unfold paramsLoop
    infer_instance

instance frame_parseParams : Frame R (parseParams elem) := by
  unfold parseParams
  infer_instance

instance frame_suffixLoop (fuel : Nat) (ty : LrType) : Frame R (suffixLoop elem fuel ty) := by
  induction fuel generalizing ty with
  | zero => exact frame_undefined
  | succ fuel ih =>
    simp only [suffixLoop]
    infer_instance

instance frame_parseStruct (packed : Bool) : Frame R (parseStruct elem packed) := by
  unfold parseStruct
  infer_instance

instance frame_parseTypeHead : Frame R (parseTypeHead elem) := by
  refine frame_seq frame_curTok fun t => frame_seq frame_get fun p => ?_
  cases builtinType p.builtin t.kind <;> infer_instance

omit [Frame R elem] in
instance frame_parseType (depth : Nat) : Frame R (parseType depth) := by
  induction depth with
  | zero => exact frame_undefined
  | succ depth ih =>
    unfold parseType
    infer_instance

instance frame_skipBalancedLoop (opening closing : TokKind) (fuel depth : Nat) :
    Frame R (skipBalancedLoop opening closing fuel depth) := by
  induction fuel generalizing depth with
  | zero => exact frame_undefined
  | succ fuel ih =>
    unfold skipBalancedLoop
    infer_instance

instance frame_skipBalanced (opening closing : TokKind) : Frame R (skipBalanced opening closing) := by
  unfold skipBalanced
  infer_instance

instance : Frame R skipBalancedParens := frame_skipBalanced _ _
instance : Frame R skipBalancedBraces := frame_skipBalanced _ _
instance : Frame R skipBalancedBrackets := frame_skipBalanced _ _

instance frame_skipAttrPayload : Frame R skipAttrPayload := by
  unfold skipAttrPayload
  infer_instance

instance frame_skipAttrsLoop (fuel : Nat) : Frame R (skipAttrsLoop fuel) := by
  induction fuel with
  | zero => exact frame_undefined
  | succ fuel ih =>
    unfold skipAttrsLoop
    infer_instance

instance frame_skipAttrs : Frame R skipAttrs := frame_withTokenFuel

end Types

set_option synthInstance.maxSize 1024

section Operands
variable [h : OperandSteps R]

instance frame_newVreg (name : CStr) : Frame R (newVreg name) :=
  frame_step (fun _ => rfl) fun p => h.vregs p _ _ _

instance frame_resolveVreg (name : CStr) : Frame R (resolveVreg name) := by
  unfold resolveVreg
  cases parseU32Decimal name with
  | some n =>
    refine frame_seq frame_get fun p => ?_
    cases p.vregNumeric.lookup n <;> infer_instance
  | none =>
    refine frame_seq frame_get fun p => ?_
    cases p.vregMap.lookup name <;> infer_instance

instance frame_bindVregType (vreg : Nat) (expected : LrType) (name : CStr) :
    Frame R (bindVregType vreg expected name) := by
  have htypes : ∀ m : Parser → List (Nat × LrType),
      Frame R (modify fun p => { p with vregTypes := m p } : P PUnit) :=
    fun m => frame_step (fun _ => rfl) fun p => h.vregTypes p _
  refine frame_seq frame_get fun p => ?_
  cases p.vregTypes.lookup vreg <;> infer_instance

instance frame_internSymbol (name : CStr) : Frame R (internSymbol name) := by
  constructor
  intro s a s' hrun
  unfold internSymbol at hrun
  split at hrun
  · cases hrun
    exact h.refl s
  · obtain ⟨⟨symbols, id⟩, -, hdone⟩ := Option.map_eq_some_iff.1 hrun
    cases hdone
    exact h.symbols s symbols

instance frame_resolveGlobal (name : CStr) : Frame R (resolveGlobal name) := by
  have hglobals : ∀ m : Parser → List (CStr × Nat),
      Frame R (modify fun p => { p with globalMap := m p } : P PUnit) :=
    fun m => frame_step (fun _ => rfl) fun p => h.globals p _
  unfold resolveGlobal
  infer_instance

instance frame_liftOption (x : Option α) : Frame R (Source.Ll.liftOption x) := by
  constructor
  intro s a s' hrun
  obtain ⟨b, -, hdone⟩ := Option.map_eq_some_iff.1 hrun
  cases hdone
  exact h.refl s

instance frame_tokenOperand (t : Token) (type : LrType) : Frame R (tokenOperand t type) := by
  unfold tokenOperand
  split <;> infer_instance

variable {parseTy : P LrType} [Frame R parseTy] {typed : P LrOperand} [Frame R typed]

instance frame_elemsLoop (closing : TokKind) (fuel : Nat) (ops : List LrOperand) :
    Frame R (elemsLoop typed closing fuel ops) := by
  induction fuel generalizing ops with
  | zero => exact frame_undefined
  | succ fuel ih =>
    unfold elemsLoop
    infer_instance

instance frame_parseStructConstantFields (type : LrType) :
    Frame R (parseStructConstantFields typed type) := by
  unfold parseStructConstantFields
  cases type <;> dsimp only <;> infer_instance

instance frame_parseVectorConstant (type elem : LrType) (count : BitVec 64) :
    Frame R (parseVectorConstant typed type elem count) := by
  refine frame_seq inferInstance fun ops => frame_seq (frame_expect _) fun _ => ?_
  split
  · refine frame_seq (frame_liftOption _) fun buf => ?_
    cases buf <;> infer_instance
  · infer_instance

instance frame_parseAggregateConstantOperand (type : LrType) :
    Frame R (parseAggregateConstantOperand typed type) := by
  unfold parseAggregateConstantOperand
  cases type <;> dsimp only <;> infer_instance

instance frame_constGepLoop (fuel : Nat) (g : ConstGep) : Frame R (constGepLoop typed fuel g) := by
  induction fuel generalizing g with
  | zero => exact frame_undefined
  | succ fuel ih =>
    unfold constGepLoop
    infer_instance

instance frame_angleOperand (type : LrType) : Frame R (angleOperand typed type) := by
  unfold angleOperand
  split <;> infer_instance

instance frame_constGepOperand (resultTy : LrType) :
    Frame R (constGepOperand parseTy typed resultTy) := by
  unfold constGepOperand
  infer_instance

instance frame_castOperand (type : LrType) : Frame R (castOperand parseTy typed type) := by
  unfold castOperand
  infer_instance

instance frame_operandWith (type : LrType) : Frame R (operandWith parseTy typed type) := by
  unfold operandWith
  infer_instance

omit [Frame R parseTy] [Frame R typed]

instance frame_parseTypedOperand (depth : Nat) : Frame R (parseTypedOperand depth) := by
  induction depth with
  | zero => exact frame_undefined
  | succ depth ih =>
    unfold parseTypedOperand
    infer_instance

instance frame_parseOperand (depth : Nat) (type : LrType) : Frame R (parseOperand depth type) := by
  unfold parseOperand
  infer_instance

end Operands

/-- Tokens are only taken from the front. -/
def Forward (p q : Parser) : Prop := q.toks <:+ p.toks

instance forward_steps : OperandSteps Forward where
  refl _ := suffix_refl _
  trans _ _ _ hq hr := List.IsSuffix.trans hr hq
  toks _ := tail_suffix _
  error _ _ := suffix_refl _
  alloc _ _ := suffix_refl _
  types _ _ := suffix_refl _
  vregs _ _ _ _ := suffix_refl _
  vregTypes _ _ := suffix_refl _
  symbols _ _ := suffix_refl _
  globals _ _ := suffix_refl _

end Liric.Guarantees.ParserFrames
