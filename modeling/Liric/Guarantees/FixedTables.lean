import Liric.Guarantees.TypeTexts
import Liric.Lib.ListScan
import Liric.Source.Ll.Functions

/-!
# Fixed arrays of the text parser

Fields of struct types, parameters of function types and of functions are read into arrays of 256
entries, the fields of struct constants into one of 16. What a text has to be like for no index to
be outside its array.
-/
namespace Liric.Guarantees.FixedTables
open Lib Lib.Scan ConstantAddresses TypeTexts Source.Ir Source.Ll List
open Source.LlGlobals (isLinkage isLocalLinkage)

variable {kind : TokKind} {t : Scan Token} {fuel : Nat} {fields : List LrType}

section Scans

/-- A token of the kind. -/
def isKind (kind : TokKind) (t : Token) : Bool := t.kind == kind

/-- A token of this kind may be in front. -/
def opt (kind : TokKind) : Scan Token := onTok (isKind kind) skip skip

def isBuiltin (t : Token) : Bool := (builtinType (lrModuleCreateTypes 0) t.kind).isSome

variable (elem : Scan Token)

/-- Types with commas between them, up to `closing`. -/
def fieldsScan : Scan Token :=
  peek (isKind .tokRbrace) skip
    (elem.seq (withFuel fun fuel => more (isKind .tokComma) (fun _ => false) elem fuel 1))

def paramsScan : Scan Token :=
  peek (isKind .tokRparen) skip (onTok (isKind .tokDotdotdot) skip
    (elem.seq (withFuel fun fuel =>
      more (isKind .tokComma) (isKind .tokDotdotdot) elem fuel 1)))

/-- A count, an element and what closes it. -/
def countedScan (closing : TokKind) : Scan Token :=
  (opt .tokIntLit).seq ((opt .tokX).seq (elem.seq ((opt closing).seq skip)))

def structScan (packed : Bool) : Scan Token :=
  (fieldsScan elem).seq ((opt .tokRbrace).seq
    ((if packed then opt .tokRangle else skip).seq skip))

def headScan : Scan Token :=
  onTok isBuiltin skip (onTok (isKind .tokLocalId) skip
    (onTok (isKind .tokLbracket) (countedScan elem .tokRbracket)
      (onTok (isKind .tokLbrace) (structScan elem false)
        (onTok (isKind .tokLangle)
          (peek (isKind .tokIntLit) (countedScan elem .tokRangle)
            ((opt .tokLbrace).seq (structScan elem true)))
          skip))))

/-- Stars and parameter lists behind a type. -/
def suffixScan : Nat → Scan Token
  | 0 => skip
  | fuel + 1 =>
    onTok (isKind .tokStar) (suffixScan fuel)
      (onTok (isKind .tokLparen)
        ((paramsScan elem).seq ((opt .tokRparen).seq (skip.seq (suffixScan fuel)))) skip)

end Scans

/-- The types that a text starts with. -/
def typeScan : Nat → Scan Token
  | 0 => skip
  | depth + 1 => (headScan (typeScan depth)).seq (withFuel (suffixScan (typeScan depth)))

abbrev Follows {α : Type} (n : Nat) (x : P α) (s : Scan Token) : Prop :=
  Agrees Parser.toks localArrayCap n x s

section Steps
variable {α : Type} {n : Nat}

theorem misses_cur {p : Parser} (hkind : kind ≠ .tokEof) (h : Agrees.Misses (isKind kind) p.toks) :
    p.cur.kind ≠ kind := by
  unfold Parser.cur
  cases htoks : p.toks with
  | nil => exact hkind.symm
  | cons t rest =>
    have ht : isKind kind t = false := h t (by rw [htoks]; rfl)
    simpa [isKind] using ht

abbrev FollowsAt (p : Parser) (x : P α) (s : Scan Token) : Prop :=
  AgreesAt Parser.toks localArrayCap p x s

/-- The current token is taken if it is one with `c`, which the end of the text is not. -/
theorem at_next {p : Parser} {c : Token → Bool} {Q : Prop} [Decidable Q] {x y : P α}
    {s : Scan Token} (hp : p.toks.length < n + 1) (hc : c { kind := .tokEof } = false)
    (hQ : Q ↔ c p.cur = true) (hx : Follows n x s) (hy : FollowsAt p y t) :
    FollowsAt p (if Q then next >>= fun _ => x else y) (onTok c s t) := by
  cases htoks : p.toks with
  | nil =>
    have hother : ¬ Q := by
      rw [hQ, Parser.cur, htoks]
      exact Bool.eq_false_iff.1 hc
    rw [if_neg hother]
    exact hy.congr rfl (by rw [htoks]; rfl)
  | cons tok rest =>
    let q : Parser := { p with toks := rest }
    rw [cur_kind htoks] at hQ
    by_cases htok : c tok = true
    · rw [if_pos (hQ.2 htok)]
      have hrun : (next >>= fun _ => x) p = x q := run_bind (next_run htoks)
      exact Agrees.behind hp htoks hrun (by simp [onTok, htok]) hx
    · rw [if_neg fun h => htok (hQ.1 h)]
      exact hy.congr rfl (by simp [htoks, onTok, htok])

theorem follows_zero {x : P α} {s : Scan Token} : Follows 0 x s := fun _ hp => absurd hp (Nat.not_lt_zero _)

theorem at_kind {p : Parser} {x y : P α} {s : Scan Token} (hkind : kind ≠ .tokEof)
    (hp : p.toks.length < n + 1) (hx : Follows n x s) (hy : FollowsAt p y t) :
    FollowsAt p (if p.cur.kind = kind then next >>= fun _ => x else y) (onTok (isKind kind) s t) :=
  at_next hp (by simpa [isKind] using hkind.symm) (by simp [isKind]) hx hy

theorem accept_bind (kind : TokKind) (f : Bool → P α) (p : Parser) : (accept kind >>= f) p =
    (if p.cur.kind = kind then next >>= fun _ => f true else f false) p := by
  by_cases h : p.cur.kind = kind
  · rw [if_pos h]
    exact run_bind (if_pos h)
  · rw [if_neg h]
    exact run_bind (if_neg h)

theorem at_accept {p : Parser} (hkind : kind ≠ .tokEof) {f : Bool → P α} {s : Scan Token}
    (hp : p.toks.length < n + 1) (hs : Follows n (f true) s) (ht : FollowsAt p (f false) t) :
    FollowsAt p (accept kind >>= f) (onTok (isKind kind) s t) :=
  (at_kind hkind hp hs ht).congr (accept_bind kind f p) rfl

theorem follows_accept (hkind : kind ≠ .tokEof) {f : Bool → P α} {s : Scan Token}
    (hs : Follows n (f true) s) (ht : Follows (n + 1) (f false) t) :
    Follows (n + 1) (accept kind >>= f) (onTok (isKind kind) s t) :=
  fun p hp => at_accept hkind hp hs (ht p hp)

theorem follows_check (hkind : kind ≠ .tokEof) {s : Scan Token}
    (hs : Follows n (f true) s) (ht : Follows n (f false) t) :
    Follows n (check kind >>= f) (peek (isKind kind) s t) := by
  apply Agrees.peek _ _ hs ht
  · intro p tok rest htoks htok
    have hhit : check kind p = some (true, p) := by
      rw [check, cur_kind htoks]
      exact congrArg (fun b => some (b, p)) htok
    exact run_bind hhit
  · intro p hmiss
    have hother : check kind p = some (false, p) := by
      rw [check, show (p.cur.kind == kind) = false by simpa using misses_cur hkind hmiss]
    exact run_bind hother

theorem follows_allocType (mk : Nat → LrType) : Follows n (allocType mk) skip :=
  Agrees.skip fun _ => ⟨_, _, rfl, rfl⟩

theorem follows_expect (hkind : kind ≠ .tokEof) : Follows n (expect kind) (opt kind) := by
  cases n with
  | zero => exact follows_zero
  | succ n =>
    apply follows_accept hkind (Agrees.pure ())
    exact Agrees.skip fun _ => ⟨(), _, rfl, rfl⟩

theorem follows_expectIf (hkind : kind ≠ .tokEof) (wanted : Bool) :
    Follows n (expectIf wanted kind) (if wanted then opt kind else skip) := by
  cases wanted with
  | false => exact Agrees.pure ()
  | true => exact follows_expect hkind

theorem follows_withTokenFuel {loop : Nat → P α} {s : Nat → Scan Token}
    (h : ∀ fuel ≤ n, Follows fuel (loop fuel) (s fuel)) :
    Follows n (withTokenFuel loop) (withFuel s) :=
  Agrees.withFuel h

theorem lt_more (sep stop : Token → Bool) (elem : Scan Token) (fuel len : Nat) (text : List Token) :
    len < (more sep stop elem fuel (len + 1) text).2 :=
  le_more sep stop elem fuel (len + 1) text

end Steps

variable {α : Type} {closing : TokKind}

section Types
variable {elem : P LrType} {s : Scan Token} {n : Nat}

/-- An element of a list goes into the array of the list, or the list is too long. -/
theorem follows_push {β : Type} {push : List β → β → P (List β)} (hpush : ∀ xs x, push xs x =
      if xs.length < localArrayCap then pure (xs ++ [x]) else undefined) {elem : P β} {xs : List β}
    {f : List β → P α} (helem : Follows n elem s) (ht : ∀ text, xs.length < (t text).2)
    (hf : ∀ x, (xs ++ [x]).length ≤ localArrayCap → Follows n (f (xs ++ [x])) t) :
    Follows n (elem >>= fun x => push xs x >>= f) (s.seq t) := by
  apply Agrees.element helem ht
  · intro hlen x p hp
    have hrun : push xs x p = some (xs ++ [x], p) := by
      rw [hpush, if_pos hlen]
      rfl
    have hlen' : (xs ++ [x]).length ≤ localArrayCap := by
      rw [length_append]
      exact hlen
    exact (hf x hlen' p hp).congr (run_bind hrun) rfl
  · intro hlen x p
    have hrun : push xs x p = none := by
      rw [hpush, if_neg hlen]
      rfl
    simp [Bind.bind, StateT.bind, hrun]

section
variable (helem : Follows n elem s)
include helem

theorem follows_fieldsLoop (hfuel : fuel ≤ n + 1) (hlen : fields.length ≤ localArrayCap) :
    Follows fuel (fieldsLoop elem fuel fields)
      (more (isKind .tokComma) (fun _ => false) s fuel fields.length) := by
  induction fuel generalizing fields with
  | zero => exact follows_zero
  | succ fuel ih =>
    rw [more, onTok_never]
    apply follows_accept (by decide) _ (Agrees.count fields hlen)
    apply follows_push (fun _ _ => rfl) (helem.mono (Nat.le_of_succ_le_succ hfuel))
      (lt_more _ _ s fuel fields.length)
    intro type hlen
    have hrest := ih (Nat.le_of_succ_le hfuel) hlen
    rwa [length_append] at hrest

theorem follows_paramsLoop (hfuel : fuel ≤ n + 1) {params : List LrType}
    (hlen : params.length ≤ localArrayCap) :
    Follows fuel (paramsLoop elem fuel params)
      (more (isKind .tokComma) (isKind .tokDotdotdot) s fuel params.length) := by
  induction fuel generalizing params with
  | zero => exact follows_zero
  | succ fuel ih =>
    apply follows_accept (by decide) _ (Agrees.count (params, false) hlen)
    cases fuel with
    | zero => exact follows_zero
    | succ fuel =>
      apply follows_accept (by decide) (Agrees.count (params, true) hlen)
      apply follows_push (fun _ _ => rfl) (helem.mono (Nat.le_of_succ_le_succ hfuel))
        (lt_more _ _ s (fuel + 1) params.length)
      intro type hlen
      have hrest := ih (Nat.le_of_succ_le hfuel) hlen
      rwa [length_append] at hrest

theorem follows_parseFields : Follows n (parseFields elem) (fieldsScan s) := by
  apply follows_check (by decide) (Agrees.pure [])
  apply Agrees.bind helem
  intro first
  apply follows_withTokenFuel
  intro fuel hfuel
  have hone : [first].length ≤ localArrayCap := by simp [localArrayCap]
  exact follows_fieldsLoop helem (Nat.le_succ_of_le hfuel) hone

theorem follows_parseParams : Follows n (parseParams elem) (paramsScan s) := by
  apply follows_check (by decide) (Agrees.pure ([], false))
  cases n with
  | zero => exact follows_zero
  | succ n =>
    apply follows_accept (by decide) (Agrees.pure ([], true))
    apply Agrees.bind helem
    intro first
    apply follows_withTokenFuel
    intro fuel hfuel
    have hone : [first].length ≤ localArrayCap := by simp [localArrayCap]
    exact follows_paramsLoop helem (Nat.le_succ_of_le hfuel) hone

theorem follows_parseCounted (hclosing : closing ≠ .tokEof)
    (mk : Nat → LrType → BitVec 64 → LrType) :
    Follows n (parseCounted elem closing mk) (countedScan s closing) := by
  -- the count is that of the token in front, whatever it is
  have hcount : ∀ count, Follows n (expect .tokIntLit >>= fun _ => expect .tokX >>= fun _ =>
      elem >>= fun ty => expect closing >>= fun _ => allocType fun addr => mk addr ty count)
      (countedScan s closing) := by
    intro count
    apply Agrees.bind (follows_expect (by decide))
    intro _
    apply Agrees.bind (follows_expect (by decide))
    intro _
    apply Agrees.bind helem
    intro ty
    apply Agrees.bind (follows_expect hclosing)
    intro _
    exact follows_allocType _
  exact fun p hp => hcount p.cur.intVal p hp

theorem follows_parseStruct (packed : Bool) :
    Follows n (parseStruct elem packed) (structScan s packed) := by
  apply Agrees.bind (follows_parseFields helem)
  intro fields
  apply Agrees.bind (follows_expect (by decide))
  intro _
  apply Agrees.bind (follows_expectIf (by decide) packed)
  intro _
  exact follows_allocType _

theorem follows_suffixLoop (hfuel : fuel ≤ n + 1) (ty : LrType) :
    Follows fuel (suffixLoop elem fuel ty) (suffixScan s fuel) := by
  induction fuel generalizing ty with
  | zero => exact follows_zero
  | succ fuel ih =>
    have hrest := ih (Nat.le_of_succ_le hfuel)
    have hparams := follows_parseParams (helem.mono (Nat.le_of_succ_le_succ hfuel))
    apply follows_accept (by decide)
    · exact fun p hp => hrest p.builtin.typePtr p hp
    · apply follows_accept (by decide) _ (Agrees.pure ty)
      apply Agrees.bind hparams
      intro params
      apply Agrees.bind (follows_expect (by decide))
      intro _
      exact Agrees.bind (follows_allocType _) hrest

end

/-- Only the kind of a token says whether it is a type. -/
theorem builtinType_isSome (b b' : BuiltinTypes) (kind : TokKind) :
    (builtinType b kind).isSome = (builtinType b' kind).isSome := by
  cases kind <;> rfl

theorem follows_name (name : CStr) : Follows n (resolveOrCreateForwardType name) skip := by
  apply Agrees.skip
  intro p
  have hresolve : resolveType name p = some (_, p) := rfl
  rw [resolveOrCreateForwardType, run_bind hresolve]
  cases (p.typeMap.find? fun e => e.name == name).map TypeMapEntry.type with
  | some type => exact ⟨type, p, rfl, rfl⟩
  | none => exact ⟨_, _, rfl, rfl⟩

theorem follows_angle (helem : Follows n elem s) :
    Follows n (check .tokIntLit >>= fun counted =>
      if counted then parseCounted elem .tokRangle .vector
      else expect .tokLbrace >>= fun _ => parseStruct elem true)
      (peek (isKind .tokIntLit) (countedScan s .tokRangle)
        ((opt .tokLbrace).seq (structScan s true))) := by
  apply follows_check (by decide)
  · exact follows_parseCounted helem (by decide) _
  · apply Agrees.bind (follows_expect (by decide))
    intro _
    exact follows_parseStruct helem true

variable {rest : List Token}

/-- The current token says how a type goes on. -/
theorem follows_parseTypeHead (helem : Follows n elem s) :
    Follows (n + 1) (parseTypeHead elem) (headScan s) := by
  intro p hp
  have hrun : parseTypeHead elem p =
      (if (builtinType p.builtin p.cur.kind).isSome then
        next >>= fun _ => pure ((builtinType p.builtin p.cur.kind).getD p.builtin.typeVoid)
      else if p.cur.kind = .tokLocalId then
        next >>= fun _ => resolveOrCreateForwardType (tokNameView p.cur)
      else if p.cur.kind = .tokLbracket then
        next >>= fun _ => parseCounted elem .tokRbracket .array
      else if p.cur.kind = .tokLbrace then next >>= fun _ => parseStruct elem false
      else if p.cur.kind = .tokLangle then
        next >>= fun _ => check .tokIntLit >>= fun counted =>
          if counted then parseCounted elem .tokRangle .vector
          else expect .tokLbrace >>= fun _ => parseStruct elem true
      else reportError (.expectedType p.cur.kind) >>= fun _ => get >>= fun q : Parser =>
        pure q.builtin.typeVoid) p := by
    have hcur : curTok p = some (p.cur, p) := rfl
    rw [parseTypeHead, run_bind hcur, run_bind (get_run p)]
    cases builtinType p.builtin p.cur.kind <;> rfl
  have hbuiltin : (builtinType p.builtin p.cur.kind).isSome = true ↔ isBuiltin p.cur = true := by
    rw [isBuiltin, builtinType_isSome (lrModuleCreateTypes 0) p.builtin]
  have herror : FollowsAt p (reportError (.expectedType p.cur.kind) >>= fun _ => get >>=
      fun q : Parser => pure q.builtin.typeVoid) skip := AgreesAt.skip ⟨_, _, rfl, rfl⟩
  refine AgreesAt.congr (t := headScan s) ?_ hrun rfl
  exact at_next hp rfl hbuiltin (Agrees.pure _)
    (at_kind (by decide) hp (follows_name _)
      (at_kind (by decide) hp (follows_parseCounted helem (by decide) _)
        (at_kind (by decide) hp (follows_parseStruct helem false)
          (at_kind (by decide) hp (follows_angle helem) herror))))

end Types

theorem follows_parseType (depth : Nat) : Follows depth (parseType depth) (typeScan depth) := by
  induction depth with
  | zero => exact follows_zero
  | succ depth ih =>
    apply Agrees.bind (follows_parseTypeHead ih)
    intro ty
    apply follows_withTokenFuel
    intro fuel hfuel
    exact follows_suffixLoop ih hfuel ty

/-- Tokens up to where `depth` brackets are closed. -/
def balancedScan (opening closing : TokKind) : Nat → Nat → Scan Token
  | 0, _ | _ + 1, 0 => skip
  | fuel + 1, depth + 1 =>
    peek (isKind .tokEof) skip
      (onTok (isKind opening) (balancedScan opening closing fuel (depth + 2))
        (onTok (isKind closing) (balancedScan opening closing fuel depth)
          (onTok (fun _ => true) (balancedScan opening closing fuel (depth + 1)) skip)))

def parensScan : Scan Token :=
  (opt .tokLparen).seq
    ((withFuel fun fuel => balancedScan .tokLparen .tokRparen fuel 1).seq skip)

def attrsLoopScan : Nat → Scan Token
  | 0 => skip
  | fuel + 1 =>
    onTok (fun t => isAttr t.kind) (attrsLoopScan fuel)
      (onTok (isKind .tokAlign)
        (onTok (isKind .tokIntLit) (attrsLoopScan fuel) (attrsLoopScan fuel))
        (onTok isBareIdentifier
          ((peek (isKind .tokLparen) parensScan skip).seq (attrsLoopScan fuel)) skip))

def attrsScan : Scan Token := withFuel attrsLoopScan

section Attributes
variable {n : Nat}

theorem skipBalancedLoop_succ (opening closing : TokKind) (fuel depth : Nat) :
    skipBalancedLoop opening closing (fuel + 1) (depth + 1) =
      (check .tokEof >>= fun ended => if ended then pure (depth + 1) else
        accept opening >>= fun opened =>
          if opened then skipBalancedLoop opening closing fuel (depth + 2)
          else accept closing >>= fun closed =>
            if closed then skipBalancedLoop opening closing fuel depth
            else next >>= fun _ => skipBalancedLoop opening closing fuel (depth + 1)) := by
  rw [skipBalancedLoop]
  simp only [Nat.succ_ne_zero, false_or, Nat.add_sub_cancel]

theorem follows_balanced {opening closing : TokKind} (hopening : opening ≠ .tokEof)
    (hclosing : closing ≠ .tokEof) (fuel depth : Nat) :
    Follows fuel (skipBalancedLoop opening closing fuel depth)
      (balancedScan opening closing fuel depth) := by
  induction fuel generalizing depth with
  | zero => exact follows_zero
  | succ fuel ih =>
    intro p hp
    cases depth with
    | zero => exact AgreesAt.skip ⟨0, p, rfl, rfl⟩
    | succ depth =>
      rw [skipBalancedLoop_succ, balancedScan]
      by_cases heof : p.cur.kind = .tokEof
      · have hrun : check .tokEof p = some (true, p) := by simp [check, heof]
        refine (AgreesAt.skip ⟨depth + 1, p, run_bind hrun, rfl⟩).congr rfl ?_
        cases htoks : p.toks with
        | nil => rfl
        | cons t rest =>
          rw [cur_kind htoks] at heof
          simp [peek, isKind, heof]
      · have hrun : check .tokEof p = some (false, p) := by simp [check, heof]
        obtain ⟨t, rest, htoks⟩ : ∃ t rest, p.toks = t :: rest := by
          cases htoks : p.toks with
          | nil => exact absurd (by rw [Parser.cur, htoks]; rfl) heof
          | cons t rest => exact ⟨t, rest, rfl⟩
        let q : Parser := { p with toks := rest }
        have hany : FollowsAt p (next >>= fun _ => skipBalancedLoop opening closing fuel (depth + 1))
            (onTok (fun _ => true) (balancedScan opening closing fuel (depth + 1)) skip) :=
          have hnext := run_bind (f := fun _ => skipBalancedLoop opening closing fuel (depth + 1))
            (next_run htoks)
          Agrees.behind (q := q) hp htoks hnext rfl (ih _)
        have hrest : FollowsAt p (accept opening >>= fun opened =>
            if opened then skipBalancedLoop opening closing fuel (depth + 2)
            else accept closing >>= fun closed =>
              if closed then skipBalancedLoop opening closing fuel depth
              else next >>= fun _ => skipBalancedLoop opening closing fuel (depth + 1)) _ :=
          at_accept hopening hp (ih _) (at_accept hclosing hp (ih _) hany)
        refine hrest.congr (run_bind hrun) ?_
        rw [cur_kind htoks] at heof
        simp [htoks, peek, isKind, heof]

theorem follows_parens : Follows n skipBalancedParens parensScan := by
  apply Agrees.bind (follows_expect (by decide))
  intro _
  have hloop : Follows n (withTokenFuel fun fuel => skipBalancedLoop .tokLparen .tokRparen fuel 1)
      (withFuel fun fuel => balancedScan .tokLparen .tokRparen fuel 1) :=
    follows_withTokenFuel fun fuel _ => follows_balanced (by decide) (by decide) fuel 1
  apply Agrees.bind hloop
  intro depth
  apply Agrees.skip
  intro p
  by_cases h : depth ≠ 0
  · rw [if_pos h]
    exact ⟨(), _, rfl, rfl⟩
  · rw [if_neg h]
    exact ⟨(), p, rfl, rfl⟩

theorem follows_payload : Follows n skipAttrPayload (peek (isKind .tokLparen) parensScan skip) :=
  follows_check (by decide) follows_parens (Agrees.pure ())

theorem follows_attrsLoop (fuel : Nat) : Follows fuel (skipAttrsLoop fuel) (attrsLoopScan fuel) := by
  induction fuel with
  | zero => exact follows_zero
  | succ fuel ih =>
    intro p hp
    have hnumber : Follows fuel (accept .tokIntLit >>= fun _ => skipAttrsLoop fuel)
        (onTok (isKind .tokIntLit) (attrsLoopScan fuel) (attrsLoopScan fuel)) := by
      cases fuel with
      | zero => exact follows_zero
      | succ fuel => exact follows_accept (by decide) (ih.mono (Nat.le_succ _)) ih
    have hend : FollowsAt p (pure ()) skip := Agrees.pure () p hp
    exact at_next hp rfl Iff.rfl ih (at_kind (by decide) hp hnumber
      (at_next hp rfl Iff.rfl (Agrees.bind follows_payload fun _ => ih) hend))

theorem follows_attrs : Follows n skipAttrs attrsScan :=
  follows_withTokenFuel fun fuel _ => follows_attrsLoop fuel

end Attributes

def linkageScan : Nat → Scan Token
  | 0 => skip
  | fuel + 1 => onTok (fun t => isLinkage t.kind) (linkageScan fuel) skip

section Heads
variable (types : Scan Token)

def paramScan : Scan Token := types.seq (attrsScan.seq (opt .tokLocalId))

/-- The parameters of a function. -/
def functionParamsScan : Scan Token :=
  peek (isKind .tokRparen) skip (onTok (isKind .tokDotdotdot) skip
    ((paramScan types).seq (withFuel fun fuel =>
      more (isKind .tokComma) (isKind .tokDotdotdot) (attrsScan.seq (paramScan types)) fuel 1)))

def functionScan : Scan Token :=
  attrsScan.seq ((withFuel linkageScan).seq (attrsScan.seq (types.seq
    (onTok (isKind .tokGlobalId)
      ((opt .tokLparen).seq ((functionParamsScan types).seq ((opt .tokRparen).seq skip))) skip))))

variable {types} {n : Nat} {parseTy : P LrType}

theorem follows_linkageLoop (fuel : Nat) (linkageLocal : Bool) :
    Follows fuel (linkageLoop fuel linkageLocal) (linkageScan fuel) := by
  induction fuel generalizing linkageLocal with
  | zero => exact follows_zero
  | succ fuel ih =>
    exact fun p hp => at_next hp rfl Iff.rfl (ih _) (Agrees.pure linkageLocal p hp)

/-- What a token of one kind is followed by, and what another token is. -/
theorem follows_token (hkind : kind ≠ .tokEof) {f g : Token → P α} {s : Scan Token}
    (hf : ∀ tok, Follows n (f tok) s) (hg : ∀ tok, Follows n (g tok) t) :
    Follows n (curTok >>= fun tok =>
      if tok.kind = kind then next >>= fun _ => f tok else g tok) (onTok (isKind kind) s t) :=
  fun p hp => at_kind hkind (Nat.lt_succ_of_lt hp) (hf p.cur) (hg p.cur p hp)

theorem follows_parseParam (htypes : Follows n parseTy types) :
    Follows n (parseParam parseTy) (paramScan types) := by
  have hname : ∀ type, Follows n (curTok >>= fun t =>
      if t.kind = .tokLocalId then next >>= fun _ => pure (Param.mk type (some (tokNameView t)))
      else pure (Param.mk type none)) (opt .tokLocalId) := fun type =>
    follows_token (by decide) (fun _ => Agrees.pure _) fun _ => Agrees.pure _
  have hall : Follows n (parseTy >>= fun type => skipAttrs >>= fun _ => curTok >>= fun t =>
      if t.kind = .tokLocalId then next >>= fun _ => pure (Param.mk type (some (tokNameView t)))
      else pure (Param.mk type none)) (paramScan types) :=
    Agrees.bind htypes fun type => Agrees.bind follows_attrs fun _ => hname type
  simpa [parseParam, parseParamType] using hall

theorem follows_functionParamsLoop (htypes : Follows n parseTy types) (hfuel : fuel ≤ n + 1)
    {params : List Param} (hlen : params.length ≤ localArrayCap) :
    Follows fuel (functionParamsLoop parseTy fuel params)
      (more (isKind .tokComma) (isKind .tokDotdotdot) (attrsScan.seq (paramScan types)) fuel
        params.length) := by
  induction fuel generalizing params with
  | zero => exact follows_zero
  | succ fuel ih =>
    apply follows_accept (by decide) _ (Agrees.count (params, false) hlen)
    cases fuel with
    | zero => exact follows_zero
    | succ fuel =>
      apply follows_accept (by decide) (Agrees.count (params, true) hlen)
      have hparam : Follows (fuel + 1) (skipAttrs >>= fun _ => parseParam parseTy)
          (attrsScan.seq (paramScan types)) :=
        Agrees.bind follows_attrs fun _ =>
          follows_parseParam (htypes.mono (Nat.le_of_succ_le_succ hfuel))
      have hstep : ∀ xs x, pushParam xs x =
          if xs.length < localArrayCap then pure (xs ++ [x]) else undefined := fun _ _ => rfl
      have hpush := follows_push hstep hparam (f := functionParamsLoop parseTy (fuel + 1))
        (lt_more (isKind .tokComma) (isKind .tokDotdotdot) _ (fuel + 1) params.length)
        (fun param hlen => by
          have hrest := ih (Nat.le_of_succ_le hfuel) hlen
          rwa [length_append] at hrest)
      simpa using hpush

theorem follows_functionParams (htypes : Follows n parseTy types) :
    Follows n (functionParams parseTy) (functionParamsScan types) := by
  apply follows_check (by decide) (Agrees.pure ([], false))
  cases n with
  | zero => exact follows_zero
  | succ n =>
    apply follows_accept (by decide) (Agrees.pure ([], true))
    apply Agrees.bind (follows_parseParam htypes)
    intro first
    apply follows_withTokenFuel
    intro fuel hfuel
    have hone : [first].length ≤ localArrayCap := by simp [localArrayCap]
    exact follows_functionParamsLoop htypes (Nat.le_succ_of_le hfuel) hone

theorem follows_functionHead (htypes : Follows n parseTy types) :
    Follows n (functionHead parseTy) (functionScan types) := by
  apply Agrees.bind follows_attrs
  intro _
  apply Agrees.bind (follows_withTokenFuel fun fuel _ => follows_linkageLoop fuel false)
  intro linkageLocal
  apply Agrees.bind follows_attrs
  intro _
  apply Agrees.bind htypes
  intro retType
  apply follows_token (by decide)
  · intro t
    apply Agrees.bind (follows_expect (by decide))
    intro _
    apply Agrees.bind (follows_functionParams htypes)
    intro params
    apply Agrees.bind (follows_expect (by decide))
    intro _
    exact Agrees.pure _
  · intro t
    exact Agrees.skip fun p => ⟨none, _, rfl, rfl⟩

end Heads

/-- On its whole text a reader has a result where the lists fit. -/
theorem Agrees.isSome_iff {x : P α} {s : Scan Token} {p : Parser}
    (h : Follows (p.toks.length + 1) x s) : (x p).isSome ↔ (s p.toks).2 ≤ localArrayCap := by
  obtain ⟨hfits, hlong⟩ := h p (Nat.lt_succ_self _)
  constructor
  · intro hsome
    by_contra hmax
    rw [hlong hmax] at hsome
    cases hsome
  · intro hmax
    obtain ⟨a, q, hrun, -, -⟩ := hfits hmax
    rw [hrun]
    rfl

/-- The indices at which a struct constant is read to be packed. -/
def packedReads (type : LrType) (ops : List LrOperand) : List Nat :=
  match type with
  | .struct _ fields _ _ =>
    if ops.length = fields.length ∧ lrTypeSize type ≤ 8 then range fields.length else []
  | _ => []

section Constants
variable {typed : P LrOperand} {type : LrType} {p q : Parser} {ops : List LrOperand}

end Constants

theorem isSome_mapM {β : Type} (f : α → Option β) (xs : List α) :
    (xs.mapM f).isSome ↔ ∀ x ∈ xs, (f x).isSome := by
  induction xs with
  | nil => simp
  | cons x xs ih =>
    rw [mapM_cons]
    cases hx : f x with
    | none => simp [hx]
    | some y =>
      cases hxs : xs.mapM f with
      | none =>
        rw [hxs] at ih
        simpa [hx, hxs] using ih
      | some ys =>
        rw [hxs] at ih
        simpa [hx, hxs] using ih

theorem fieldStores_isSome_iff (fields : List LrType) (ops : List LrOperand) (dst : LrOperand) :
    (fieldStores fields ops dst).isSome ↔ min ops.length fields.length ≤ aggFieldsMax := by
  have hstored : (storedOps fields ops).length =
      min aggFieldsMax (min ops.length fields.length) := by
    rw [storedOps, length_take, length_take, Nat.min_comm fields.length]
  rw [fieldStores, isSome_mapM]
  simp only [mem_range, Option.isSome_map, isSome_getElem?, hstored]
  constructor
  · intro h
    by_contra hlong
    have hlast := h aggFieldsMax (Nat.lt_of_not_le hlong)
    exact lt_irrefl _ (lt_of_lt_of_le hlast (min_le_left _ _))
  · intro h i hi
    exact Nat.lt_min.2 ⟨lt_of_lt_of_le hi h, hi⟩

/-- A place of the parser that uses one of the arrays: a type or the head of a function in front
of it, a struct constant or a store of one whose operands are read. -/
inductive Use where
  | type (p : Parser)
  | function (p : Parser)
  | constant (type : LrType) (ops : List LrOperand)
  | store (fields : List LrType) (ops : List LrOperand) (dst : LrOperand)

/-- No index is outside its array. The calls of `parse_type` in one another are no deeper than
the text is long. -/
def InBounds : Use → Prop
  | .type p => (parseType (p.toks.length + 1) p).isSome
  | .function p => (functionHead (parseType (p.toks.length + 1)) p).isSome
  | .constant type ops => ∀ i ∈ packedReads type ops, i < aggFieldsMax
  | .store fields ops dst => (fieldStores fields ops dst).isSome

/-- The lists in the text are short enough. -/
def Fits : Use → Prop
  | .type p => (typeScan (p.toks.length + 1) p.toks).2 ≤ localArrayCap
  | .function p => (functionScan (typeScan (p.toks.length + 1)) p.toks).2 ≤ localArrayCap
  | .constant (.struct addr fields packed name) ops =>
    fields.length ≤ aggFieldsMax ∨ 8 < lrTypeSize (.struct addr fields packed name) ∨
      ops.length ≠ fields.length
  | .constant _ _ => True
  | .store fields ops _ => fields.length ≤ aggFieldsMax ∨ ops.length ≤ aggFieldsMax

theorem constant_inBounds_iff (type : LrType) (ops : List LrOperand) :
    InBounds (.constant type ops) ↔ Fits (.constant type ops) := by
  cases type with
  | struct addr fields packed name =>
    rw [InBounds, Fits]
    by_cases hpacked : ops.length = fields.length ∧ lrTypeSize (.struct addr fields packed name) ≤ 8
    · have hreads : packedReads (.struct addr fields packed name) ops =
          range fields.length := if_pos hpacked
      have hsize : ¬ 8 < lrTypeSize (.struct addr fields packed name) := BitVec.not_lt.2 hpacked.2
      simp only [hreads, mem_range, hsize, hpacked.1, ne_eq, not_true_eq_false, or_false]
      constructor
      · intro h
        by_contra hlong
        exact lt_irrefl _ (h aggFieldsMax (Nat.lt_of_not_le hlong))
      · intro h i hi
        exact lt_of_lt_of_le hi h
    · have hreads : packedReads (.struct addr fields packed name) ops = [] := if_neg hpacked
      have hfits : 8 < lrTypeSize (.struct addr fields packed name) ∨
          ops.length ≠ fields.length := by
        by_cases hlen : ops.length = fields.length
        · exact Or.inl (BitVec.not_le.1 fun hle => hpacked ⟨hlen, hle⟩)
        · exact Or.inr hlen
      have hnone : ∀ i ∈ packedReads (.struct addr fields packed name) ops, i < aggFieldsMax := by
        simp [hreads]
      exact ⟨fun _ => Or.inr hfits, fun _ => hnone⟩
  | _ => simp [InBounds, Fits, packedReads]

/-- The arrays of the parser are not overrun where, and only where, the lists of the text fit. -/
theorem inBounds_iff (u : Use) : InBounds u ↔ Fits u := by
  cases u with
  | type p => exact Agrees.isSome_iff (follows_parseType _)
  | function p => exact Agrees.isSome_iff (follows_functionHead (follows_parseType _))
  | constant type ops => exact constant_inBounds_iff type ops
  | store fields ops dst =>
    rw [InBounds, fieldStores_isSome_iff, Fits]
    omega

/-- A store of a constant with 17 fields reads behind the array. -/
theorem seventeen_fields :
    ¬ InBounds (.store (replicate 17 (.scalar 0 .i8))
      (replicate 17 (lrOpImmI64 0 (some (.scalar 0 .i8)))) (lrOpNull none)) := by
  simp [InBounds, fieldStores_isSome_iff, aggFieldsMax]

end Liric.Guarantees.FixedTables
