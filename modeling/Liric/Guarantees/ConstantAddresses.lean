import Liric.Guarantees.ParserFrames
import Liric.Guarantees.SymbolInterning

/-!
# Three computations of a constant address

A constant index path is walked by `lr_aggregate_index_path` (extractvalue and
insertvalue), by repeated `lr_gep_analyze_step` (address instructions) and by the
text parser (constant expressions). All three are compared with `walk`, the
offset and the leaf of an index path that stays inside its aggregates.
-/
namespace Liric.Guarantees.ConstantAddresses
open Source.Ir Source.Ll Lib SymbolInterning ParserFrames List

variable {cur leaf ty : LrType} {idx : BitVec 32} {path : List (BitVec 32)} {d : BitVec 64}
  {u : Token}

/-- Every index of the path is a field of its struct, or below the element count
of its array or vector. -/
def InRange : LrType → List (BitVec 32) → Prop
  | _, [] => True
  | .struct _ fields _ _, idx :: rest =>
    ∃ field, fields[idx.toNat]? = some field ∧ InRange field rest
  | .array _ elem count, idx :: rest => idx.toNat < count.toNat ∧ InRange elem rest
  | .vector _ elem count, idx :: rest => idx.toNat < count.toNat ∧ InRange elem rest
  | .scalar .., _ :: _ | .ptr .., _ :: _ | .func .., _ :: _ => False

/-- The type an index leads to, and its distance from the start. -/
def stepInto : LrType → BitVec 32 → Option (BitVec 64 × LrType)
  | .struct addr fields packed name, idx =>
    fields[idx.toNat]?.map (fun field =>
      (lrStructFieldOffset (.struct addr fields packed name) idx.toNat, field))
  | .array _ elem _, idx | .vector _ elem _, idx =>
    some (idx.setWidth 64 * lrTypeSize elem, elem)
  | .scalar .., _ | .ptr .., _ | .func .., _ => none

/-- The offset and the leaf of a path. -/
def walk : LrType → List (BitVec 32) → Option (BitVec 64 × LrType)
  | cur, [] => some (0#64, cur)
  | cur, idx :: rest =>
    (stepInto cur idx).bind (fun r =>
      (walk r.2 rest).map (fun r' => (r.1 + r'.1, r'.2)))

/-- An index of an in-range path leads somewhere, and the rest is in range there. -/
theorem InRange.stepInto {rest : List (BitVec 32)} (h : InRange cur (idx :: rest)) :
    ∃ off next, stepInto cur idx = some (off, next) ∧ InRange next rest := by
  cases cur with
  | scalar addr kind => exact h.elim
  | ptr addr elem => exact h.elim
  | func addr ret params vararg => exact h.elim
  | array addr elem count => exact ⟨_, _, rfl, h.2⟩
  | vector addr elem count => exact ⟨_, _, rfl, h.2⟩
  | struct addr fields packed name =>
    obtain ⟨field, hfield, hrest⟩ := h
    exact ⟨_, field, by rw [ConstantAddresses.stepInto, hfield]; rfl, hrest⟩

theorem walk_cons {next : LrType} {rest : List (BitVec 32)} {off : BitVec 64}
    (h : stepInto cur idx = some (off, next)) :
    walk cur (idx :: rest) = (walk next rest).map (fun r => (off + r.1, r.2)) := by
  rw [walk, h]
  rfl

theorem InRange.walk (h : InRange cur path) : ∃ off leaf, walk cur path = some (off, leaf) := by
  induction path generalizing cur with
  | nil => exact ⟨0#64, cur, rfl⟩
  | cons idx rest ih =>
    obtain ⟨off, next, hstep, hrest⟩ := h.stepInto
    obtain ⟨off', leaf, hwalk⟩ := ih hrest
    exact ⟨off + off', leaf, by rw [walk_cons hstep, hwalk]; rfl⟩

theorem indexPathLoop_cons {next : LrType} {rest : List (BitVec 32)} (h : InRange cur (idx :: rest))
    (hstep : stepInto cur idx = some (d, next)) (off : SizeT) :
    indexPathLoop cur (idx :: rest) off = indexPathLoop next rest (off + d) := by
  cases cur with
  | scalar addr kind => exact h.elim
  | ptr addr elem => exact h.elim
  | func addr ret params vararg => exact h.elim
  | struct addr fields packed name =>
    obtain ⟨field, hfield, -⟩ := h
    rw [stepInto, hfield] at hstep
    cases hstep
    rw [indexPathLoop, hfield]
  | array addr elem count =>
    cases hstep
    have hlt : ¬ idx.setWidth 64 ≥ count := by
      have := h.1
      simp only [ge_iff_le, BitVec.le_def, BitVec.toNat_setWidth]
      omega
    rw [indexPathLoop, if_neg hlt]
  | vector addr elem count =>
    cases hstep
    have hlt : ¬ idx.setWidth 64 ≥ count := by
      have := h.1
      have := idx.isLt
      simp only [ge_iff_le, BitVec.le_def, BitVec.toNat_setWidth]
      omega
    rw [indexPathLoop, if_neg hlt]

theorem indexPathLoop_walk (h : InRange cur path) (hwalk : walk cur path = some (d, leaf))
    (off : SizeT) :
    indexPathLoop cur path off = some (off + d, leaf) := by
  induction path generalizing cur d off with
  | nil =>
    cases hwalk
    rw [indexPathLoop, BitVec.add_zero]
  | cons idx rest ih =>
    obtain ⟨d₁, next, hstep, hrest⟩ := h.stepInto
    obtain ⟨d₂, leaf', hwalk'⟩ := hrest.walk
    rw [walk_cons hstep, hwalk'] at hwalk
    cases hwalk
    rw [indexPathLoop_cons h hstep, ih hrest hwalk', BitVec.add_assoc]

/-- The sum of the constant offsets and the final type of the steps of an address
instruction; `none` if a step is refused or not constant. -/
def foldSteps : Bool → LrType → List LrOperand → BitVec 64 → Option (BitVec 64 × LrType)
  | _, cur, [], off => some (off, cur)
  | first, cur, op :: ops, off =>
    match lrGepAnalyzeStep cur first op with
    | none => none
    | some step =>
      if step.isConst then foldSteps false step.nextType ops (off + step.constByteOffset)
      else none

/-- Constant indices, as the values of operands. -/
def indexValues (indices : List (BitVec 64)) : List OperandValue := indices.map .immI64

theorem foldSteps_cons {next : LrType} {op : LrOperand} (hop : op.value = .immI64 (idx.setWidth 64))
    (hstep : stepInto cur idx = some (d, next)) (ops : List LrOperand) (off : BitVec 64) :
    foldSteps false cur (op :: ops) off = foldSteps false next ops (off + d) := by
  have hlow : op.value.low32 = idx := by
    rw [hop, OperandValue.low32]
    ext i hi
    simp
  cases cur with
  | scalar addr kind => simp [stepInto] at hstep
  | ptr addr elem => simp [stepInto] at hstep
  | func addr ret params vararg => simp [stepInto] at hstep
  | struct addr fields packed name =>
    simp only [stepInto, Option.map_eq_some_iff, Prod.mk.injEq] at hstep
    obtain ⟨field, hfield, rfl, rfl⟩ := hstep
    simp [foldSteps, lrGepAnalyzeStep, hlow, hfield]
  | array addr elem count =>
    cases hstep
    simp [foldSteps, lrGepAnalyzeStep, scaledStep, hop]
  | vector addr elem count =>
    cases hstep
    simp [foldSteps, lrGepAnalyzeStep, scaledStep, hop]

theorem foldSteps_walk (h : InRange cur path) (hwalk : walk cur path = some (d, leaf))
    {ops : List LrOperand} (hops : ops.map LrOperand.value = indexValues (path.map (·.setWidth 64)))
    (off : BitVec 64) :
    foldSteps false cur ops off = some (off + d, leaf) := by
  induction path generalizing cur d off ops with
  | nil =>
    cases hwalk
    rw [map_eq_nil_iff.mp hops, foldSteps, BitVec.add_zero]
  | cons idx rest ih =>
    obtain ⟨op, ops', rfl, hop, hops'⟩ := map_eq_cons_iff.mp hops
    obtain ⟨d₁, next, hstep, hrest⟩ := h.stepInto
    obtain ⟨d₂, leaf', hwalk'⟩ := hrest.walk
    rw [walk_cons hstep, hwalk'] at hwalk
    cases hwalk
    rw [foldSteps_cons hop hstep, ih hrest hwalk' hops', BitVec.add_assoc]

/-- The first index moves by whole objects. -/
theorem foldSteps_first {base : LrType} (h : InRange base path)
    (hwalk : walk base path = some (d, leaf)) (n : BitVec 64) {ops : List LrOperand}
    (hops : ops.map LrOperand.value = indexValues (n :: path.map (·.setWidth 64))) :
    foldSteps true base ops 0 = some (n * lrTypeSize base + d, leaf) := by
  obtain ⟨op, ops', rfl, hop, hops'⟩ := map_eq_cons_iff.mp hops
  have hfirst : foldSteps true base (op :: ops') 0 =
      foldSteps false base ops' (n * lrTypeSize base) := by
    simp [foldSteps, lrGepAnalyzeStep, scaledStep, hop]
  rw [hfirst, foldSteps_walk h hwalk hops']

/-- The module types, the symbols and the known globals are the same. -/
def SameModule (p q : Parser) : Prop :=
  q.builtin = p.builtin ∧ q.symbols = p.symbols ∧ q.globalMap = p.globalMap

instance sameModule_steps : TypeSteps SameModule where
  refl _ := ⟨rfl, rfl, rfl⟩
  trans _ _ _ h h' := ⟨h'.1.trans h.1, h'.2.1.trans h.2.1, h'.2.2.trans h.2.2⟩
  toks _ := ⟨rfl, rfl, rfl⟩
  error _ _ := ⟨rfl, rfl, rfl⟩
  alloc _ _ := ⟨rfl, rfl, rfl⟩
  types _ _ := ⟨rfl, rfl, rfl⟩

section Tokens
variable {p : Parser} {t : Token} {rest : List Token} {kind : TokKind}

theorem cur_kind (h : p.toks = t :: rest) : p.cur = t := by
  rw [Parser.cur, h]
  rfl

theorem accept_hit (h : p.toks = t :: rest) (hk : t.kind = kind) :
    accept kind p = some (true, { p with toks := rest }) := by
  rw [accept, cur_kind h, if_pos hk, h]
  rfl

theorem accept_miss (h : p.toks = t :: rest) (hk : t.kind ≠ kind) :
    accept kind p = some (false, p) := by
  rw [accept, cur_kind h, if_neg hk]

theorem expect_hit (h : p.toks = t :: rest) (hk : t.kind = kind) :
    expect kind p = some ((), { p with toks := rest }) := by
  rw [expect, run_bind (accept_hit h hk)]
  rfl

theorem next_run (h : p.toks = t :: rest) : next p = some ((), { p with toks := rest }) := by
  rw [Source.Ll.next, h]
  rfl

/-- A token that starts an operand or a type: `skip_attrs` stops at it, and it does
not continue a type. -/
def Stops (t : Token) : Prop :=
  isAttr t.kind = false ∧ t.kind ≠ .tokAlign ∧ t.kind ≠ .tokLocalId ∧ t.kind ≠ .tokStar ∧
    t.kind ≠ .tokLparen

/-- `skip_attrs` steps over attribute keywords and stops at a token of another
kind. -/
theorem skipAttrsLoop_run (attrs : List Token) (hattrs : ∀ a ∈ attrs, isAttr a.kind = true)
    {fuel : Nat} (hfuel : attrs.length < fuel) (h : p.toks = attrs ++ t :: rest)
    (hattr : isAttr t.kind = false) (halign : t.kind ≠ .tokAlign) (hlocal : t.kind ≠ .tokLocalId) :
    skipAttrsLoop fuel p = some ((), { p with toks := t :: rest }) := by
  induction attrs generalizing p fuel with
  | nil =>
    obtain ⟨fuel, rfl⟩ := Nat.exists_eq_add_of_lt hfuel
    have h : p.toks = t :: rest := h
    have hcur : curTok p = some (t, p) := by rw [curTok, cur_kind h]
    have hbare : isBareIdentifier t = false := by simp [isBareIdentifier, hlocal]
    rw [skipAttrsLoop, run_bind hcur, if_neg (by simp [hattr]), if_neg halign,
      if_neg (by simp [hbare]), ← h]
    rfl
  | cons a attrs ih =>
    obtain ⟨fuel, rfl⟩ := Nat.exists_eq_add_of_lt hfuel
    have h : p.toks = a :: (attrs ++ t :: rest) := h
    have hcur : curTok p = some (a, p) := by rw [curTok, cur_kind h]
    rw [skipAttrsLoop, run_bind hcur, if_pos (hattrs a mem_cons_self), run_bind (next_run h)]
    have hmore : ∀ b ∈ attrs, isAttr b.kind = true := fun b hb =>
      hattrs b (mem_cons_of_mem a hb)
    exact ih hmore (p := { p with toks := attrs ++ t :: rest })
      (by rw [length_cons]; omega) rfl

theorem skipAttrs_run (attrs : List Token) (hattrs : ∀ a ∈ attrs, isAttr a.kind = true)
    (h : p.toks = attrs ++ t :: rest) (hattr : isAttr t.kind = false)
    (halign : t.kind ≠ .tokAlign) (hlocal : t.kind ≠ .tokLocalId) :
    skipAttrs p = some ((), { p with toks := t :: rest }) := by
  have hlen : attrs.length < p.toks.length + 1 := by
    rw [h, length_append]
    omega
  exact skipAttrsLoop_run attrs hattrs hlen h hattr halign hlocal

theorem skipAttrs_stop (h : p.toks = t :: rest) (hstop : Stops t) :
    skipAttrs p = some ((), { p with toks := t :: rest }) :=
  skipAttrs_run [] (by simp) h hstop.1 hstop.2.1 hstop.2.2.1

section
variable (depth : Nat) (h : p.toks = t :: u :: rest) (hty : builtinType p.builtin t.kind = some ty)
include depth h hty

/-- A type of one token in front of a token that does not continue it. -/
theorem parseType_before (hstar : u.kind ≠ .tokStar) (hlparen : u.kind ≠ .tokLparen) :
    parseType (depth + 1) p = some (ty, { p with toks := u :: rest }) := by
  have hcur : curTok p = some (t, p) := by rw [curTok, cur_kind h]
  have hget : (get : P Parser) p = some (p, p) := rfl
  have hhead : parseTypeHead (parseType depth) p = some (ty, { p with toks := u :: rest }) := by
    rw [parseTypeHead, run_bind hcur, run_bind hget, hty]
    change (next >>= fun _ => pure ty) p = _
    rw [run_bind (next_run h)]
    rfl
  have hrest : ({ p with toks := u :: rest } : Parser).toks = u :: rest := rfl
  rw [parseType, run_bind hhead]
  change suffixLoop (parseType depth) ((u :: rest).length + 1) ty _ = _
  rw [suffixLoop, run_bind (accept_miss hrest hstar)]
  simp only [Bool.false_eq_true, if_false]
  rw [run_bind (accept_miss hrest hlparen)]
  rfl

theorem parseType_builtin (hstop : Stops u) :
    parseType (depth + 1) p = some (ty, { p with toks := u :: rest }) :=
  parseType_before depth h hty hstop.2.2.2.1 hstop.2.2.2.2

/-- A typed operand whose type is one token and that is itself one token. -/
theorem parseTypedOperand_token (hstop : Stops u)
    (hplain : u.kind ≠ .tokGetelementptr ∧ isCast u.kind = false ∧ u.kind ≠ .tokLbrace ∧
      u.kind ≠ .tokLbracket ∧ u.kind ≠ .tokLangle) :
    parseTypedOperand (depth + 1) p = tokenOperand u ty { p with toks := u :: rest } := by
  obtain ⟨hgep, hcast, hbrace, hbracket, hangle⟩ := hplain
  have hrest : ({ p with toks := u :: rest } : Parser).toks = u :: rest := rfl
  have hcur : curTok { p with toks := u :: rest } = some (u, { p with toks := u :: rest }) := rfl
  rw [parseTypedOperand, run_bind (parseType_builtin depth h hty hstop),
    run_bind (skipAttrs_stop hrest hstop), operandWith, run_bind hcur, if_neg hgep,
    if_neg (by simp [hcast]), if_neg (by simp [hbrace, hbracket]), if_neg hangle]

end

end Tokens

def isIndexType : TokKind → Bool
  | .tokI8 | .tokI16 | .tokI32 | .tokI64 => true
  | _ => false

/-- `IndexToks indices toks rest`: `toks` are typed integer literals with these
values, each after a comma, followed by `rest`. -/
inductive IndexToks : List (BitVec 64) → List Token → List Token → Prop where
  | nil (rest : List Token) : IndexToks [] rest rest
  | cons {comma ty lit : Token} {n : BitVec 64} {indices : List (BitVec 64)}
      {toks rest : List Token} (hcomma : comma.kind = .tokComma)
      (hty : isIndexType ty.kind = true) (hlit : lit.kind = .tokIntLit) (hval : lit.intVal = n)
      (h : IndexToks indices toks rest) :
      IndexToks (n :: indices) (comma :: ty :: lit :: toks) rest

theorem IndexToks.length_le {indices : List (BitVec 64)} {toks rest : List Token}
    (h : IndexToks indices toks rest) : indices.length ≤ toks.length := by
  induction h with
  | nil rest => exact Nat.zero_le _
  | cons hcomma hty hlit hval h ih =>
    simp only [length_cons]
    omega

theorem stops_of_intLit {t : Token} (h : t.kind = .tokIntLit) : Stops t := by
  simp [Stops, h, isAttr]

theorem stops_of_globalId {t : Token} (h : t.kind = .tokGlobalId) : Stops t := by
  simp [Stops, h, isAttr]

/-- The integer types of a module other than `i1`. -/
theorem builtinType_index {kind : TokKind} (h : isIndexType kind = true) (addr : Nat) :
    ∃ ty, builtinType (lrModuleCreateTypes addr) kind = some ty ∧ ty.isI1 = false := by
  cases kind <;> first
    | exact ⟨_, rfl, rfl⟩
    | exact absurd h (by decide)

/-- An index is read as the constant it spells. -/
theorem parseTypedOperand_index (depth addr : Nat) {p : Parser} {ty lit : Token} {rest : List Token}
    (hbuiltin : p.builtin = lrModuleCreateTypes addr) (h : p.toks = ty :: lit :: rest)
    (hty : isIndexType ty.kind = true) (hlit : lit.kind = .tokIntLit) :
    ∃ op, parseTypedOperand (depth + 1) p = some (op, { p with toks := rest }) ∧
      op.value = .immI64 lit.intVal := by
  obtain ⟨lrTy, hlrTy, hnot⟩ := builtinType_index hty addr
  have hplain : lit.kind ≠ .tokGetelementptr ∧ isCast lit.kind = false ∧
      lit.kind ≠ .tokLbrace ∧ lit.kind ≠ .tokLbracket ∧ lit.kind ≠ .tokLangle := by
    simp [hlit, isCast]
  have hrun := parseTypedOperand_token depth h (hbuiltin ▸ hlrTy) (stops_of_intLit hlit) hplain
  refine ⟨lrOpImmI64 lit.intVal (some lrTy), ?_, by simp [lrOpImmI64, hnot]⟩
  rw [hrun, tokenOperand, hlit]
  rfl

/-- A step of the parser at an index other than the first. -/
theorem constGepStep_into {g : ConstGep} (hok : g.offsetOk = true) (hpos : g.idxPos ≠ 0)
    {op : LrOperand} (hop : op.value = .immI64 (idx.setWidth 64)) {next : LrType}
    (hstep : stepInto g.curTy idx = some (d, next)) :
    constGepStep g op =
      { g with byteOffset := g.byteOffset + d, curTy := next, idxPos := g.idxPos + 1 } := by
  have hidx := idx.isLt
  have hnat : (idx.setWidth 64).toNat = idx.toNat := by
    rw [BitVec.toNat_setWidth]
    omega
  have hslt : (idx.setWidth 64).slt 0 = false := by
    simp only [BitVec.slt, BitVec.toInt_eq_toNat_cond, hnat]
    simp
    omega
  unfold constGepStep
  rw [hok, hop]
  cases hcur : g.curTy with
  | scalar addr kind => simp [hcur, stepInto] at hstep
  | ptr addr elem => simp [hcur, stepInto] at hstep
  | func addr ret params vararg => simp [hcur, stepInto] at hstep
  | array addr elem count =>
    simp only [hcur, stepInto, Option.some.injEq, Prod.mk.injEq] at hstep
    obtain ⟨rfl, rfl⟩ := hstep
    simp only [if_neg hpos]
  | vector addr elem count =>
    simp only [hcur, stepInto, Option.some.injEq, Prod.mk.injEq] at hstep
    obtain ⟨rfl, rfl⟩ := hstep
    simp only [if_neg hpos]
  | struct addr fields packed name =>
    simp only [hcur, stepInto, Option.map_eq_some_iff, Prod.mk.injEq] at hstep
    obtain ⟨field, hfield, rfl, rfl⟩ := hstep
    simp only [if_neg hpos, hslt, hnat, hfield, Bool.false_eq_true, if_false]

/-- The indices behind the first one add the offset of the path. -/
theorem constGepLoop_walk (depth addr : Nat) {g : ConstGep} (hok : g.offsetOk = true)
    (hpos : g.idxPos ≠ 0) (h : InRange g.curTy path) (hwalk : walk g.curTy path = some (d, leaf))
    {p : Parser} (hbuiltin : p.builtin = lrModuleCreateTypes addr) {closing : Token}
    {rest : List Token} (htoks : IndexToks (path.map (·.setWidth 64)) p.toks (closing :: rest))
    (hclosing : closing.kind ≠ .tokComma) {fuel : Nat} (hfuel : path.length < fuel) :
    ∃ g', constGepLoop (parseTypedOperand (depth + 1)) fuel g p =
        some (g', { p with toks := closing :: rest }) ∧
      g'.offsetOk = true ∧ g'.byteOffset = g.byteOffset + d := by
  induction path generalizing g p d fuel with
  | nil =>
    obtain ⟨fuel, rfl⟩ := Nat.exists_eq_add_of_lt hfuel
    cases hwalk
    generalize htail : closing :: rest = tail at htoks
    generalize hall : p.toks = toks at htoks
    cases htoks
    subst htail
    refine ⟨g, ?_, hok, (BitVec.add_zero _).symm⟩
    rw [constGepLoop, run_bind (accept_miss hall hclosing), ← hall]
    rfl
  | cons idx path ih =>
    obtain ⟨fuel, rfl⟩ := Nat.exists_eq_add_of_lt hfuel
    obtain ⟨d₁, next, hstep, hrest⟩ := h.stepInto
    obtain ⟨d₂, leaf', hwalk'⟩ := hrest.walk
    rw [walk_cons hstep, hwalk'] at hwalk
    cases hwalk
    generalize hall : p.toks = toks at htoks
    cases htoks with
    | cons hcomma hty hlit hval hmore =>
      rename_i comma ty lit toks
      obtain ⟨op, hop, hvalue⟩ := parseTypedOperand_index depth addr
        (p := { p with toks := ty :: lit :: toks }) hbuiltin rfl hty hlit
      have hgstep := constGepStep_into hok hpos (hval ▸ hvalue) hstep
      rw [constGepLoop, run_bind (accept_hit hall hcomma)]
      simp only [if_true]
      rw [run_bind hop, hgstep]
      obtain ⟨g', hrun, hok', hoff⟩ := ih (g := { g with
        byteOffset := g.byteOffset + d₁, curTy := next, idxPos := g.idxPos + 1 })
        (p := { p with toks := toks }) hok (Nat.succ_ne_zero _) hrest hwalk' hbuiltin hmore
        (by rw [length_cons]; omega : path.length < (idx :: path).length + fuel)
      exact ⟨g', hrun, hok', by rw [hoff, BitVec.add_assoc]⟩

/-- A global is read as an operand without offset. -/
theorem parseTypedOperand_global (depth : Nat) {p : Parser} {ty name : Token} {rest : List Token}
    (hwf : WellFormed p.symbols) (hfew : p.symbols.numSymbols + 1 < 2 ^ 30)
    (h : p.toks = ty :: name :: rest) (hty : ty.kind = .tokPtr) (hname : name.kind = .tokGlobalId) :
    ∃ gid q, parseTypedOperand (depth + 1) p =
        some (lrOpGlobal gid (some p.builtin.typePtr), q) ∧
      q.toks = rest ∧ q.builtin = p.builtin ∧ q.error = p.error := by
  have hplain : name.kind ≠ .tokGetelementptr ∧ isCast name.kind = false ∧
      name.kind ≠ .tokLbrace ∧ name.kind ≠ .tokLbracket ∧ name.kind ≠ .tokLangle := by
    simp [hname, isCast]
  have hptr : builtinType p.builtin ty.kind = some p.builtin.typePtr := by rw [hty, builtinType]
  rw [parseTypedOperand_token depth h hptr (stops_of_globalId hname) hplain, tokenOperand, hname]
  have hnext : next { p with toks := name :: rest } = some ((), { p with toks := rest }) := rfl
  have hget : (get : P Parser) { p with toks := rest } =
      some ({ p with toks := rest }, { p with toks := rest }) := rfl
  -- a known name keeps the state, a new one is interned and registered
  have hresolve : ∃ gid q, resolveGlobal (tokNameView name) { p with toks := rest } =
      some (gid, q) ∧ q.toks = rest ∧ q.builtin = p.builtin ∧ q.error = p.error := by
    rw [resolveGlobal, run_bind hget]
    by_cases hnew : (List.lookup (tokNameView name) p.globalMap).getD uint32Max = uint32Max
    · simp only [if_pos hnew]
      have hintern : ∃ id m, internSymbol (tokNameView name) { p with toks := rest } =
          some (id, { p with toks := rest, symbols := m }) := by
        unfold internSymbol
        by_cases hempty : (tokNameView name).isEmpty = true
        · exact ⟨uint32Max, p.symbols, by rw [if_pos hempty]⟩
        · have hlen : (addName p.symbols.symbolNames (tokNameView name)).length < 2 ^ 30 := by
            have hcount : p.symbols.symbolNames.length + 1 < 2 ^ 30 := hfew
            unfold addName
            split
            · omega
            · rw [length_append]
              simp only [length_cons, length_nil]
              omega
          obtain ⟨m, hm, -⟩ := lrModuleInternSymbol_spec hwf (tokNameView name) hlen
          exact ⟨_, m, by rw [if_neg hempty, hm]; rfl⟩
      obtain ⟨id, m, hrun⟩ := hintern
      rw [run_bind hrun]
      exact ⟨id, _, rfl, rfl, rfl, rfl⟩
    · simp only [if_neg hnew]
      exact ⟨_, _, rfl, rfl, rfl, rfl⟩
  obtain ⟨gid, q, hrun, hq⟩ := hresolve
  refine ⟨gid, q, ?_, hq⟩
  simp only
  rw [run_bind hnext, run_bind hrun]
  rfl

/-- `getelementptr attrs (T, ptr @g, iN i₁, …)` in front of a parser, with `q` the
state behind the text of `T`. -/
structure GepExpr (depth : Nat) (p q : Parser) (source : LrType) (indices : List (BitVec 64))
    (rest : List Token) : Prop where
  text : ∃ gep attrs lparen toks, p.toks = gep :: (attrs ++ lparen :: toks) ∧
    gep.kind = .tokGetelementptr ∧ (∀ a ∈ attrs, isAttr a.kind = true) ∧
    lparen.kind = .tokLparen ∧ parseType depth { p with toks := toks } = some (source, q)
  operands : ∃ comma ptr name toks rparen, q.toks = comma :: ptr :: name :: toks ∧
    comma.kind = .tokComma ∧ ptr.kind = .tokPtr ∧ name.kind = .tokGlobalId ∧
    rparen.kind = .tokRparen ∧ IndexToks indices toks (rparen :: rest)

/-- The constant expression denotes the global with the offset of the path. -/
theorem parseConstGepOperand_walk {depth addr : Nat} {p q : Parser} {source : LrType}
    {n : BitVec 64} {rest : List Token} (h : InRange source path)
    (hwalk : walk source path = some (d, leaf)) (hbuiltin : p.builtin = lrModuleCreateTypes addr)
    (hwf : WellFormed p.symbols) (hfew : p.symbols.numSymbols + 1 < 2 ^ 30)
    (hexpr : GepExpr depth p q source (n :: path.map (·.setWidth 64)) rest) (resultTy : LrType) :
    ∃ gid p', parseConstGepOperand depth resultTy p =
        some (⟨.global gid, some resultTy, n * lrTypeSize source + d⟩, p') ∧
      p'.toks = rest ∧ p'.error = q.error := by
  obtain ⟨gep, attrs, lparen, toks, htoks, hgep, hattrs, hlparen, hparse⟩ := hexpr.text
  obtain ⟨comma, ptr, name, itoks, rparen, hq, hcomma, hptr, hname, hrparen, hindex⟩ :=
    hexpr.operands
  obtain ⟨hqbuiltin, hqsymbols, -⟩ := (frame_parseType (R := SameModule) depth).run _ _ _ hparse
  cases depth with
  | zero => cases hparse
  | succ depth =>
    have hskip := skipAttrs_run attrs hattrs
      (p := { p with toks := attrs ++ lparen :: toks }) (t := lparen) rfl
      (by simp [hlparen, isAttr]) (by simp [hlparen]) (by simp [hlparen])
    have haccept : accept .tokLparen { p with toks := lparen :: toks } =
        some (true, { p with toks := toks }) := accept_hit rfl hlparen
    obtain ⟨gid, r, hbase, hrtoks, hrbuiltin, hrerror⟩ := parseTypedOperand_global depth
      (p := { q with toks := ptr :: name :: itoks })
      (by rw [show q.symbols = p.symbols from hqsymbols]; exact hwf)
      (by rw [show q.symbols = p.symbols from hqsymbols]; exact hfew) rfl hptr hname
    rw [parseConstGepOperand, constGepOperand, run_bind (expect_hit htoks hgep), run_bind hskip,
      run_bind haccept, run_bind hparse, run_bind (expect_hit hq hcomma), run_bind hbase]
    -- the first index moves by whole objects, the others walk the path
    have hlen := hindex.length_le
    cases hindex with
    | cons hcomma₁ hty₁ hlit₁ hval₁ hmore =>
      rename_i comma₁ ty₁ lit₁ toks₁
      subst hval₁
      have hrb : r.builtin = lrModuleCreateTypes addr := hrbuiltin.trans (hqbuiltin.trans hbuiltin)
      obtain ⟨op, hop, hvalue⟩ := parseTypedOperand_index depth addr
        (p := { r with toks := ty₁ :: lit₁ :: toks₁ }) hrb rfl hty₁ hlit₁
      have hfirst : constGepStep { curTy := source } op =
          { curTy := source, byteOffset := lit₁.intVal * lrTypeSize source, idxPos := 1 } := by
        simp [constGepStep, hvalue]
      obtain ⟨g, hg, hok, hoff⟩ := constGepLoop_walk depth addr
        (g := { curTy := source, byteOffset := lit₁.intVal * lrTypeSize source, idxPos := 1 })
        rfl Nat.one_ne_zero h hwalk (p := { r with toks := toks₁ }) hrb hmore
        (by simp [hrparen] : rparen.kind ≠ .tokComma)
        (by
          simp only [length_cons, length_map] at hlen
          simp only [hrtoks, length_cons]
          omega : path.length < r.toks.length)
      have hloop : withTokenFuel (fun fuel =>
          constGepLoop (parseTypedOperand (depth + 1)) fuel { curTy := source }) r =
          some (g, { r with toks := rparen :: rest }) := by
        rw [withTokenFuel, constGepLoop, run_bind (accept_hit hrtoks hcomma₁)]
        simp only [if_true]
        rw [run_bind hop, hfirst]
        exact hg
      have hclose : expectIf true .tokRparen { r with toks := rparen :: rest } =
          some ((), { r with toks := rest }) := expect_hit rfl hrparen
      rw [run_bind hloop, run_bind hclose]
      have hresult : constGepResult (lrOpGlobal gid (some q.builtin.typePtr)) g resultTy =
          ⟨.global gid, some resultTy, lit₁.intVal * lrTypeSize source + d⟩ := by
        simp [constGepResult, lrOpGlobal, hok, hoff]
      exact ⟨gid, { r with toks := rest }, by rw [← hresult]; rfl, rfl, hrerror⟩

/-- The three computations agree on every in-range path: the index path has an
offset and a leaf, the steps of an address instruction with first index `n` sum up
to that offset and `n` whole objects and end at that leaf, and the constant
expression adds the same sum to its global. -/
theorem offset_computations_agree (source : LrType) (path : List (BitVec 32))
    (h : InRange source path) :
    ∃ off leaf, lrAggregateIndexPath source path = some (off, leaf) ∧
      ∀ n : BitVec 64,
        (∀ ops : List LrOperand,
          ops.map LrOperand.value = indexValues (n :: path.map (·.setWidth 64)) →
          foldSteps true source ops 0 = some (n * lrTypeSize source + off, leaf)) ∧
        ∀ (depth addr : Nat) (p q : Parser) (rest : List Token) (resultTy : LrType),
          p.builtin = lrModuleCreateTypes addr → WellFormed p.symbols →
          p.symbols.numSymbols + 1 < 2 ^ 30 →
          GepExpr depth p q source (n :: path.map (·.setWidth 64)) rest →
          ∃ gid p', parseConstGepOperand depth resultTy p =
              some (⟨.global gid, some resultTy, n * lrTypeSize source + off⟩, p') ∧
            p'.toks = rest ∧ p'.error = q.error := by
  obtain ⟨off, leaf, hwalk⟩ := h.walk
  have hindex := indexPathLoop_walk h hwalk 0#64
  rw [BitVec.zero_add] at hindex
  refine ⟨off, leaf, hindex, fun n => ⟨fun ops hops => foldSteps_first h hwalk n hops, ?_⟩⟩
  intro depth addr p q rest resultTy hbuiltin hwf hfew hexpr
  exact parseConstGepOperand_walk h hwalk hbuiltin hwf hfew hexpr resultTy

/-- `{ i8, [2 x i16] }` as the parser allocates it. -/
def pairType : LrType :=
  .struct 12 [.scalar 2 .i8, .array 11 (.scalar 3 .i16) 2] false none

/-- `getelementptr inbounds ({ i8, [2 x i16] }, ptr @g, i32 2, i32 1, i64 1)`. -/
def pairExpr : Parser where
  toks := [{ kind := .tokGetelementptr }, { kind := .tokInbounds }, { kind := .tokLparen },
    { kind := .tokLbrace }, { kind := .tokI8 }, { kind := .tokComma },
    { kind := .tokLbracket }, { kind := .tokIntLit, intVal := 2 }, { kind := .tokX },
    { kind := .tokI16 }, { kind := .tokRbracket }, { kind := .tokRbrace },
    { kind := .tokComma }, { kind := .tokPtr }, { kind := .tokGlobalId, text := [64, 103] },
    { kind := .tokComma }, { kind := .tokI32 }, { kind := .tokIntLit, intVal := 2 },
    { kind := .tokComma }, { kind := .tokI32 }, { kind := .tokIntLit, intVal := 1 },
    { kind := .tokComma }, { kind := .tokI64 }, { kind := .tokIntLit, intVal := 1 },
    { kind := .tokRparen }]
  builtin := lrModuleCreateTypes 0
  symbols := .empty
  nextAddr := 11

theorem offset_computations_agree_pair :
    InRange pairType [1, 1] ∧ lrAggregateIndexPath pairType [1, 1] = some (4, .scalar 3 .i16) ∧
      ∃ gid p', parseConstGepOperand 3 (.ptr 10 none) pairExpr =
        some (⟨.global gid, some (.ptr 10 none), 16⟩, p') ∧ p'.toks = [] ∧ p'.error = none := by
  have hrange : InRange pairType [1, 1] := ⟨_, rfl, by decide, trivial⟩
  have hpath : lrAggregateIndexPath pairType [1, 1] = some (4, .scalar 3 .i16) := by
    decide +kernel
  obtain ⟨off, leaf, hindex, hall⟩ := offset_computations_agree pairType [1, 1] hrange
  rw [hpath] at hindex
  cases hindex
  have hexpr : GepExpr 3 pairExpr { pairExpr with toks := pairExpr.toks.drop 12, nextAddr := 13 }
      pairType (2 :: [1, 1].map (fun i : BitVec 32 => i.setWidth 64)) [] := by
    constructor
    · exact ⟨_, [_], _, _, rfl, rfl, by simp [isAttr], rfl, by decide +kernel⟩
    · refine ⟨_, _, _, _, { kind := .tokRparen }, rfl, rfl, rfl, rfl, rfl, ?_⟩
      exact .cons rfl rfl rfl rfl (.cons rfl rfl rfl rfl (.cons rfl rfl rfl rfl (.nil _)))
  refine ⟨hrange, hpath, ?_⟩
  exact (hall 2).2 3 0 pairExpr _ [] (.ptr 10 none) rfl wellFormed_empty (by decide) hexpr

end Liric.Guarantees.ConstantAddresses
