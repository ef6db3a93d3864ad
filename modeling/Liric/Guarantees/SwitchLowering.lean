import Liric.Source.Ll.Switch
import Liric.Guarantees.ConstantAddresses
import Liric.Guarantees.IrSemantics

/-!
# What a switch is lowered to

A switch becomes a chain of comparisons: its block compares the first case, and each
further case has a block of its own, a link. Control reaches the block that the switch
selects unless the case is behind the 256th. The phis of that block still name the
block of the switch, so they get their values only if that is the block control comes
from.
-/
namespace Liric.Guarantees.SwitchLowering
open Source.Ir Source.Ll IrSemantics ConstantAddresses List
open Lib (run_bind)

/-- The comparison with one case and the branch on it. -/
def linkInsts (types : BuiltinTypes) (val : LrOperand) (valTy : LrType) (cmp : Nat)
    (c : SwitchCase) (elseId : Nat) : List LrInst :=
  [{ lrInstCreate .icmp (some types.typeI1) cmp [val, lrOpImmI64 c.caseVal (some valTy)] with
      payload := .icmpPred .eq },
    lrInstCreate .condbr (some types.typeVoid) 0
      [lrOpVreg cmp (some types.typeI1), lrOpBlock c.blockId, lrOpBlock elseId]]

/-- `tail` compares the first case, the block `link` the next one, and so on. -/
def Chain (types : BuiltinTypes) (val : LrOperand) (valTy : LrType) (defaultId : Nat)
    (g : LrFunc) : Nat → Nat → List LrInst → List SwitchCase → Prop
  | _, _, _, [] => False
  | cmp, _, tail, [c] => tail = linkInsts types val valTy cmp c defaultId
  | cmp, link, tail, c :: c' :: rest =>
    tail = linkInsts types val valTy cmp c link ∧ ∃ blk, g.blocks[link]? = some blk ∧
      Chain types val valTy defaultId g (cmp + 1) (link + 1) blk.insts (c' :: rest)

/-- The id of a block is its place. -/
structure Numbered (f : LrFunc) : Prop where
  count : f.numBlocks = f.blocks.length
  ids : ∀ (i : Nat) (b : LrBlock), f.blocks[i]? = some b → b.id = i

section Emit
variable {s s' : FuncParser}

variable {p : Parser}

theorem ofP_run {α : Type} {x : P α} {a : α} (h : x s.parser = some (a, p)) :
    ofP x s = some (a, { s with parser := p }) := by
  rw [ofP, h]
  rfl

/-- What the type of a destination leaves of the parser: an error is kept, and a
register without a type gets one. -/
structure Recorded (dest : Nat) (p p' : Parser) : Prop where
  builtin : p'.builtin = p.builtin
  nextVreg : p'.nextVreg = p.nextVreg
  toks : p'.toks = p.toks
  error : p.error.isSome → p'.error.isSome
  fresh : (dest = 0 ∨ ∀ e ∈ p.vregTypes, e.1 ≠ dest) → p'.error = p.error
  types : ∀ e ∈ p'.vregTypes, e ∈ p.vregTypes ∨ dest ≠ 0 ∧ e.1 = dest

theorem bindVregType_run {vreg : Nat} (hvreg : vreg ≠ 0) (type : LrType) (name : CStr)
    (p : Parser) :
    ∃ ok p', bindVregType vreg type name p = some (ok, p') ∧ Recorded vreg p p' := by
  have hget : (get : P Parser) p = some (p, p) := rfl
  rw [bindVregType, run_bind hget]
  cases hlookup : p.vregTypes.lookup vreg with
  | none =>
    refine ⟨_, _, rfl, rfl, rfl, rfl, id, fun _ => rfl, ?_⟩
    intro e he
    obtain rfl | he := mem_cons.1 he
    · exact .inr ⟨hvreg, rfl⟩
    · exact .inl he
  | some known =>
    by_cases h : typeEqualsRecursive known type = true
    · simp only [h, if_true]
      exact ⟨_, _, rfl, rfl, rfl, rfl, id, fun _ => rfl, fun e he => .inl he⟩
    · simp only [h]
      refine ⟨_, _, rfl, rfl, rfl, rfl, ?_, ?_, fun e he => .inl he⟩
      · intro herr
        obtain ⟨e, he⟩ := Option.isSome_iff_exists.1 herr
        simp [he]
      · rintro (hzero | hfresh)
        · exact absurd hzero hvreg
        · obtain ⟨pre, post, hsplit, -⟩ := lookup_eq_some_iff.1 hlookup
          exact absurd rfl (hfresh (vreg, known) (by simp [hsplit]))

theorem recordDestType_run (dest : Nat) (type : LrType) (s : FuncParser) :
    ∃ p', recordDestType dest type s = some ((), { s with parser := p' }) ∧
      Recorded dest s.parser p' := by
  unfold recordDestType
  split
  · exact ⟨s.parser, rfl, rfl, rfl, rfl, id, fun _ => rfl, fun e he => .inl he⟩
  · next hdest =>
    obtain ⟨ok, p', hrun, hsame⟩ := bindVregType_run hdest type [] s.parser
    exact ⟨p', by rw [run_bind (ofP_run hrun)]; rfl, hsame⟩

def appendInsts (f : LrFunc) (block : Nat) (insts : List LrInst) : LrFunc :=
  { f with blocks := f.blocks.modify block fun b => { b with insts := b.insts ++ insts } }

theorem appendInsts_appendInsts (f : LrFunc) (block : Nat) (xs ys : List LrInst) :
    appendInsts (appendInsts f block xs) block ys = appendInsts f block (xs ++ ys) := by
  simp only [appendInsts, modify_modify_eq]
  congr 2
  funext b
  simp

theorem emitInst_run (block : Nat) (op : Opcode) (type : LrType) (dest : Nat)
    (ops : List LrOperand) (s : FuncParser) :
    ∃ p', emitInst block op type dest ops s = some ((), { s with
        parser := p'
        func := appendInsts s.func block [lrInstCreate op (some type) dest ops] }) ∧
      Recorded dest s.parser p' := by
  obtain ⟨p', hrun, hsame⟩ := recordDestType_run dest type s
  exact ⟨p', by rw [emitInst, run_bind hrun]; rfl, hsame⟩

theorem emitIcmp_run (block : Nat) (type : LrType) (dest : Nat) (ops : List LrOperand)
    (pred : IcmpPred) (s : FuncParser) :
    ∃ p', emitIcmp block type dest ops pred s = some ((), { s with
        parser := p'
        func := appendInsts s.func block
          [{ lrInstCreate .icmp (some type) dest ops with payload := .icmpPred pred }] }) ∧
      Recorded dest s.parser p' := by
  obtain ⟨p', hrun, hsame⟩ := recordDestType_run dest type s
  exact ⟨p', by rw [emitIcmp, run_bind hrun]; rfl, hsame⟩

/-- No error so far, and the registers to come have no type. -/
def Quiet (p : Parser) : Prop := p.error = none ∧ ∀ e ∈ p.vregTypes, e.1 < p.nextVreg

theorem Recorded.quiet {p' : Parser} (h : Recorded 0 p p') (hquiet : Quiet p) : Quiet p' := by
  refine ⟨(h.fresh (.inl rfl)).trans hquiet.1, ?_⟩
  intro e he
  rw [h.nextVreg]
  obtain he | ⟨hne, -⟩ := h.types e he
  · exact hquiet.2 e he
  · exact absurd rfl hne

/-- The type of a new register. -/
theorem Recorded.quiet_new {p' : Parser}
    (h : Recorded p.nextVreg { p with nextVreg := p.nextVreg + 1 } p') (hquiet : Quiet p) :
    Quiet p' := by
  refine ⟨(h.fresh (.inr fun e he => (hquiet.2 e he).ne)).trans hquiet.1, ?_⟩
  intro e he
  rw [h.nextVreg]
  obtain he | ⟨-, heq⟩ := h.types e he
  · exact (hquiet.2 e he).trans (Nat.lt_succ_self _)
  · rw [heq]
    exact Nat.lt_succ_self _

end Emit

section Lowering
variable {f : LrFunc} {block : Nat} {insts : List LrInst}

@[simp] theorem length_appendInsts :
    (appendInsts f block insts).blocks.length = f.blocks.length := by
  simp [appendInsts]

theorem appendInsts_self {b : LrBlock} (h : f.blocks[block]? = some b) :
    (appendInsts f block insts).blocks[block]? = some { b with insts := b.insts ++ insts } := by
  simp [appendInsts, h]

theorem appendInsts_of_ne {i : Nat} (h : i ≠ block) :
    (appendInsts f block insts).blocks[i]? = f.blocks[i]? := by
  simp [appendInsts, h.symm]

theorem Numbered.append (h : Numbered f) : Numbered (appendInsts f block insts) where
  count := by
    rw [length_appendInsts]
    exact h.count
  ids := by
    intro i b hb
    by_cases hi : i = block
    · subst hi
      cases hold : f.blocks[i]? with
      | none => simp [appendInsts, hold] at hb
      | some b' =>
        rw [appendInsts_self hold] at hb
        cases hb
        exact h.ids i b' hold
    · rw [appendInsts_of_ne hi] at hb
      exact h.ids i b hb

theorem Numbered.create (h : Numbered f) (name : CStr) : Numbered (blockCreate name f) where
  count := by
    simp [blockCreate, h.count]
  ids := by
    intro i b hb
    simp only [blockCreate, getElem?_append] at hb
    split at hb
    · exact h.ids i b hb
    · next hi =>
      have hzero : i - f.blocks.length = 0 := by
        by_contra hne
        rw [getElem?_eq_none (by simp; omega)] at hb
        cases hb
      rw [hzero] at hb
      cases hb
      simp only [h.count]
      omega

theorem create_old {name : CStr} {i : Nat} (hi : i < f.blocks.length) :
    (blockCreate name f).blocks[i]? = f.blocks[i]? := by
  simp [blockCreate, getElem?_append_left hi]

theorem create_new (h : Numbered f) (name : CStr) :
    (blockCreate name f).blocks[f.blocks.length]? =
      some { name := name, id := f.blocks.length } := by
  simp [blockCreate, h.count]

/-- The chain is built behind the instructions of `block` and in new blocks. -/
structure Lowered (val : LrOperand) (valTy : LrType) (defaultId block : Nat)
    (cases : List SwitchCase) (s s' : FuncParser) : Prop where
  length : s'.func.blocks.length = s.func.blocks.length + (cases.length - 1)
  numbered : Numbered s'.func
  blockMap : s'.blockMap = s.blockMap
  toks : s'.parser.toks = s.parser.toks
  error : s.parser.error.isSome → s'.parser.error.isSome
  quiet : Quiet s.parser → Quiet s'.parser
  others : ∀ i, i ≠ block → i < s.func.blocks.length → s'.func.blocks[i]? = s.func.blocks[i]?
  tail : ∀ b, s.func.blocks[block]? = some b → ∃ tail,
    s'.func.blocks[block]? = some { b with insts := b.insts ++ tail } ∧
    Chain s.parser.builtin val valTy defaultId s'.func s.parser.nextVreg s.func.blocks.length
      tail cases

def icmpInst (types : BuiltinTypes) (val : LrOperand) (valTy : LrType) (cmp : Nat)
    (c : SwitchCase) : LrInst :=
  { lrInstCreate .icmp (some types.typeI1) cmp [val, lrOpImmI64 c.caseVal (some valTy)] with
    payload := .icmpPred .eq }

def condbrInst (types : BuiltinTypes) (cmp : Nat) (c : SwitchCase) (elseId : Nat) : LrInst :=
  lrInstCreate .condbr (some types.typeVoid) 0
    [lrOpVreg cmp (some types.typeI1), lrOpBlock c.blockId, lrOpBlock elseId]

/-- The register and the comparison of a case. -/
theorem compare_run {α : Type} (val : LrOperand) (valTy : LrType) (block : Nat) (c : SwitchCase)
    (s : FuncParser) (k : Nat → F α) :
    ∃ p, (lrVregNew >>= fun cmp =>
        emitIcmp block s.parser.builtin.typeI1 cmp [val, lrOpImmI64 c.caseVal (some valTy)] .eq >>=
          fun _ => k cmp) s =
        k s.parser.nextVreg { s with
          parser := p
          func := appendInsts s.func block
            [icmpInst s.parser.builtin val valTy s.parser.nextVreg c] } ∧
      Recorded s.parser.nextVreg { s.parser with nextVreg := s.parser.nextVreg + 1 } p := by
  have hvreg : lrVregNew s = some (s.parser.nextVreg,
    { s with parser := { s.parser with nextVreg := s.parser.nextVreg + 1 } }) := rfl
  obtain ⟨p, hicmp, hsame⟩ := emitIcmp_run block s.parser.builtin.typeI1 s.parser.nextVreg
    [val, lrOpImmI64 c.caseVal (some valTy)] .eq
    { s with parser := { s.parser with nextVreg := s.parser.nextVreg + 1 } }
  refine ⟨p, ?_, hsame⟩
  rw [run_bind hvreg, run_bind hicmp]
  rfl

theorem lowerCases_run (val : LrOperand) (valTy : LrType) (defaultId : Nat) :
    ∀ (cases : List SwitchCase) (block ci : Nat) (s : FuncParser), cases ≠ [] →
      Numbered s.func → block < s.func.blocks.length →
      ∃ s', lowerCases val valTy defaultId block ci cases s = some ((), s') ∧
        Lowered val valTy defaultId block cases s s'
  | [], _, _, _, hne, _, _ => absurd rfl hne
  | [c], block, ci, s, _, hnum, hblock => by
    have hget : (get : F FuncParser) s = some (s, s) := rfl
    obtain ⟨p, hcompare, hnew⟩ := compare_run val valTy block c s fun cmp =>
      emitInst block .condbr s.parser.builtin.typeVoid 0
        [lrOpVreg cmp (some s.parser.builtin.typeI1), lrOpBlock c.blockId, lrOpBlock defaultId]
    obtain ⟨p', hbr, hsame⟩ := emitInst_run block .condbr s.parser.builtin.typeVoid 0
      [lrOpVreg s.parser.nextVreg (some s.parser.builtin.typeI1), lrOpBlock c.blockId,
        lrOpBlock defaultId]
      { s with
        parser := p
        func := appendInsts s.func block
          [icmpInst s.parser.builtin val valTy s.parser.nextVreg c] }
    simp only [appendInsts_appendInsts] at hbr
    refine ⟨_, (by rw [lowerCases, run_bind hget]; exact hcompare.trans hbr), ?_⟩
    exact
      { length := length_appendInsts
        numbered := hnum.append
        blockMap := rfl
        toks := hsame.toks.trans hnew.toks
        error := fun h => hsame.error (hnew.error h)
        quiet := fun h => hsame.quiet (hnew.quiet_new h)
        others := fun i hi _ => appendInsts_of_ne hi
        tail := fun b hb => ⟨_, appendInsts_self hb, rfl⟩ }
  | c :: c' :: rest, block, ci, s, _, hnum, hblock => by
    have hget : (get : F FuncParser) s = some (s, s) := rfl
    obtain ⟨p, hcompare, hnew⟩ := compare_run val valTy block c s fun cmp => do
      let id ← blockIdAt block
      let next ← createBlock (switchName id ci)
      emitInst block .condbr s.parser.builtin.typeVoid 0
        [lrOpVreg cmp (some s.parser.builtin.typeI1), lrOpBlock c.blockId, lrOpBlock next.1]
      lowerCases val valTy defaultId next.2 (ci + 1) (c' :: rest)
    generalize hf₁ : appendInsts s.func block
      [icmpInst s.parser.builtin val valTy s.parser.nextVreg c] = f₁ at hcompare
    have hnum₁ : Numbered f₁ := hf₁ ▸ hnum.append
    have hlen₁ : f₁.blocks.length = s.func.blocks.length := by rw [← hf₁, length_appendInsts]
    generalize hid : (((f₁.blocks[block]?).map fun b => b.id).getD 0) = id at hcompare
    have hblockId : blockIdAt block { s with parser := p, func := f₁ } =
        some (id, { s with parser := p, func := f₁ }) := by rw [← hid]; rfl
    have hcreate : createBlock (switchName id ci) { s with parser := p, func := f₁ } =
        some ((s.func.blocks.length, s.func.blocks.length),
          { s with parser := p, func := blockCreate (switchName id ci) f₁ }) := by
      rw [createBlock, hnum₁.count, hlen₁]
    obtain ⟨p', hbr, hsame⟩ := emitInst_run block .condbr s.parser.builtin.typeVoid 0
      [lrOpVreg s.parser.nextVreg (some s.parser.builtin.typeI1), lrOpBlock c.blockId,
        lrOpBlock s.func.blocks.length]
      { s with parser := p, func := blockCreate (switchName id ci) f₁ }
    obtain ⟨s', hrest, hlow⟩ := lowerCases_run val valTy defaultId (c' :: rest)
      s.func.blocks.length (ci + 1)
      { s with
        parser := p'
        func := appendInsts (blockCreate (switchName id ci) f₁) block
          [condbrInst s.parser.builtin s.parser.nextVreg c s.func.blocks.length] }
      (cons_ne_nil c' rest) (hnum₁.create _).append (by simp [blockCreate, hlen₁])
    refine ⟨s', ?_, ?_⟩
    · rw [lowerCases, run_bind hget]
      refine hcompare.trans ?_
      rw [run_bind hblockId, run_bind hcreate]
      exact (run_bind hbr).trans hrest
    · have hother : ∀ i, i ≠ block → i < s.func.blocks.length →
          (appendInsts (blockCreate (switchName id ci) f₁) block
            [condbrInst s.parser.builtin s.parser.nextVreg c s.func.blocks.length]).blocks[i]? =
          s.func.blocks[i]? := by
        intro i hi hlt
        rw [appendInsts_of_ne hi, create_old (by rw [hlen₁]; exact hlt), ← hf₁,
          appendInsts_of_ne hi]
      have hne : block ≠ s.func.blocks.length := Nat.ne_of_lt hblock
      exact
        { length := by
            rw [hlow.length]
            simp [blockCreate, hlen₁]
            omega
          numbered := hlow.numbered
          blockMap := hlow.blockMap
          toks := hlow.toks.trans (hsame.toks.trans hnew.toks)
          error := fun h => hlow.error (hsame.error (hnew.error h))
          quiet := fun h => hlow.quiet (hsame.quiet (hnew.quiet_new h))
          others := fun i hi hlt => (hlow.others i (Nat.ne_of_lt hlt)
            (by simp [blockCreate, hlen₁]; omega)).trans (hother i hi hlt)
          tail := by
            intro b hb
            have hlast : (appendInsts (blockCreate (switchName id ci) f₁) block
                [condbrInst s.parser.builtin s.parser.nextVreg c
                  s.func.blocks.length]).blocks[s.func.blocks.length]? =
                some { name := switchName id ci, id := s.func.blocks.length } := by
              rw [appendInsts_of_ne hne.symm, ← hlen₁, create_new hnum₁]
            obtain ⟨tail, htail, hchain⟩ := hlow.tail _ hlast
            refine ⟨linkInsts s.parser.builtin val valTy s.parser.nextVreg c
              s.func.blocks.length, ?_, rfl, _, htail, ?_⟩
            · rw [hlow.others block hne (by simp [blockCreate, hlen₁]; omega)]
              have hfirst : (blockCreate (switchName id ci) f₁).blocks[block]? =
                  some { b with insts := b.insts ++
                    [icmpInst s.parser.builtin val valTy s.parser.nextVreg c] } := by
                rw [create_old (by rw [hlen₁]; exact hblock), ← hf₁, appendInsts_self hb]
              rw [appendInsts_self hfirst]
              simp [linkInsts, icmpInst, condbrInst]
            · have hbuiltin' : p'.builtin = s.parser.builtin := hsame.builtin.trans hnew.builtin
              have hvreg' : p'.nextVreg = s.parser.nextVreg + 1 := hsame.nextVreg.trans hnew.nextVreg
              simpa [hbuiltin', hvreg', blockCreate, hlen₁] using hchain }

end Lowering

/-- Control leaves the block `pred` with these instructions and passes through links
until it reaches a block that is none: the block it comes from, that block, and the
registers. -/
def follow (env : ExecEnv) (g : LrFunc) (isLink : Nat → Bool) :
    Nat → Nat → List LrInst → Regs → Option (Nat × Nat × Regs)
  | 0, _, _, _ => none
  | fuel + 1, pred, insts, ρ =>
    (execBlock env insts ρ).bind fun r =>
      if isLink r.1 then
        (g.blocks[r.1]?).bind fun b => follow env g isLink fuel r.1 b.insts r.2
      else some (pred, r.1, r.2)

/-- The scrutinee has the value of a case. -/
def Matches (env : ExecEnv) (ρ : Regs) (val : LrOperand) (caseVal : BitVec 64) : Prop :=
  SameValue val.type (operandValue env ρ val) caseVal

instance (env : ExecEnv) (ρ : Regs) (val : LrOperand) (caseVal : BitVec 64) :
    Decidable (Matches env ρ val caseVal) :=
  inferInstanceAs (Decidable (SameValue val.type (operandValue env ρ val) caseVal))

/-- What the chain compares with: an immediate of type `i1` is 0 or 1. -/
def caseImm (valTy : LrType) (caseVal : BitVec 64) : BitVec 64 :=
  if valTy.isI1 then if caseVal = 0 then 0 else 1 else caseVal

section Running
variable {env : ExecEnv} {g : LrFunc} {types : BuiltinTypes} {val : LrOperand} {valTy : LrType}
  {defaultId : Nat} {isLink : Nat → Bool}

/-- A link goes to its case or on. -/
theorem execBlock_link (cmp : Nat) (c : SwitchCase) (elseId : Nat) (ρ : Regs) :
    execBlock env (linkInsts types val valTy cmp c elseId) ρ =
      some (if Matches env ρ val (caseImm valTy c.caseVal) then c.blockId else elseId,
        setReg ρ cmp (if Matches env ρ val (caseImm valTy c.caseVal) then 1 else 0)) := by
  have himm : operandValue env ρ (lrOpImmI64 c.caseVal (some valTy)) =
      caseImm valTy c.caseVal := by
    simp [operandValue, lrOpImmI64, caseImm]
  have hicmp : icmpHolds .eq val.type (operandValue env ρ val) (caseImm valTy c.caseVal) =
      decide (Matches env ρ val (caseImm valTy c.caseVal)) := rfl
  have hcmp : execInst env ρ
      { lrInstCreate .icmp (some types.typeI1) cmp [val, lrOpImmI64 c.caseVal (some valTy)] with
        payload := .icmpPred .eq } =
      setReg ρ cmp (if Matches env ρ val (caseImm valTy c.caseVal) then 1 else 0) := by
    simp only [execInst, lrInstCreate, himm, hicmp, decide_eq_true_eq]
  have hcond : operandValue env (setReg ρ cmp
      (if Matches env ρ val (caseImm valTy c.caseVal) then 1 else 0))
      (lrOpVreg cmp (some types.typeI1)) =
        if Matches env ρ val (caseImm valTy c.caseVal) then 1 else 0 := setReg_self ρ cmp _
  have hexec : execBlock env (linkInsts types val valTy cmp c elseId) ρ =
      some (if (operandValue env (setReg ρ cmp
          (if Matches env ρ val (caseImm valTy c.caseVal) then 1 else 0))
          (lrOpVreg cmp (some types.typeI1))).getLsbD 0 then c.blockId else elseId,
        setReg ρ cmp (if Matches env ρ val (caseImm valTy c.caseVal) then 1 else 0)) := by
    rw [← hcmp]
    rfl
  rw [hexec, hcond]
  by_cases h : Matches env ρ val (caseImm valTy c.caseVal)
  · simp [h]
  · simp [h]

theorem operandValue_setReg {v : Nat} (ρ : Regs) (x : BitVec 64)
    (h : ∀ u, val.value = .vreg u → u ≠ v) :
    operandValue env (setReg ρ v x) val = operandValue env ρ val := by
  unfold operandValue
  cases hval : val.value with
  | vreg u => exact setReg_of_ne ρ x (h u hval)
  | _ => rfl

/-- The block that the chain selects. -/
def selectedBlock (env : ExecEnv) (ρ : Regs) (val : LrOperand) (valTy : LrType) (defaultId : Nat)
    (cases : List SwitchCase) : Nat :=
  ((cases.find? fun c => decide (Matches env ρ val (caseImm valTy c.caseVal))).map
    fun c => c.blockId).getD defaultId

/-- Control leaves through the first comparison. -/
def LeavesFirst (env : ExecEnv) (ρ : Regs) (val : LrOperand) (valTy : LrType) :
    List SwitchCase → Prop
  | [] => True
  | c :: rest => rest = [] ∨ Matches env ρ val (caseImm valTy c.caseVal)

/-- The chain leads to the block that its cases select. It changes the registers of its
comparisons only, and it is left from its first block or from a link. -/
theorem follow_chain : ∀ (cases : List SwitchCase) (cmp link pred fuel : Nat) (tail : List LrInst)
    (ρ : Regs), Chain types val valTy defaultId g cmp link tail cases →
    (∀ i, link ≤ i → i < link + (cases.length - 1) → isLink i = true) →
    (∀ c ∈ cases, isLink c.blockId = false) → isLink defaultId = false →
    (∀ v, val.value = .vreg v → v < cmp) → cases.length ≤ fuel →
    ∃ pred' ρ', follow env g isLink fuel pred tail ρ =
        some (pred', selectedBlock env ρ val valTy defaultId cases, ρ') ∧
      (∀ v, v < cmp ∨ cmp + cases.length ≤ v → ρ' v = ρ v) ∧
      (LeavesFirst env ρ val valTy cases → pred' = pred) ∧
      (¬ LeavesFirst env ρ val valTy cases → isLink pred' = true)
  | [], _, _, _, _, _, _, hchain, _, _, _, _, _ => hchain.elim
  | [c], cmp, link, pred, fuel, tail, ρ, hchain, _, hcases, hdefault, _, hfuel => by
    obtain ⟨fuel, rfl⟩ := Nat.exists_eq_add_of_lt hfuel
    obtain rfl : tail = linkInsts types val valTy cmp c defaultId := hchain
    have hselected : selectedBlock env ρ val valTy defaultId [c] =
        if Matches env ρ val (caseImm valTy c.caseVal) then c.blockId else defaultId := by
      by_cases h : Matches env ρ val (caseImm valTy c.caseVal)
      · simp [selectedBlock, h]
      · simp [selectedBlock, h]
    have hnot : isLink (selectedBlock env ρ val valTy defaultId [c]) = false := by
      rw [hselected]
      split
      · exact hcases c mem_cons_self
      · exact hdefault
    refine ⟨pred, setReg ρ cmp (if Matches env ρ val (caseImm valTy c.caseVal) then 1 else 0),
      ?_, ?_, fun _ => rfl, fun h => absurd (.inl rfl) h⟩
    · have hstep : ([] : List SwitchCase).length + fuel + 1 = fuel + 1 := by simp
      rw [hstep, follow, execBlock_link, Option.bind_some, ← hselected, hnot]
      rfl
    · intro v hv
      refine setReg_of_ne ρ _ ?_
      rw [length_singleton] at hv
      omega
  | c :: c' :: rest, cmp, link, pred, fuel, tail, ρ, hchain, hlinks, hcases, hdefault, hval,
      hfuel => by
    obtain ⟨fuel, rfl⟩ := Nat.exists_eq_add_of_lt hfuel
    obtain ⟨rfl, blk, hblk, hrest⟩ := hchain
    have hlen : (c' :: rest).length = rest.length + 1 := rfl
    by_cases h : Matches env ρ val (caseImm valTy c.caseVal)
    · have hselected : selectedBlock env ρ val valTy defaultId (c :: c' :: rest) = c.blockId := by
        simp [selectedBlock, h]
      refine ⟨pred, setReg ρ cmp 1, ?_, ?_, fun _ => rfl, fun hne => absurd (.inr h) hne⟩
      · rw [follow, execBlock_link, Option.bind_some, hselected, if_pos h, if_pos h]
        simp only [hcases c mem_cons_self]
        rfl
      · intro v hv
        refine setReg_of_ne ρ _ ?_
        rw [length_cons] at hv
        omega
    · have hsame : ∀ x, Matches env (setReg ρ cmp 0) val x ↔ Matches env ρ val x := by
        intro x
        rw [Matches, Matches, operandValue_setReg ρ 0 fun u hu => (hval u hu).ne]
      have hselected : selectedBlock env ρ val valTy defaultId (c :: c' :: rest) =
          selectedBlock env (setReg ρ cmp 0) val valTy defaultId (c' :: rest) := by
        simp only [selectedBlock, hsame]
        rw [find?_cons_of_neg (by simpa using h)]
      have hlink : isLink link = true := hlinks link le_rfl (by rw [length_cons]; omega)
      obtain ⟨pred', ρ', hfollow, hregs, hfirst, hlater⟩ := follow_chain (c' :: rest) (cmp + 1)
        (link + 1) link ((c' :: rest).length + fuel) blk.insts (setReg ρ cmp 0) hrest
        (fun i hi hi' => hlinks i (by omega) (by rw [length_cons]; omega))
        (fun d hd => hcases d (mem_cons_of_mem c hd)) hdefault
        (fun v hv => (hval v hv).trans (Nat.lt_succ_self cmp)) (Nat.le_add_right _ _)
      refine ⟨pred', ρ', ?_, ?_, ?_, ?_⟩
      · rw [follow, execBlock_link, Option.bind_some, if_neg h, if_neg h]
        simp only [hlink, if_true, hblk, Option.bind_some]
        rw [hselected]
        exact hfollow
      · intro v hv
        rw [length_cons] at hv
        rw [hregs v (by omega), setReg_of_ne ρ 0 (by omega)]
      · rintro (hnil | hmatch)
        · cases hnil
        · exact absurd hmatch h
      · intro _
        by_cases hfirst' : LeavesFirst env (setReg ρ cmp 0) val valTy (c' :: rest)
        · rw [hfirst hfirst']
          exact hlink
        · exact hlater hfirst'

end Running

end Liric.Guarantees.SwitchLowering
