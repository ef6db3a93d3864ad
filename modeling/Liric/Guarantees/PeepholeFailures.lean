import Liric.Guarantees.PeepholeRewrites

/-!
# Where lanes meet

For every kind of instruction that is not safe there are constants with which the pass
gets a lane wrong: a carry, a borrow or a shifted bit crosses into it, a quotient or a
comparison of the packed words says nothing about it, or the one of an identity is missing
from it.
-/
namespace Liric.Guarantees.Peephole
open Source.Ir Source.Ll List
open IntegerWidths (BinOp icmpMeaning IntTy)

variable {t : IntTy} {n : Nat} {k : Kind}

def vectorType (t : IntTy) (n : Nat) : LrType := .vector 0 (.scalar 0 t.kind) (BitVec.ofNat 64 n)

/-- The operand the text parser makes of `<t v0, t v1, ...>`. -/
def packed (t : IntTy) (n : Nat) (vs : List (BitVec 64)) : Option LrOperand :=
  let elem := LrType.scalar 0 t.kind
  let total := (lrTypeSize (vectorType t n)).toNat
  match packElems elem n total (vs.map fun v => lrOpImmI64 v (some elem)) 0 zeroBuf with
  | some (some buf) => some (lrOpImmI64 (packedVal buf total) (some (vectorType t n)))
  | _ => none

variable {vs : List (BitVec 64)}

theorem isConstant_packed {o : LrOperand} (hn : n < 2 ^ 64)
    (hlen : vs.length = n) (h : packed t n vs = some o) :
    IsConstant (.vector t n) o := by
  simp only [packed] at h
  split at h
  · rename_i buf hpack
    cases h
    refine ⟨0, 0, BitVec.ofNat 64 n, _, buf, ?_, ?_, ?_, hpack, rfl⟩
    · rw [BitVec.toNat_ofNat, Nat.mod_eq_of_lt hn]
    · rw [length_map, hlen]
    · intro e he
      obtain ⟨v, -, rfl⟩ := mem_map.1 he
      exact .inl ⟨0, v, rfl⟩
  · cases h

/-- A constant with the given lanes, or a register. -/
def operandOf (t : IntTy) (n : Nat) (imm : Bool) (vs : List (BitVec 64)) (reg : Nat) :
    Option LrOperand :=
  if imm then packed t n vs else some (lrOpVreg reg (some (vectorType t n)))

theorem operandOf_spec {imm : Bool} {reg : Nat} {o : LrOperand}
    (hn : n < 2 ^ 64) (hlen : vs.length = n) (h : operandOf t n imm vs reg = some o) :
    OperandOf (.vector t n) imm o := by
  have hcount : (BitVec.ofNat 64 n).toNat = n := by
    rw [BitVec.toNat_ofNat, Nat.mod_eq_of_lt hn]
  cases imm with
  | true =>
    have hconst := isConstant_packed hn hlen h
    obtain ⟨addr, addr', count, elems, buf, hcount, -, -, -, rfl⟩ := hconst
    exact ⟨⟨addr, addr', count, rfl, hcount⟩, fun _ => isConstant_packed hn hlen h, nofun⟩
  | false =>
    cases h
    exact ⟨⟨0, 0, _, rfl, hcount⟩, nofun, fun _ v hv => by cases hv⟩

/-- A lane of its own, and the same in all others. -/
def lanesOf (n : Nat) (lanes : BitVec 64 × BitVec 64) : List (BitVec 64) :=
  lanes.1 :: List.replicate (n - 1) lanes.2

/-- Constants with which one lane of the operation disturbs another. -/
def binaryLanes (op : BinOp) (immR : Bool) : (BitVec 64 × BitVec 64) × (BitVec 64 × BitVec 64) :=
  match op with
  | .add => ((-1, 0), (1, 0))
  | .sub => ((0, 0), (1, 0))
  | .mul => ((1, if immR then 1 else 0), (1, 0))
  | .sdiv | .udiv => ((1, 1), (1, 1))
  | .srem | .urem => ((1, 0), (1, 1))
  | _ => ((1, 1), (1, 0))

/-- Constants for which the comparison holds in every lane. -/
def icmpLanes (pred : IcmpPred) (t : IntTy) : BitVec 64 × BitVec 64 :=
  match pred with
  | .eq | .uge | .ule => (0, 0)
  | .ne | .ugt => (1, 0)
  | .ult => (0, 1)
  | .sgt | .sge => if t = .i1 then (0, 1) else (1, 0)
  | .slt | .sle => if t = .i1 then (1, 0) else (0, 1)

def sampleInst (t : IntTy) (n : Nat) : Kind → Option LrInst
  | .binary op immL immR => do
    let lanes := binaryLanes op immR
    let a ← operandOf t n immL (lanesOf n lanes.1) 1
    let b ← operandOf t n immR (lanesOf n lanes.2) 2
    some (lrInstCreate op.opcode (some (vectorType t n)) 3 [a, b])
  | .icmp pred immL immR => do
    let lanes := icmpLanes pred t
    let a ← operandOf t n immL (lanesOf n (lanes.1, lanes.1)) 1
    let b ← operandOf t n immR (lanesOf n (lanes.2, lanes.2)) 2
    some { lrInstCreate .icmp (some (vectorType .i1 n)) 3 [a, b] with payload := .icmpPred pred }
  | .select _ immC immX immY => do
    let c ← operandOf .i1 n immC (lanesOf n (1, 0)) 1
    let a ← operandOf t n immX (lanesOf n (0, 0)) 0
    let b ← operandOf t n immY (lanesOf n (1, 1)) 2
    some (lrInstCreate .select (some (vectorType t n)) 3 [c, a, b])

/-- The first register is zero, all bits of the others are set. -/
def sampleWords (o : LrOperand) : BitVec 64 := if o.value = .vreg 0 then 0 else -1

theorem length_lanesOf (hn : 0 < n) (lanes : BitVec 64 × BitVec 64) :
    (lanesOf n lanes).length = n := by
  rw [lanesOf, length_cons, length_replicate]
  omega

/-- Of the selects only those with a vector for a condition have a sample. -/
theorem instOf_sample {inst : LrInst} (hn : 0 < n) (hn' : n < 2 ^ 64)
    (hk : ∀ immC immX immY, k ≠ .select false immC immX immY) (h : sampleInst t n k = some inst) :
    k.InstOf (.vector t n) inst := by
  have htype : (IntShape.vector t n).Is (some (vectorType t n)) :=
    ⟨0, 0, _, rfl, by rw [BitVec.toNat_ofNat, Nat.mod_eq_of_lt hn']⟩
  cases k with
  | binary op immL immR =>
    obtain ⟨a, ha, h⟩ := Option.bind_eq_some_iff.1 h
    obtain ⟨b, hb, h⟩ := Option.bind_eq_some_iff.1 h
    cases h
    exact ⟨rfl, htype, a, b, rfl, operandOf_spec hn' (length_lanesOf hn _) ha,
      operandOf_spec hn' (length_lanesOf hn _) hb⟩
  | icmp pred immL immR =>
    obtain ⟨a, ha, h⟩ := Option.bind_eq_some_iff.1 h
    obtain ⟨b, hb, h⟩ := Option.bind_eq_some_iff.1 h
    cases h
    exact ⟨rfl, rfl, a, b, rfl, operandOf_spec hn' (length_lanesOf hn _) ha,
      operandOf_spec hn' (length_lanesOf hn _) hb⟩
  | select vectorCond immC immX immY =>
    obtain ⟨c, hc, h⟩ := Option.bind_eq_some_iff.1 h
    obtain ⟨a, ha, h⟩ := Option.bind_eq_some_iff.1 h
    obtain ⟨b, hb, h⟩ := Option.bind_eq_some_iff.1 h
    cases h
    cases vectorCond with
    | false => exact absurd rfl (hk immC immX immY)
    | true =>
      exact ⟨rfl, htype, c, a, b, rfl, operandOf_spec hn' (length_lanesOf hn _) hc,
        operandOf_spec hn' (length_lanesOf hn _) ha, operandOf_spec hn' (length_lanesOf hn _) hb⟩

/-- The pass replaces the sample by an operand with a wrong lane. -/
def sampleFails (t : IntTy) (n : Nat) (k : Kind) : Bool :=
  let s := IntShape.vector t n
  (sampleInst t n k).any fun inst =>
    (tryInstReplacement inst).any fun out =>
      (!k.divides || (List.range n).all fun i =>
        (k.laneMeaning s sampleWords i inst.operands).isSome) &&
      (List.range n).any fun i =>
        (k.laneMeaning s sampleWords i inst.operands).any fun z =>
          ((k.resultShape s).lane (operandWord sampleWords out) i).toNat != z

theorem not_denotes_sample (h : sampleFails t n k = true) :
    ∃ inst, sampleInst t n k = some inst ∧ ¬ k.Denotes (.vector t n) inst := by
  obtain ⟨inst, hinst, h⟩ := (Option.any_eq_true _ _).1 h
  obtain ⟨out, hout, h⟩ := (Option.any_eq_true _ _).1 h
  obtain ⟨hexec, hlane⟩ := Bool.and_eq_true_iff.1 h
  obtain ⟨i, hi, hlane⟩ := any_eq_true.1 hlane
  obtain ⟨z, hz, hne⟩ := (Option.any_eq_true _ _).1 hlane
  refine ⟨inst, hinst, fun hdenotes => ?_⟩
  have hexecutes : k.Executes (.vector t n) sampleWords inst.operands := by
    intro hdivides j hj
    rw [hdivides, Bool.not_true, Bool.false_or, all_eq_true] at hexec
    exact hexec j (mem_range.2 hj)
  have heq := hdenotes sampleWords out hout hexecutes i (mem_range.1 hi) z hz
  rw [heq] at hne
  simp at hne

def bools : List Bool := [false, true]

def kinds : List Kind :=
  ([.add, .sub, .mul, .and, .or, .xor, .shl, .lshr, .ashr, .sdiv, .srem, .udiv, .urem].flatMap
    fun op => bools.flatMap fun immL => bools.map fun immR => Kind.binary op immL immR) ++
  ([.eq, .ne, .sgt, .sge, .slt, .sle, .ugt, .uge, .ult, .ule].flatMap
    fun pred => bools.flatMap fun immL => bools.map fun immR => Kind.icmp pred immL immR) ++
  (bools.flatMap fun vectorCond => bools.flatMap fun immC => bools.flatMap fun immX =>
    bools.map fun immY => Kind.select vectorCond immC immX immY)

theorem mem_kinds (k : Kind) : k ∈ kinds := by
  cases k with
  | binary op immL immR => cases op <;> cases immL <;> cases immR <;> decide
  | icmp pred immL immR => cases pred <;> cases immL <;> cases immR <;> decide
  | select vectorCond immC immX immY =>
    cases vectorCond <;> cases immC <;> cases immX <;> cases immY <;> decide

/-- The vectors that fit a word. -/
def vectors : List (IntTy × Nat) :=
  [.i1, .i8, .i16, .i32, .i64].flatMap fun t =>
    ((List.range 9).filter fun n => decide (IntShape.vector t n).Valid).map (t, ·)

theorem lanes_le_eight (hs : (IntShape.vector t n).Valid) : n ≤ 8 := by
  obtain ⟨hn, hle⟩ := hs
  have hstorage : 8 ≤ storageBits t := by cases t <;> decide
  have hmul := Nat.mul_le_mul_right n hstorage
  omega

theorem mem_vectors (hs : (IntShape.vector t n).Valid) : (t, n) ∈ vectors := by
  have hn : n < 9 := Nat.lt_succ_of_le (lanes_le_eight hs)
  have htype : t ∈ [IntTy.i1, .i8, .i16, .i32, .i64] := by cases t <;> decide
  refine mem_flatMap.2 ⟨t, htype, mem_map.2 ⟨n, ?_, rfl⟩⟩
  exact mem_filter.2 ⟨mem_range.2 hn, decide_eq_true hs⟩

instance : ∀ k s, Decidable (Kind.Safe k s)
  | .binary op immL immR, s => by unfold Kind.Safe; cases op <;> infer_instance
  | .icmp pred immL immR, s => by unfold Kind.Safe; infer_instance
  | .select vectorCond immC immX immY, s => by unfold Kind.Safe; infer_instance

theorem samples_fail :
    (vectors.all fun v => kinds.all fun k =>
      decide (k.Safe (.vector v.1 v.2)) || sampleFails v.1 v.2 k) = true := by
  decide +kernel

/-- Constants of a vector are folded wrongly unless the kind says they are not folded. -/
theorem not_denotes_of_not_safe {s : IntShape} (hs : s.Valid) (hsafe : ¬ k.Safe s) :
    ∃ inst, k.InstOf s inst ∧ ¬ k.Denotes s inst := by
  cases s with
  | scalar t =>
    refine absurd ?_ hsafe
    cases k with
    | binary => exact .inl rfl
    | icmp => exact .inr ⟨rfl, nofun⟩
    | select => exact .inr (.inr rfl)
  | vector t n =>
    have hfails : sampleFails t n k = true := by
      have hall := all_eq_true.1 samples_fail (t, n) (mem_vectors hs)
      have hkind := all_eq_true.1 hall k (mem_kinds k)
      rw [decide_eq_false hsafe, Bool.false_or] at hkind
      exact hkind
    obtain ⟨inst, hinst, hwrong⟩ := not_denotes_sample hfails
    have hscalarCond : ∀ immC immX immY, k ≠ .select false immC immX immY := by
      intro immC immX immY heq
      subst heq
      exact hsafe (.inr (.inl rfl))
    have hsmall : n < 2 ^ 64 := lt_of_le_of_lt (lanes_le_eight hs) (by decide)
    exact ⟨inst, instOf_sample hs.1 hsmall hscalarCond hinst, hwrong⟩

/-- The local rewrites are right about scalars, about vectors of one element, about logic,
and wherever they fold no constants of a vector. -/
theorem rewrites_denote_iff (k : Kind) (s : IntShape) (hs : s.Valid) (hk : k.Fits s) :
    (∀ inst, k.InstOf s inst → k.Denotes s inst) ↔ k.Safe s := by
  constructor
  · intro hall
    by_contra hsafe
    obtain ⟨inst, hinst, hwrong⟩ := not_denotes_of_not_safe hs hsafe
    exact hwrong (hall inst hinst)
  · intro hsafe inst hinst
    exact denotes_of_safe hs hk hsafe hinst

theorem rewrites_denote_iff_shl :
    (∀ inst, (Kind.binary .shl true true).InstOf (.vector .i32 1) inst →
      (Kind.binary .shl true true).Denotes (.vector .i32 1) inst) ↔
        (Kind.binary .shl true true).Safe (.vector .i32 1) :=
  rewrites_denote_iff (.binary .shl true true) (.vector .i32 1) (by decide) trivial

/-- `add <2 x i8> <i8 -1, i8 0>, <i8 1, i8 0>`, of which the pass makes `<i8 0, i8 1>`. -/
def carryingAdd : LrInst :=
  lrInstCreate .add (some (vectorType .i8 2)) 3
    [lrOpImmI64 0xff (some (vectorType .i8 2)), lrOpImmI64 1 (some (vectorType .i8 2))]

theorem rewrites_denote_carry :
    (Kind.binary .add true true).InstOf (.vector .i8 2) carryingAdd ∧
      tryInstReplacement carryingAdd = some (lrOpImmI64 0x100 (some (vectorType .i8 2))) ∧
      ¬ (Kind.binary .add true true).Denotes (.vector .i8 2) carryingAdd := by
  have hsample : sampleInst .i8 2 (.binary .add true true) = some carryingAdd := by decide
  have hfails : sampleFails .i8 2 (.binary .add true true) = true := by decide
  refine ⟨instOf_sample (by decide) (by decide) nofun hsample, by decide, ?_⟩
  obtain ⟨inst, hinst, hwrong⟩ := not_denotes_sample hfails
  rw [hsample] at hinst
  cases hinst
  exact hwrong

end Liric.Guarantees.Peephole
