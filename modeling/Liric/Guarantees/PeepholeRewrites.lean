import Liric.Guarantees.PeepholeLanes

/-!
# The local rewrites of the peephole pass

The pass folds a vector constant like one wide integer. Which kinds of instructions it is
right about, and that it is wrong about some instruction of every other kind.
-/
namespace Liric.Guarantees.Peephole
open Source.Ir Source.Ll Lib Option IntShape
open IntegerWidths (BinOp icmpMeaning IntTy)

variable {o a b : LrOperand} {type : Option LrType} {l r u : BitVec 64} {op : BinOp} {n : Nat}
  {holds : BitVec 64 → Bool} {pred : IcmpPred}

variable {s : IntShape} {ρ : LrOperand → BitVec 64} {i : Nat}

variable {w : BitVec 64}

theorem operandWord_imm (h : o.value = .immI64 w) : operandWord ρ o = w := by
  rw [operandWord, h]

theorem isI1_of_is (hs : s.Is type) (h : type.any LrType.isI1 = true) : s = .scalar .i1 := by
  cases s with
  | scalar t =>
    obtain ⟨addr, rfl⟩ := hs
    cases t <;> first | rfl | cases h
  | vector t n =>
    obtain ⟨addr, addr', count, rfl, -⟩ := hs
    cases h

/-- The lanes of a folded result are those of its word. -/
theorem lane_folded (hs : s.Valid) (htype : s.Is type) (u : BitVec 64) (hi : i < s.lanes) :
    s.lane (operandWord ρ (lrOpImmI64 (intSignExtendBits u s.foldBits) type)) i = s.lane u i := by
  obtain ⟨hpos, hle⟩ := foldBits_bounds hs
  rw [operandWord_imm (lrOpImmI64_value _ type)]
  by_cases hone : type.any LrType.isI1 = true
  · obtain rfl := isI1_of_is htype hone
    obtain rfl : i = 0 := Nat.lt_one_iff.1 hi
    rw [if_pos hone, intSignExtendBits_eq u hpos hle]
    change (if (u.setWidth 1).signExtend 64 ≠ 0 then 1 else 0 : BitVec 64).setWidth 1 = u.setWidth 1
    generalize u.setWidth 1 = x
    revert x
    decide
  · rw [if_neg hone]
    exact lane_congr (setWidth_intSignExtendBits u hpos hle) hi

/-- A single lane is in the low bits. -/
theorem lane_eq_setWidth (hlanes : s.lanes = 1) (hi : i < s.lanes) (x : BitVec 64) :
    s.lane x i = x.setWidth s.elem.bits := by
  obtain rfl : i = 0 := by omega
  rw [lane, Nat.mul_zero, BitVec.ushiftRight_zero]

/-- A single lane is as wide as what the pass computes, but for a vector of one bit. -/
theorem foldBits_of_single (hlanes : s.lanes = 1) :
    s.foldBits = s.elem.bits ∨ s = .vector .i1 1 := by
  cases s with
  | scalar t => exact .inl rfl
  | vector t n =>
    obtain rfl : n = 1 := hlanes
    cases t <;> first | exact .inl rfl | exact .inr rfl

variable {z : BitVec s.elem.bits}

theorem foldIntWords_single (hs : s.Valid) (hlanes : s.lanes = 1) (op : BinOp)
    (hl : s.elem = .i1 → I1Word s.lanes l) (hr : s.elem = .i1 → I1Word s.lanes r)
    (hfold : foldIntWords op.opcode s.foldBits l r = some u) (hi : i < s.lanes) (hz : op.meaning (s.lane l i) (s.lane r i) = some z) :
    s.lane u i = z := by
  obtain hwidth | rfl := foldBits_of_single hlanes
  · obtain ⟨hpos, hle⟩ := foldBits_bounds hs
    rw [hwidth] at hfold hpos hle
    rw [lane_eq_setWidth hlanes hi] at hz ⊢
    rw [lane_eq_setWidth hlanes hi] at hz
    exact foldIntWords_meaning op hpos hle hfold hz
  · obtain rfl : i = 0 := by omega
    have hfour : ∀ op : BinOp, ∀ l ∈ [0#64, 1#64], ∀ r ∈ [0#64, 1#64],
        ((op.meaning (l.setWidth 1) (r.setWidth 1)).all fun z =>
          (foldIntWords op.opcode 8 l r).all fun u => u.setWidth 1 == z) = true := by
      intro op
      simp only [List.forall_mem_cons, List.not_mem_nil, false_imp_iff, implies_true, and_true]
      cases op <;> decide +kernel
    have hmem : ∀ x : BitVec 64, I1Word 1 x → x ∈ [0#64, 1#64] := by
      intro x hx
      obtain rfl | rfl := hx.eq_bool
      · exact List.mem_cons_self
      · exact List.mem_cons_of_mem _ List.mem_cons_self
    have hall := hfour op l (hmem l (hl rfl)) r (hmem r (hr rfl))
    rw [show op.meaning (l.setWidth 1) (r.setWidth 1) = some z from hz,
      show foldIntWords op.opcode 8 l r = some u from hfold] at hall
    have heq : (u.setWidth 1 : BitVec 1) = z := beq_iff_eq.1 hall
    exact heq

/-- Logic on a wide integer is logic in every lane. -/
theorem foldIntWords_logic (hs : s.Valid) (hop : op = .and ∨ op = .or ∨ op = .xor)
    (hfold : foldIntWords op.opcode s.foldBits l r = some u) (hi : i < s.lanes) (hz : op.meaning (s.lane l i) (s.lane r i) = some z) :
    s.lane u i = z := by
  obtain ⟨hpos, hle⟩ := foldBits_bounds hs
  have hmask : ∀ x : BitVec 64, s.lane (x &&& intMaskForBits s.foldBits) i = s.lane x i :=
    fun x => lane_congr (setWidth_and_mask x hpos hle) hi
  have hbits : ∀ x : BitVec 64, s.lane (intToUnsignedBits x s.foldBits) i = s.lane x i := hmask
  obtain rfl | rfl | rfl := hop
  · cases hfold
    cases hz
    rw [hmask, lane_and, hbits, hbits]
  · cases hfold
    cases hz
    rw [hmask, lane_or, hbits, hbits]
  · cases hfold
    cases hz
    rw [hmask, lane_xor, hbits, hbits]

/-- A signed division of single bits has a result only where it is zero. -/
theorem foldIntWords_i1_signed (hs : (vector .i1 n).Valid) (hop : op = .sdiv ∨ op = .srem)
    (hl : I1Word n l) (hfold : foldIntWords op.opcode (vector .i1 n).foldBits l r = some u)
    (hall : ∀ j, j < n → (op.meaning ((vector .i1 n).lane l j)
      ((vector .i1 n).lane r j)).isSome = true) (hi : i < n) {z : BitVec 1}
    (hz : op.meaning ((vector .i1 n).lane l i) ((vector .i1 n).lane r i) =
      some z) : (vector .i1 n).lane u i = z := by
  have hbits : ∀ a b : BitVec 1, (op.meaning a b).isSome = true →
      a = 0#1 ∧ op.meaning a b = some 0#1 := by
    obtain rfl | rfl := hop <;> decide
  have hzero : l = 0 := by
    refine hl.eq_zero fun j hj => ?_
    have hlane := (hbits _ _ (hall j hj)).1
    have hbit := getLsbD_lane (s := .vector .i1 n) l j 0
    rw [show (vector .i1 n).lane l j = 0#1 from hlane] at hbit
    simpa [elem, IntTy.bits, storageBits] using hbit.symm
  have hres : z = 0#1 := Option.some.inj (hz.symm.trans (hbits _ _ (hall i hi)).2)
  have hword : u = 0 := by
    obtain ⟨hpos, hle⟩ := foldBits_bounds hs
    have hunsigned : intToUnsignedBits l (vector .i1 n).foldBits = 0 := by
      rw [hzero, intToUnsignedBits]
      exact BitVec.zero_and
    have hsigned : intSignExtendBits 0 (vector .i1 n).foldBits = 0 := by
      change intSignExtendBits 0#64 _ = 0#64
      rw [intSignExtendBits_eq _ hpos hle, BitVec.setWidth_zero,
        BitVec.signExtend_eq_setWidth_of_msb_false BitVec.msb_zero, BitVec.setWidth_zero]
    obtain rfl | rfl := hop
    · simp only [foldIntWords, BinOp.opcode, hunsigned, hsigned] at hfold
      obtain ⟨-, hfold⟩ := ite_none_left_eq_some.1 hfold
      obtain ⟨-, hfold⟩ := ite_none_left_eq_some.1 hfold
      cases hfold
      simp
    · simp only [foldIntWords, BinOp.opcode, hunsigned, hsigned] at hfold
      obtain ⟨-, hfold⟩ := ite_none_left_eq_some.1 hfold
      obtain ⟨-, hfold⟩ := ite_none_left_eq_some.1 hfold
      cases hfold
      simp
  rw [hres, hword]
  exact lane_zero (s := .vector .i1 n) i

/-- Bytes of zero and one do not carry into the next byte. -/
theorem I1Word.getLsbD_add (hl : I1Word n l) (hr : I1Word n r) {j : Nat} (hj : 8 * j < 64) :
    (l + r).getLsbD (8 * j) = (l.getLsbD (8 * j) ^^ r.getLsbD (8 * j)) := by
  have hcarry : BitVec.carry (8 * j) l r false = false := by
    cases j with
    | zero => rw [Nat.mul_zero, BitVec.carry_zero]
    | succ j =>
      have hbelow : ∀ {w : BitVec 64}, I1Word n w → w.getLsbD (8 * j + 7) = false := by
        intro w hw
        by_contra hne
        have hmod := (hw (8 * j + 7) (by simpa using hne)).1
        omega
      rw [show 8 * (j + 1) = (8 * j + 7) + 1 by omega, BitVec.carry_succ, hbelow hl, hbelow hr]
      rfl
  rw [BitVec.getLsbD_add hj, hcarry, Bool.xor_false]

theorem foldIntWords_i1_add (hs : (vector .i1 n).Valid) (hl : I1Word n l) (hr : I1Word n r)
    (hfold : foldIntWords .add (vector .i1 n).foldBits l r = some u) (hi : i < n) :
    (vector .i1 n).lane u i =
      (vector .i1 n).lane l i + (vector .i1 n).lane r i := by
  obtain ⟨hpos, hle⟩ := foldBits_bounds hs
  have hi' : i < (vector .i1 n).lanes := hi
  have hlt : 8 * i < 64 := by
    have hwithin := lane_le_foldBits hi'
    change 8 * i + 1 ≤ _ at hwithin
    omega
  have hsum : (vector .i1 n).lane u i = (vector .i1 n).lane (l + r) i := by
    cases hfold
    refine lane_congr ?_ hi'
    rw [setWidth_and_mask _ hpos hle, BitVec.setWidth_add _ _ hle, BitVec.setWidth_add _ _ hle,
      intToUnsignedBits, intToUnsignedBits, setWidth_and_mask _ hpos hle,
      setWidth_and_mask _ hpos hle]
  rw [hsum]
  have hone : ∀ a b c : BitVec 1, c.getLsbD 0 = (a.getLsbD 0 ^^ b.getLsbD 0) → c = a + b := by
    decide
  have hbit : ∀ w : BitVec 64, ((vector .i1 n).lane w i : BitVec 1).getLsbD 0 =
      w.getLsbD (8 * i) := by
    intro w
    have h := getLsbD_lane (s := .vector .i1 n) w i 0
    simpa [elem, IntTy.bits, storageBits] using h
  have hbytes : ((vector .i1 n).lane (l + r) i : BitVec 1).getLsbD 0 =
      (l.getLsbD (8 * i) ^^ r.getLsbD (8 * i)) := (hbit (l + r)).trans (hl.getLsbD_add hr hlt)
  exact hone _ _ _ (hbytes.trans (congrArg₂ xor (hbit l).symm (hbit r).symm))

theorem isImm_iff :
    o.isImm holds = true ↔ ∃ w, o.value = .immI64 w ∧ holds w = true := by
  unfold LrOperand.isImm
  cases o.value <;> simp

theorem foldRight_cases {out : LrOperand} (h : foldRight holds a b = some out) :
    out = a ∧ ∃ w, b.value = .immI64 w ∧ holds w = true := by
  obtain ⟨himm, hout⟩ := ite_none_right_eq_some.1 h
  cases hout
  exact ⟨rfl, isImm_iff.1 himm⟩

theorem foldEither_cases {out : LrOperand} (h : foldEither holds a b = some out) :
    (out = b ∧ ∃ w, a.value = .immI64 w ∧ holds w = true) ∨
      (out = a ∧ ∃ w, b.value = .immI64 w ∧ holds w = true) := by
  unfold foldEither at h
  split at h
  · rename_i himm
    cases h
    exact .inl ⟨rfl, isImm_iff.1 himm⟩
  · exact .inr (foldRight_cases h)

/-- The immediate that an identity is about, in lane `i`. -/
theorem lane_of_zero (h : ∃ w, o.value = .immI64 w ∧ (w == 0) = true) :
    s.lane (operandWord ρ o) i = 0#s.elem.bits := by
  obtain ⟨w, hw, hzero⟩ := h
  rw [operandWord_imm hw, beq_iff_eq.1 hzero, lane_zero]
  rfl

theorem lane_of_one (h : ∃ w, o.value = .immI64 w ∧ (w == 1) = true) :
    s.lane (operandWord ρ o) i = if i = 0 then 1#s.elem.bits else 0#s.elem.bits := by
  obtain ⟨w, hw, hone⟩ := h
  rw [operandWord_imm hw, beq_iff_eq.1 hone, lane_one]
  rfl

theorem lane_of_ones (hs : s.Valid) (hi : i < s.lanes)
    (h : ∃ w, o.value = .immI64 w ∧ (w &&& intMaskForBits s.foldBits == intMaskForBits s.foldBits) =
      true) : s.lane (operandWord ρ o) i = BitVec.allOnes s.elem.bits := by
  obtain ⟨w, hw, hones⟩ := h
  rw [operandWord_imm hw, lane_of_masked hs (beq_iff_eq.1 hones) hi]

/-- The identities hold lane by lane, but for the product with a wide one. -/
theorem foldIdentityIntBinop_denotes {inst : LrInst} {out : LrOperand} (hs : s.Valid)
    (hop : inst.op = op.opcode) (htype : s.Is inst.type) (hops : inst.operands = [a, b])
    (hmul : op = .mul → s.lanes = 1 ∨ (∀ v, a.value ≠ .immI64 v) ∧ ∀ v, b.value ≠ .immI64 v)
    (hout : foldIdentityIntBinop inst = some out) (hi : i < s.lanes)
    (hz : op.meaning (s.lane (operandWord ρ a) i) (s.lane (operandWord ρ b) i) = some z) :
    s.lane (operandWord ρ out) i = z := by
  simp only [foldIdentityIntBinop, hops, hop, intTypeWidthBits_of_is hs htype] at hout
  cases op with
  | add =>
    cases hz
    obtain ⟨rfl, hw⟩ | ⟨rfl, hw⟩ := foldEither_cases hout
    · rw [lane_of_zero hw, BitVec.zero_add]
    · rw [lane_of_zero hw, BitVec.add_zero]
  | sub =>
    cases hz
    obtain ⟨rfl, hw⟩ := foldRight_cases hout
    rw [lane_of_zero hw, BitVec.sub_zero]
  | mul =>
    cases hz
    have hfirst : ∀ o : LrOperand, (o = a ∨ o = b) → (∃ w, o.value = .immI64 w ∧ (w == 1) = true) →
        s.lane (operandWord ρ o) i = 1#s.elem.bits := by
      intro o ho hw
      have hlanes : s.lanes = 1 := by
        refine (hmul rfl).resolve_right ?_
        rintro ⟨hna, hnb⟩
        obtain ⟨w, hw, -⟩ := hw
        obtain rfl | rfl := ho
        · exact hna w hw
        · exact hnb w hw
      rw [lane_of_one hw, if_pos (by omega)]
    obtain ⟨rfl, hw⟩ | ⟨rfl, hw⟩ := foldEither_cases hout
    · rw [hfirst a (.inl rfl) hw, BitVec.one_mul]
    · rw [hfirst b (.inr rfl) hw, BitVec.mul_one]
  | sdiv =>
    obtain ⟨rfl, hw⟩ := foldRight_cases hout
    rw [lane_of_one hw] at hz
    obtain ⟨hdefined, hz⟩ := ite_none_left_eq_some.1 hz
    split at hz
    · cases hz
      exact BitVec.sdiv_one.symm
    · rename_i hne
      exact absurd (.inl (if_neg hne)) hdefined
  | udiv =>
    obtain ⟨rfl, hw⟩ := foldRight_cases hout
    rw [lane_of_one hw] at hz
    obtain ⟨hdefined, hz⟩ := ite_none_left_eq_some.1 hz
    split at hz
    · cases hz
      exact BitVec.udiv_one.symm
    · rename_i hne
      exact absurd (if_neg hne) hdefined
  | srem => cases hout
  | urem => cases hout
  | and =>
    cases hz
    obtain ⟨rfl, hw⟩ | ⟨rfl, hw⟩ := foldEither_cases hout
    · rw [lane_of_ones hs hi hw, BitVec.allOnes_and]
    · rw [lane_of_ones hs hi hw, BitVec.and_allOnes]
  | or =>
    cases hz
    obtain ⟨rfl, hw⟩ | ⟨rfl, hw⟩ := foldEither_cases hout
    · rw [lane_of_zero hw, BitVec.zero_or]
    · rw [lane_of_zero hw, BitVec.or_zero]
  | xor =>
    cases hz
    obtain ⟨rfl, hw⟩ | ⟨rfl, hw⟩ := foldEither_cases hout
    · rw [lane_of_zero hw, BitVec.zero_xor]
    · rw [lane_of_zero hw, BitVec.xor_zero]
  | shl =>
    obtain ⟨rfl, hw⟩ := foldRight_cases hout
    rw [lane_of_zero hw] at hz
    obtain ⟨-, hz⟩ := ite_none_right_eq_some.1 hz
    cases hz
    simp
  | lshr =>
    obtain ⟨rfl, hw⟩ := foldRight_cases hout
    rw [lane_of_zero hw] at hz
    obtain ⟨-, hz⟩ := ite_none_right_eq_some.1 hz
    cases hz
    simp
  | ashr =>
    obtain ⟨rfl, hw⟩ := foldRight_cases hout
    rw [lane_of_zero hw] at hz
    obtain ⟨-, hz⟩ := ite_none_right_eq_some.1 hz
    cases hz
    simp

section Kinds
variable {inst : LrInst} {out : LrOperand}

theorem OperandOf.imm {imm : Bool} {o : LrOperand} (ho : OperandOf s imm o)
    (hw : o.value = .immI64 w) : imm = true := by
  cases imm with
  | true => rfl
  | false => exact absurd hw (ho.noImm rfl w)

/-- An operand with an immediate is a constant. -/
theorem OperandOf.i1Word {imm : Bool} (hs : s.Valid) (ho : OperandOf s imm o)
    (hw : o.value = .immI64 w) : s.elem = .i1 → I1Word s.lanes w := by
  obtain ⟨w', hw', hword⟩ := word_of_isConstant hs (ho.const (ho.imm hw))
  rw [hw] at hw'
  cases hw'
  exact hword

theorem tryInstReplacement_binary (hop : inst.op = op.opcode)
    (h : tryInstReplacement inst = some out) :
    foldIntBinopImmediates inst = some out ∨ foldIdentityIntBinop inst = some out := by
  have hselect : foldSelect inst = none := by
    rw [foldSelect, if_pos (by rw [hop]; cases op <;> decide)]
  have hicmp : foldIcmpImmediates inst = none := by
    rw [foldIcmpImmediates, if_pos (by rw [hop]; cases op <;> decide)]
  rw [tryInstReplacement, hselect, hicmp] at h
  change (foldIntBinopImmediates inst <|> foldIdentityIntBinop inst) = some out at h
  cases hfold : foldIntBinopImmediates inst with
  | some o =>
    rw [hfold] at h
    exact .inl h
  | none =>
    rw [hfold] at h
    exact .inr h

theorem foldIntBinopImmediates_cases (hops : inst.operands = [a, b])
    (h : foldIntBinopImmediates inst = some out) :
    ∃ l r u, a.value = .immI64 l ∧ b.value = .immI64 r ∧
      foldIntWords inst.op (intTypeWidthBits inst.type) l r = some u ∧
      out = lrOpImmI64 (intSignExtendBits u (intTypeWidthBits inst.type)) inst.type := by
  obtain ⟨va, ta, oa⟩ := a
  obtain ⟨vb, tb, ob⟩ := b
  rw [foldIntBinopImmediates, hops] at h
  cases va <;> cases vb <;> try cases h
  obtain ⟨u, hu, hout⟩ := map_eq_some_iff.1 h
  exact ⟨_, _, u, rfl, rfl, hu, hout.symm⟩

theorem binary_denotes {immL immR : Bool} (hs : s.Valid) (hsafe : (Kind.binary op immL immR).Safe s)
    (hinst : (Kind.binary op immL immR).InstOf s inst) :
    (Kind.binary op immL immR).Denotes s inst := by
  obtain ⟨hop, htype, a, b, hops, ha, hb⟩ := hinst
  intro ρ out hout hexec i hi z hz
  rw [hops] at hexec hz
  obtain ⟨x, hx, rfl⟩ := map_eq_some_iff.1 hz
  change (s.lane (operandWord ρ out) i).toNat = x.toNat
  congr 1
  obtain hfold | hident := tryInstReplacement_binary hop hout
  · obtain ⟨l, r, u, hl, hr, hu, rfl⟩ := foldIntBinopImmediates_cases hops hfold
    have himmL := ha.imm hl
    have himmR := hb.imm hr
    subst himmL himmR
    rw [intTypeWidthBits_of_is hs htype, hop] at hu
    rw [intTypeWidthBits_of_is hs htype, lane_folded hs htype u hi]
    rw [operandWord_imm hl, operandWord_imm hr] at hx
    obtain hlanes | hsafe := hsafe
    · exact foldIntWords_single hs hlanes op (ha.i1Word hs hl) (hb.i1Word hs hr) hu hi hx
    have hsigned : s.elem = .i1 → (op = .sdiv ∨ op = .srem) → s.lane u i = x := by
      intro hone hop'
      have hdivides : (Kind.binary op true true).divides = true := by
        obtain rfl | rfl := hop' <;> rfl
      have hall : ∀ j, j < s.lanes → (op.meaning (s.lane l j) (s.lane r j)).isSome = true := by
        intro j hj
        have h := hexec hdivides j hj
        simpa [Kind.laneMeaning, operandWord_imm hl, operandWord_imm hr] using h
      cases s with
      | scalar t => exact foldIntWords_single hs rfl op (ha.i1Word hs hl) (hb.i1Word hs hr) hu hi hx
      | vector t n =>
        obtain rfl : t = .i1 := hone
        exact foldIntWords_i1_signed hs hop' (ha.i1Word hs hl rfl) hu hall hi hx
    cases op with
    | and => exact foldIntWords_logic hs (.inl rfl) hu hi hx
    | or => exact foldIntWords_logic hs (.inr (.inl rfl)) hu hi hx
    | xor => exact foldIntWords_logic hs (.inr (.inr rfl)) hu hi hx
    | sdiv => exact hsigned (hsafe.resolve_left (by decide)) (.inl rfl)
    | srem => exact hsigned (hsafe.resolve_left (by decide)) (.inr rfl)
    | mul => exact absurd hsafe.1 (by decide)
    | add =>
      have hone : s.elem = .i1 := hsafe.resolve_left (by decide)
      cases hx
      cases s with
      | scalar t =>
        exact foldIntWords_single hs rfl .add (ha.i1Word hs hl) (hb.i1Word hs hr) hu hi rfl
      | vector t n =>
        obtain rfl : t = .i1 := hone
        exact foldIntWords_i1_add hs (ha.i1Word hs hl rfl) (hb.i1Word hs hr rfl) hu hi
    | sub => cases hsafe
    | shl => cases hsafe
    | lshr => cases hsafe
    | ashr => cases hsafe
    | udiv => cases hsafe
    | urem => cases hsafe
  · refine foldIdentityIntBinop_denotes hs hop htype hops ?_ hident hi hx
    rintro rfl
    refine hsafe.imp_right ?_
    rintro ⟨rfl, rfl⟩
    exact ⟨ha.noImm rfl, hb.noImm rfl⟩

/-- The comparison of single bits, signed ones apart. -/
theorem foldIcmpWords_single (hs : s.Valid) (hlanes : s.lanes = 1)
    (hpred : ¬ (s = .vector .i1 1 ∧ Kind.isSigned pred = true))
    (hl : s.elem = .i1 → I1Word s.lanes l) (hr : s.elem = .i1 → I1Word s.lanes r)
    (hi : i < s.lanes) :
    foldIcmpWords pred s.foldBits l r = icmpMeaning pred (s.lane l i) (s.lane r i) := by
  obtain hwidth | rfl := foldBits_of_single hlanes
  · obtain ⟨hpos, hle⟩ := foldBits_bounds hs
    rw [lane_eq_setWidth hlanes hi, lane_eq_setWidth hlanes hi]
    rw [hwidth] at hpos hle ⊢
    exact foldIcmpWords_meaning pred l r hpos hle
  · obtain rfl : i = 0 := by omega
    have hunsigned : Kind.isSigned pred = false := by simpa using hpred
    change foldIcmpWords pred 8 l r = icmpMeaning pred (l.setWidth 1) (r.setWidth 1)
    obtain rfl | rfl := (hl rfl).eq_bool <;> obtain rfl | rfl := (hr rfl).eq_bool <;>
      cases pred <;> first | decide +kernel | exact absurd hunsigned (by decide)

theorem tryInstReplacement_icmp (hop : inst.op = .icmp) (hpayload : inst.payload = .icmpPred pred)
    (hops : inst.operands = [a, b]) (htyped : a.type.isSome = true)
    (h : tryInstReplacement inst = some out) :
    ∃ l r, a.value = .immI64 l ∧ b.value = .immI64 r ∧
      out = lrOpImmI64 (if foldIcmpWords pred (intTypeWidthBits a.type) l r then 1 else 0)
        inst.type := by
  obtain ⟨va, ta, oa⟩ := a
  obtain ⟨vb, tb, ob⟩ := b
  have hselect : foldSelect inst = none := by rw [foldSelect, if_pos (by rw [hop]; decide)]
  have hbinop : foldIntBinopImmediates inst = none := by
    rw [foldIntBinopImmediates, hops, hop]
    cases va <;> cases vb <;> rfl
  have hident : foldIdentityIntBinop inst = none := by rw [foldIdentityIntBinop, hops, hop]
  rw [tryInstReplacement, hselect, hbinop, hident] at h
  have hicmp : foldIcmpImmediates inst = some out := by
    cases hfold : foldIcmpImmediates inst <;> rw [hfold] at h <;> exact h
  rw [foldIcmpImmediates, if_neg (not_not.2 hop), hops, hpayload] at hicmp
  cases va <;> cases vb <;> try cases hicmp
  refine ⟨_, _, rfl, rfl, ?_⟩
  rw [if_pos htyped]

theorem isSome_of_is (h : s.Is type) : type.isSome = true := by
  cases s with
  | scalar t =>
    obtain ⟨addr, rfl⟩ := h
    rfl
  | vector t n =>
    obtain ⟨addr, addr', count, rfl, -⟩ := h
    rfl

/-- A truth value as an immediate, whatever its type is. -/
theorem operandWord_bool (b : Prop) [Decidable b] (type : Option LrType) :
    operandWord ρ (lrOpImmI64 (if b then 1 else 0) type) = if b then 1 else 0 := by
  rw [operandWord_imm (lrOpImmI64_value _ type)]
  by_cases hb : b
  · rw [if_pos hb]
    split <;> rfl
  · rw [if_neg hb]
    split <;> rfl

theorem icmp_denotes {immL immR : Bool} (hs : s.Valid) (hsafe : (Kind.icmp pred immL immR).Safe s)
    (hinst : (Kind.icmp pred immL immR).InstOf s inst) :
    (Kind.icmp pred immL immR).Denotes s inst := by
  obtain ⟨hop, hpayload, a, b, hops, ha, hb⟩ := hinst
  intro ρ out hout hexec i hi z hz
  rw [hops] at hz
  obtain ⟨l, r, hl, hr, rfl⟩ :=
    tryInstReplacement_icmp hop hpayload hops (isSome_of_is ha.typed) hout
  have himmL := ha.imm hl
  have himmR := hb.imm hr
  subst himmL himmR
  obtain ⟨hlanes, hpred⟩ := hsafe.resolve_left (by decide)
  rw [operandWord_bool, intTypeWidthBits_of_is hs ha.typed,
    foldIcmpWords_single hs hlanes hpred (ha.i1Word hs hl) (hb.i1Word hs hr) hi]
  simp only [Kind.laneMeaning, operandWord_imm hl, operandWord_imm hr, Option.some.injEq] at hz
  rw [← hz]
  obtain rfl : i = 0 := by omega
  split
  · cases s <;> rfl
  · cases s <;> rfl

theorem operandEqual_iff : operandEqual a b = true → a = b := by
  obtain ⟨va, ta, oa⟩ := a
  obtain ⟨vb, tb, ob⟩ := b
  intro h
  unfold operandEqual at h
  split at h
  · cases h
  · rename_i hsame
    simp only [ne_eq, not_or, not_not] at hsame
    obtain ⟨rfl, rfl⟩ := hsame
    cases va <;> cases vb <;> simp_all

theorem tryInstReplacement_select {c : LrOperand} (hop : inst.op = .select)
    (hops : inst.operands = [c, a, b]) (h : tryInstReplacement inst = some out) :
    (∃ w, c.value = .immI64 w ∧ out = if w ≠ 0 then a else b) ∨ a = b ∧ out = a := by
  obtain ⟨vc, tc, oc⟩ := c
  have hicmp : foldIcmpImmediates inst = none := by
    rw [foldIcmpImmediates, if_pos (by rw [hop]; decide)]
  have hbinop : foldIntBinopImmediates inst = none := by
    obtain ⟨va, ta, oa⟩ := a
    rw [foldIntBinopImmediates, hops, hop]
    cases vc <;> cases va <;> rfl
  have hident : foldIdentityIntBinop inst = none := by rw [foldIdentityIntBinop, hops, hop]
  rw [tryInstReplacement, hicmp, hbinop, hident] at h
  have hselect : foldSelect inst = some out := by
    cases hfold : foldSelect inst <;> rw [hfold] at h <;> exact h
  rw [foldSelect, if_neg (not_not.2 hop), hops] at hselect
  have hequal : (if operandEqual a b then some a else none) = some out → a = b ∧ out = a := by
    intro heq
    obtain ⟨hsame, hout⟩ := ite_none_right_eq_some.1 heq
    cases hout
    exact ⟨operandEqual_iff hsame, rfl⟩
  cases vc with
  | immI64 w =>
    cases hselect
    exact .inl ⟨w, rfl, rfl⟩
  | vreg | immF64 | block | global | null | undef => exact .inr (hequal hselect)

theorem select_denotes {vectorCond immC immX immY : Bool} (hs : s.Valid)
    (hfits : (Kind.select vectorCond immC immX immY).Fits s)
    (hsafe : (Kind.select vectorCond immC immX immY).Safe s)
    (hinst : (Kind.select vectorCond immC immX immY).InstOf s inst) :
    (Kind.select vectorCond immC immX immY).Denotes s inst := by
  obtain ⟨hop, htype, c, a, b, hops, hc, ha, hb⟩ := hinst
  intro ρ out hout hexec i hi z hz
  rw [hops] at hz
  cases hz
  obtain ⟨w, hw, rfl⟩ | ⟨rfl, rfl⟩ := tryInstReplacement_select hop hops hout
  · -- the condition is the bit the pass tests the word for
    have hword : I1Word 1 w := by
      have himm := hc.imm hw
      subst himm
      cases vectorCond with
      | false => exact hc.i1Word (s := .scalar .i1) trivial hw rfl
      | true =>
        have hlanes := (hsafe.resolve_left (by decide)).resolve_left (by decide)
        cases s with
        | scalar t => exact hfits.elim
        | vector t n =>
          obtain rfl : n = 1 := hlanes
          exact hc.i1Word (s := .vector .i1 1) (by decide) hw rfl
    have hbit : (if vectorCond then 8 * i else 0) = 0 := by
      cases vectorCond with
      | false => rfl
      | true =>
        have himm := hc.imm hw
        subst himm
        have hlanes := (hsafe.resolve_left (by decide)).resolve_left (by decide)
        rw [if_pos rfl]
        omega
    rw [hbit, operandWord_imm hw]
    change (s.lane _ i).toNat = _
    obtain rfl | rfl := hword.eq_bool
    · rfl
    · rfl
  · change (s.lane _ i).toNat = _
    rw [ite_self]

theorem denotes_of_safe {k : Kind} (hs : s.Valid) (hfits : k.Fits s) (hsafe : k.Safe s)
    (hinst : k.InstOf s inst) : k.Denotes s inst := by
  cases k with
  | binary => exact binary_denotes hs hsafe hinst
  | icmp => exact icmp_denotes hs hsafe hinst
  | select => exact select_denotes hs hfits hsafe hinst

end Kinds

end Liric.Guarantees.Peephole
