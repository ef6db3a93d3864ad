import Liric.Guarantees.PeepholeWords

/-!
# Instructions on lanes

A value of an integer or vector type is read lane by lane from a word of 64 bits. A
rewrite is right when its operand has, in every lane LLVM defines, the lane of the result.
Constants of vectors are packed by the text parser, one after the other.
-/
namespace Liric.Guarantees.Peephole
open Source.Ir Source.Ll Lib BitVec List
open IntegerWidths (BinOp icmpMeaning IntTy)

variable {i n : Nat} {w : BitVec 64} {buf buf' : List UInt8}

/-- The bits an element takes in memory. -/
def storageBits : IntTy → Nat
  | .i1 | .i8 => 8
  | .i16 => 16
  | .i32 => 32
  | .i64 => 64

inductive IntShape where
  | scalar (t : IntTy)
  | vector (t : IntTy) (n : Nat)
  deriving DecidableEq

namespace IntShape

def elem : IntShape → IntTy
  | scalar t | vector t _ => t

def lanes : IntShape → Nat
  | scalar _ => 1
  | vector _ n => n

/-- A vector has elements, and fits eight bytes. -/
def Valid : IntShape → Prop
  | scalar _ => True
  | vector t n => 0 < n ∧ storageBits t * n ≤ 64

instance (s : IntShape) : Decidable s.Valid := by
  cases s <;> unfold Valid <;> infer_instance

def Is : IntShape → Option LrType → Prop
  | scalar t, type => ∃ addr, type = some (.scalar addr t.kind)
  | vector t n, type => ∃ addr addr' count,
      type = some (.vector addr (.scalar addr' t.kind) count) ∧ count.toNat = n

/-- Lane `i` of a value. -/
def lane (s : IntShape) (x : BitVec 64) (i : Nat) : BitVec s.elem.bits :=
  (x >>> (storageBits s.elem * i)).setWidth s.elem.bits

/-- The width the pass computes in. -/
def foldBits : IntShape → Nat
  | scalar t => t.bits
  | vector t n => storageBits t * n

def withI1 : IntShape → IntShape
  | scalar _ => scalar .i1
  | vector _ n => vector .i1 n

end IntShape

/-- What stands between the angle brackets of a vector constant. -/
def IsElement (t : IntTy) (e : LrOperand) : Prop :=
  (∃ addr v, e = lrOpImmI64 v (some (.scalar addr t.kind))) ∨
    (∀ v, e.value ≠ .immI64 v) ∧ ∀ v, e.value ≠ .immF64 v

/-- What `parse_operand` and `parse_aggregate_constant_operand` make of a constant. -/
def IsConstant : IntShape → LrOperand → Prop
  | .scalar t, o => ∃ addr v, o = lrOpImmI64 v (some (.scalar addr t.kind))
  | .vector t n, o => ∃ addr addr' count elems buf,
      let elem := LrType.scalar addr' t.kind
      let type := LrType.vector addr elem count
      count.toNat = n ∧ elems.length = n ∧ (∀ e ∈ elems, IsElement t e) ∧
        packElems elem n (lrTypeSize type).toNat elems 0 zeroBuf = some (some buf) ∧
        o = lrOpImmI64 (packedVal buf (lrTypeSize type).toNat) (some type)

/-- An operand of the shape: a constant, or anything that is no integer immediate. -/
structure OperandOf (s : IntShape) (imm : Bool) (o : LrOperand) : Prop where
  typed : s.Is o.type
  const : imm = true → IsConstant s o
  noImm : imm = false → ∀ v, o.value ≠ .immI64 v

/-- The value of an operand: that of an immediate is in it. -/
def operandWord (ρ : LrOperand → BitVec 64) (o : LrOperand) : BitVec 64 :=
  match o.value with
  | .immI64 val => val
  | _ => ρ o

/-- An instruction up to its operands, of which it is known which are constants. The
condition of a select is one bit or a vector of them. -/
inductive Kind where
  | binary (op : BinOp) (immL immR : Bool)
  | icmp (pred : IcmpPred) (immL immR : Bool)
  | select (vectorCond immC immX immY : Bool)
  deriving DecidableEq

namespace Kind

def condShape (vectorCond : Bool) (s : IntShape) : IntShape :=
  if vectorCond then s.withI1 else .scalar .i1

/-- A condition that is a vector chooses between vectors. -/
def Fits : Kind → IntShape → Prop
  | select true .., .scalar _ => False
  | _, _ => True

def InstOf : Kind → IntShape → LrInst → Prop
  | binary op immL immR, s, inst => inst.op = op.opcode ∧ s.Is inst.type ∧
      ∃ a b, inst.operands = [a, b] ∧ OperandOf s immL a ∧ OperandOf s immR b
  | icmp pred immL immR, s, inst => inst.op = .icmp ∧ inst.payload = .icmpPred pred ∧
      ∃ a b, inst.operands = [a, b] ∧ OperandOf s immL a ∧ OperandOf s immR b
  | select vectorCond immC immX immY, s, inst => inst.op = .select ∧ s.Is inst.type ∧
      ∃ c a b, inst.operands = [c, a, b] ∧ OperandOf (condShape vectorCond s) immC c ∧
        OperandOf s immX a ∧ OperandOf s immY b

def resultShape : Kind → IntShape → IntShape
  | binary .., s | select .., s => s
  | icmp .., s => s.withI1

/-- Lane `i` of the result, as a number; `none` is poison. -/
def laneMeaning (s : IntShape) (ρ : LrOperand → BitVec 64) (i : Nat) :
    Kind → List LrOperand → Option Nat
  | binary op .., [a, b] =>
    (op.meaning (s.lane (operandWord ρ a) i) (s.lane (operandWord ρ b) i)).map BitVec.toNat
  | icmp pred .., [a, b] =>
    some (if icmpMeaning pred (s.lane (operandWord ρ a) i) (s.lane (operandWord ρ b) i) then 1
      else 0)
  | select vectorCond .., [c, a, b] =>
    let cond := (operandWord ρ c).getLsbD (if vectorCond then 8 * i else 0)
    some (s.lane (operandWord ρ (if cond then a else b)) i).toNat
  | _, _ => none

/-- A lane of a division without a result is undefined behaviour of the whole. -/
def divides : Kind → Bool
  | binary .sdiv .. | binary .srem .. | binary .udiv .. | binary .urem .. => true
  | _ => false

def Executes (k : Kind) (s : IntShape) (ρ : LrOperand → BitVec 64) (ops : List LrOperand) : Prop :=
  k.divides = true → ∀ i, i < s.lanes → (k.laneMeaning s ρ i ops).isSome = true

/-- Whatever the operands are, the replacement has the lanes of the result. -/
def Denotes (k : Kind) (s : IntShape) (inst : LrInst) : Prop :=
  ∀ ρ out, tryInstReplacement inst = some out → k.Executes s ρ inst.operands →
    ∀ i, i < s.lanes → ∀ z, k.laneMeaning s ρ i inst.operands = some z →
      ((k.resultShape s).lane (operandWord ρ out) i).toNat = z

def isSigned : IcmpPred → Bool
  | .sgt | .sge | .slt | .sle => true
  | _ => false

/-- The kinds the pass is right about. -/
def Safe : Kind → IntShape → Prop
  | binary op immL immR, s => s.lanes = 1 ∨
    match op with
    | .and | .or | .xor => True
    | .mul => immL = false ∧ immR = false
    | .add | .sdiv | .srem => (immL && immR) = false ∨ s.elem = .i1
    | _ => (immL && immR) = false
  | icmp pred immL immR, s => (immL && immR) = false ∨
    s.lanes = 1 ∧ ¬ (s = .vector .i1 1 ∧ isSigned pred = true)
  | select vectorCond immC _ _, s => immC = false ∨ vectorCond = false ∨ s.lanes = 1

end Kind

section Lanes
variable {s : IntShape}

theorem bits_le_storage (t : IntTy) : t.bits ≤ storageBits t := by cases t <;> decide

theorem foldBits_bounds (hs : s.Valid) : 0 < s.foldBits ∧ s.foldBits ≤ 64 := by
  cases s with
  | scalar t => cases t <;> decide
  | vector t n =>
    obtain ⟨hn, hle⟩ := hs
    have hpos : 0 < storageBits t := by cases t <;> decide
    exact ⟨Nat.mul_pos hpos hn, hle⟩

/-- A lane lies within the width the pass computes in. -/
theorem lane_le_foldBits (hi : i < s.lanes) :
    storageBits s.elem * i + s.elem.bits ≤ s.foldBits := by
  cases s with
  | scalar t =>
    obtain rfl : i = 0 := Nat.lt_one_iff.1 hi
    simp [IntShape.elem, IntShape.foldBits]
  | vector t n =>
    have hle := bits_le_storage t
    have hmul : storageBits t * (i + 1) ≤ storageBits t * n := Nat.mul_le_mul_left _ hi
    rw [Nat.mul_succ] at hmul
    change storageBits t * i + t.bits ≤ storageBits t * n
    omega

theorem getLsbD_lane (x : BitVec 64) (i j : Nat) :
    (s.lane x i).getLsbD j = (decide (j < s.elem.bits) && x.getLsbD (storageBits s.elem * i + j)) := by
  rw [IntShape.lane, getLsbD_setWidth, getLsbD_ushiftRight]

theorem lane_congr {x y : BitVec 64} (h : x.setWidth s.foldBits = y.setWidth s.foldBits)
    (hi : i < s.lanes) : s.lane x i = s.lane y i := by
  have hle := lane_le_foldBits hi
  apply eq_of_getLsbD_eq
  intro j hj
  have hbit := congrArg (fun z => z.getLsbD (storageBits s.elem * i + j)) h
  simp only [getLsbD_setWidth] at hbit
  rw [decide_eq_true (by omega), Bool.true_and, Bool.true_and] at hbit
  rw [getLsbD_lane, getLsbD_lane, hbit]

theorem lane_and (x y : BitVec 64) (i : Nat) : s.lane (x &&& y) i = s.lane x i &&& s.lane y i := by
  apply eq_of_getLsbD_eq
  intro j hj
  rw [getLsbD_and, getLsbD_lane, getLsbD_lane, getLsbD_lane, getLsbD_and]
  simp [hj]

theorem lane_or (x y : BitVec 64) (i : Nat) : s.lane (x ||| y) i = s.lane x i ||| s.lane y i := by
  apply eq_of_getLsbD_eq
  intro j hj
  rw [getLsbD_or, getLsbD_lane, getLsbD_lane, getLsbD_lane, getLsbD_or]
  simp [hj]

theorem lane_xor (x y : BitVec 64) (i : Nat) : s.lane (x ^^^ y) i = s.lane x i ^^^ s.lane y i := by
  apply eq_of_getLsbD_eq
  intro j hj
  rw [getLsbD_xor, getLsbD_lane, getLsbD_lane, getLsbD_lane, getLsbD_xor]
  simp [hj]

theorem lane_zero (i : Nat) : s.lane 0 i = 0 := by
  change s.lane 0#64 i = 0#s.elem.bits
  rw [IntShape.lane, zero_ushiftRight, setWidth_zero]

/-- The word of a wide one is one in the first lane only. -/
theorem lane_one (i : Nat) : s.lane 1 i = if i = 0 then 1 else 0 := by
  apply eq_of_getLsbD_eq
  intro j hj
  have hpos : 0 < storageBits s.elem := by cases s.elem <;> decide
  rw [getLsbD_lane, decide_eq_true hj, Bool.true_and]
  split
  · rename_i hi
    rw [hi, Nat.mul_zero, Nat.zero_add]
    simp [getLsbD_one, hj]
  · rename_i hi
    have hne : storageBits s.elem * i + j ≠ 0 := by
      have := Nat.mul_pos hpos (Nat.pos_of_ne_zero hi)
      omega
    change (1#64).getLsbD _ = (0#s.elem.bits).getLsbD j
    rw [getLsbD_one, decide_eq_false hne, Bool.and_false, getLsbD_zero]

/-- All lanes of the mask are full. -/
theorem lane_of_masked (hs : s.Valid)
    (hw : w &&& intMaskForBits s.foldBits = intMaskForBits s.foldBits) (hi : i < s.lanes) :
    s.lane w i = BitVec.allOnes s.elem.bits := by
  obtain ⟨hpos, hle⟩ := foldBits_bounds hs
  have hmask : intMaskForBits s.foldBits = (-1#64 : BitVec 64) &&& intMaskForBits s.foldBits :=
    allOnes_and.symm
  have hcongr : w.setWidth s.foldBits = (-1#64 : BitVec 64).setWidth s.foldBits := by
    rw [← setWidth_and_mask w hpos hle, hw, hmask, setWidth_and_mask _ hpos hle]
  rw [lane_congr hcongr hi]
  apply eq_of_getLsbD_eq
  intro j hj
  have hwithin := lane_le_foldBits hi
  change (s.lane (BitVec.allOnes 64) i).getLsbD j = _
  rw [getLsbD_lane, getLsbD_allOnes, getLsbD_allOnes, decide_eq_true hj, decide_eq_true (by omega)]
  rfl

theorem intTypeWidthBits_of_is (hs : s.Valid) {type : Option LrType} (h : s.Is type) :
    intTypeWidthBits type = s.foldBits := by
  cases s with
  | scalar t =>
    obtain ⟨addr, rfl⟩ := h
    cases t <;> rfl
  | vector t n =>
    obtain ⟨addr, addr', count, rfl, hcount⟩ := h
    obtain ⟨hn, hle⟩ := hs
    have hwidth : (lrTypeSize (.vector addr (.scalar addr' t.kind) count) * 8).toNat =
        storageBits t * n := by
      have hsize : (scalarSize t.kind).toNat * 8 = storageBits t := by cases t <;> rfl
      change (scalarSize t.kind * count * 8).toNat = _
      rw [mul_assoc, mul_comm count, ← mul_assoc, toNat_mul, toNat_mul, hcount]
      change (scalarSize t.kind).toNat * 8 % 2 ^ 64 * n % 2 ^ 64 = _
      have hsmall : storageBits t < 2 ^ 64 := by cases t <;> decide
      rw [hsize, Nat.mod_eq_of_lt hsmall, Nat.mod_eq_of_lt (by omega)]
    have hpos : 0 < storageBits t * n := Nat.mul_pos (by cases t <;> decide) hn
    have hbetween : ¬ (lrTypeSize (.vector addr (.scalar addr' t.kind) count) * 8 = 0 ∨
        lrTypeSize (.vector addr (.scalar addr' t.kind) count) * 8 > 64) := by
      rintro (h | h)
      · have hzero := congrArg BitVec.toNat h
        rw [hwidth] at hzero
        exact hpos.ne' hzero
      · rw [gt_iff_lt, lt_def, hwidth] at h
        exact absurd h (not_lt.2 hle)
    simp only [intTypeWidthBits, if_neg hbetween, hwidth]
    rfl

end Lanes

/-- A word of bytes that are zero or one, the first `n` of them. -/
def I1Word (n : Nat) (w : BitVec 64) : Prop :=
  ∀ j, w.getLsbD j = true → j % 8 = 0 ∧ j / 8 < n

theorem lrOpImmI64_value (v : BitVec 64) (type : Option LrType) :
    (lrOpImmI64 v type).value =
      .immI64 (if type.any LrType.isI1 then (if v ≠ 0 then 1 else 0) else v) := rfl

theorem i1Word_bool (b : Prop) [Decidable b] (hn : 0 < n) : I1Word n (if b then 1 else 0) := by
  intro j hj
  split at hj
  · change (1#64).getLsbD j = true at hj
    rw [getLsbD_one] at hj
    obtain rfl : j = 0 := by simpa using hj
    exact ⟨rfl, by simpa using hn⟩
  · change (0#64).getLsbD j = true at hj
    simp at hj

/-- The bits of a number in bytes of zero and one. -/
theorem testBit_bytes {bs : List UInt8} (h : ∀ b ∈ bs, b.toNat ≤ 1) {j : Nat}
    (hj : (bs.foldr (fun (b : UInt8) acc => b.toNat + 256 * acc) 0).testBit j = true) :
    j % 8 = 0 ∧ j / 8 < bs.length := by
  induction bs generalizing j with
  | nil => simp at hj
  | cons b bs ih =>
    have hb := h b mem_cons_self
    rw [foldr_cons, Nat.add_comm, show 256 = 2 ^ 8 from rfl,
      Nat.testBit_two_pow_mul_add _ (by omega)] at hj
    split at hj
    · have hj0 : j = 0 := by
        by_contra hne
        rw [Nat.testBit_lt_two_pow (lt_of_le_of_lt hb (Nat.one_lt_two_pow hne))] at hj
        cases hj
      subst hj0
      exact ⟨rfl, by simp⟩
    · obtain ⟨hmod, hdiv⟩ := ih (fun c hc => h c (mem_cons_of_mem _ hc)) hj
      rw [length_cons]
      omega

theorem writeBuf_bytes {bytes : List UInt8} {offset : Nat} (hbuf : ∀ b ∈ buf, b.toNat ≤ 1)
    (hbytes : ∀ b ∈ bytes, b.toNat ≤ 1) (hwrite : writeBuf buf offset bytes = some buf') :
    ∀ b ∈ buf', b.toNat ≤ 1 := by
  obtain ⟨-, hwrite⟩ := Option.ite_none_right_eq_some.1 hwrite
  cases hwrite
  intro b hb
  rw [mem_append, mem_append] at hb
  obtain (hb | hb) | hb := hb
  · exact hbuf b (mem_of_mem_take hb)
  · exact hbytes b hb
  · exact hbuf b (mem_of_mem_drop hb)

theorem zeros_bytes (n : Nat) : ∀ b ∈ List.replicate n (0 : UInt8), b.toNat ≤ 1 := by
  intro b hb
  rw [eq_of_mem_replicate hb]
  exact Nat.zero_le 1

theorem packScalarBits_bytes {offset addr : Nat} {e : LrOperand} (he : IsElement .i1 e)
    (hbuf : ∀ b ∈ buf, b.toNat ≤ 1)
    (hpack : packScalarBits buf offset (.scalar addr .i1) e = some buf') :
    ∀ b ∈ buf', b.toNat ≤ 1 := by
  obtain ⟨addr', v, rfl⟩ | ⟨himm, hfloat⟩ := he
  · refine writeBuf_bytes hbuf ?_ hpack
    intro b hb
    change b ∈ bytesLe (if v ≠ 0 then 1 else 0 : BitVec 64) 1 at hb
    split at hb <;> obtain rfl := mem_singleton.1 hb
    · exact Nat.le_refl 1
    · exact Nat.zero_le 1
  · have hzero := zeros_bytes 1
    unfold packScalarBits at hpack
    split at hpack
    · rename_i v hv
      exact absurd hv (himm v)
    · rename_i v hv
      exact absurd hv (hfloat v)
    · obtain ⟨-, hpack⟩ := Option.ite_none_right_eq_some.1 hpack
      exact writeBuf_bytes hbuf hzero hpack

theorem packElems_bytes {elems : List LrOperand} {addr total : Nat}
    (helems : ∀ e ∈ elems, IsElement .i1 e) (hbuf : ∀ b ∈ buf, b.toNat ≤ 1)
    (hpack : packElems (.scalar addr .i1) n total elems i buf = some (some buf')) :
    ∀ b ∈ buf', b.toNat ≤ 1 := by
  induction elems generalizing i buf with
  | nil =>
    cases hpack
    exact hbuf
  | cons e elems ih =>
    have hrest : ∀ e ∈ elems, IsElement .i1 e := fun e he => helems e (mem_cons_of_mem _ he)
    simp only [packElems] at hpack
    split at hpack
    · split at hpack
      · obtain ⟨mid, hmid, hpack⟩ := Option.bind_eq_some_iff.1 hpack
        exact ih hrest (packScalarBits_bytes (helems e mem_cons_self) hbuf hmid) hpack
      · cases hpack
    · exact ih hrest hbuf hpack

/-- What an immediate holds; one of bits holds nothing but their bytes. -/
theorem word_of_isConstant {s : IntShape} {o : LrOperand} (hs : s.Valid) (h : IsConstant s o) :
    ∃ w, o.value = .immI64 w ∧ (s.elem = .i1 → I1Word s.lanes w) := by
  cases s with
  | scalar t =>
    obtain ⟨addr, v, rfl⟩ := h
    refine ⟨_, lrOpImmI64_value v _, ?_⟩
    rintro rfl
    exact i1Word_bool _ Nat.one_pos
  | vector t n =>
    obtain ⟨addr, addr', count, elems, buf, hcount, -, helems, hpack, rfl⟩ := h
    refine ⟨_, lrOpImmI64_value _ _, ?_⟩
    rintro rfl
    obtain ⟨hn, hle⟩ := hs
    have hsize : (lrTypeSize (.vector addr (.scalar addr' IntTy.i1.kind) count)).toNat = n := by
      change (1#64 * count).toNat = n
      rw [BitVec.one_mul, hcount]
    have hbytes := packElems_bytes helems (zeros_bytes 8) hpack
    intro j hj
    rw [hsize] at hj
    change (BitVec.ofNat 64 _).getLsbD j = true at hj
    rw [getLsbD_ofNat, Bool.and_eq_true] at hj
    obtain ⟨hmod, hdiv⟩ := testBit_bytes
      (fun b hb => hbytes b (mem_of_mem_take hb)) hj.2
    refine ⟨hmod, lt_of_lt_of_le hdiv ?_⟩
    exact (length_take_le _ _)

/-- With every bit zero, the word is. -/
theorem I1Word.eq_zero (h : I1Word n w) (hzero : ∀ i, i < n → w.getLsbD (8 * i) = false) :
    w = 0 := by
  apply eq_of_getLsbD_eq
  intro j _
  change _ = (0#64).getLsbD j
  rw [getLsbD_zero]
  by_contra hne
  obtain ⟨hmod, hdiv⟩ := h j (by simpa using hne)
  have hj := hzero (j / 8) hdiv
  rw [show 8 * (j / 8) = j by omega] at hj
  exact hne hj

/-- A single bit is zero or one. -/
theorem I1Word.eq_bool (h : I1Word 1 w) : w = 0 ∨ w = 1 := by
  cases hbit : w.getLsbD 0 with
  | false =>
    refine .inl (h.eq_zero ?_)
    intro i hi
    obtain rfl := Nat.lt_one_iff.1 hi
    exact hbit
  | true =>
    refine .inr (eq_of_getLsbD_eq fun j _ => ?_)
    change _ = (1#64).getLsbD j
    rw [getLsbD_one]
    by_cases hj : j = 0
    · subst hj
      exact hbit
    · rw [decide_eq_false hj, Bool.and_false]
      by_contra hne
      obtain ⟨hmod, hdiv⟩ := h j (by simpa using hne)
      omega

end Liric.Guarantees.Peephole
