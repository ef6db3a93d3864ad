import Liric.Source.Ir.Peephole
import Liric.Guarantees.IntegerWidths

/-!
# Folding the words of integers

The masks of the peephole pass are truncation, its sign trick is sign extension. What it
computes from two words is the result of LLVM at the width it computes in.
-/
namespace Liric.Guarantees.Peephole
open Source.Ir Lib Option BitVec
open IntegerWidths (BinOp icmpMeaning)

variable {bits : Nat}

section
variable (x : BitVec 64) (hb : 0 < bits) (hb' : bits ≤ 64)
include x hb hb'

theorem and_intMaskForBits : x &&& intMaskForBits bits = (x.setWidth bits).setWidth 64 := by
  unfold intMaskForBits
  split
  · obtain rfl : bits = 64 := by omega
    rw [setWidth_eq, setWidth_eq]
    exact and_allOnes
  · rw [if_neg (by omega)]
    exact and_lowMask x (by omega)

theorem setWidth_and_mask : (x &&& intMaskForBits bits).setWidth bits = x.setWidth bits := by
  rw [and_intMaskForBits x hb hb', setWidth_setWidth_of_le _ hb', setWidth_eq]

theorem intToUnsignedBits_eq : intToUnsignedBits x bits = (x.setWidth bits).setWidth 64 :=
  and_intMaskForBits x hb hb'

theorem intSignExtendBits_eq : intSignExtendBits x bits = (x.setWidth bits).signExtend 64 := by
  unfold intSignExtendBits
  split
  · obtain rfl : bits = 64 := by omega
    rw [setWidth_eq, signExtend_eq]
  · rw [if_neg (by omega), and_intMaskForBits x hb hb']
    obtain ⟨w, rfl⟩ : ∃ w, bits = w + 1 := ⟨bits - 1, by omega⟩
    exact xor_sub_sign (x.setWidth (w + 1)) (by omega)

end

theorem intSignExtendBits_zeroExtend (x : BitVec bits) (hb : 0 < bits) (hb' : bits ≤ 64) :
    intSignExtendBits (x.setWidth 64) bits = x.signExtend 64 := by
  rw [intSignExtendBits_eq _ hb hb', setWidth_zeroExtend_self x hb']

theorem setWidth_intSignExtendBits (x : BitVec 64) (hb : 0 < bits) (hb' : bits ≤ 64) :
    (intSignExtendBits x bits).setWidth bits = x.setWidth bits := by
  rw [intSignExtendBits_eq x hb hb', setWidth_signExtend_self _ hb']

/-- The binary operations of the pass, at the width they are folded in. -/
theorem foldIntWords_meaning (op : BinOp) {l r u : BitVec 64} {res : BitVec bits}
    (hb : 0 < bits) (hb' : bits ≤ 64) (hfold : foldIntWords op.opcode bits l r = some u)
    (hres : op.meaning (l.setWidth bits) (r.setWidth bits) = some res) : u.setWidth bits = res := by
  have hl := intToUnsignedBits_eq l hb hb'
  have hr := intToUnsignedBits_eq r hb hb'
  have hsl := intSignExtendBits_zeroExtend (l.setWidth bits) hb hb'
  have hsr := intSignExtendBits_zeroExtend (r.setWidth bits) hb hb'
  generalize l.setWidth bits = a at hl hsl hres
  generalize r.setWidth bits = b at hr hsr hres
  have hself : ∀ x : BitVec bits, (x.setWidth 64).setWidth bits = x :=
    fun x => setWidth_zeroExtend_self x hb'
  have hamount : (b.setWidth 64).toNat = b.toNat := toNat_zeroExtend b hb'
  have hsigned : ∀ x : BitVec bits, (x.signExtend 64).toInt = x.toInt :=
    fun x => toInt_signExtend_of_le hb'
  cases op <;>
    simp only [foldIntWords, BinOp.opcode, hl, hr, hsl, hsr, hamount] at hfold <;>
    simp only [BinOp.meaning] at hres
  all_goals
    simp only [ite_none_left_eq_some, ite_none_right_eq_some, some.injEq] at hfold hres
    -- a division or a shift has conditions
    first | subst hfold | obtain ⟨-, rfl⟩ := hfold | obtain ⟨-, -, rfl⟩ := hfold
    first | subst hres | obtain ⟨-, rfl⟩ := hres
    rw [setWidth_and_mask _ hb hb']
  case add => rw [setWidth_add _ _ hb', hself, hself]
  case sub => rw [setWidth_sub _ _ hb', hself, hself]
  case mul => rw [setWidth_mul _ _ hb', hself, hself]
  case and => rw [setWidth_and, hself, hself]
  case or => rw [setWidth_or, hself, hself]
  case xor => rw [setWidth_xor, hself, hself]
  case shl => rw [setWidth_shiftLeft_of_le hb', hself]
  case lshr => rw [setWidth_ushiftRight_zeroExtend a hb']
  case ashr => rw [setWidth_sshiftRight_signExtend a hb']
  case sdiv => rw [setWidth_sdiv hb' (hsigned a) (hsigned b)]
  case srem => rw [setWidth_srem hb' (hsigned a) (hsigned b)]
  case udiv => rw [setWidth_udiv_zeroExtend a b hb']
  case urem => rw [setWidth_umod_zeroExtend a b hb']

/-- The comparisons of the pass. -/
theorem foldIcmpWords_meaning (pred : IcmpPred) (l r : BitVec 64) (hb : 0 < bits)
    (hb' : bits ≤ 64) :
    foldIcmpWords pred bits l r = icmpMeaning pred (l.setWidth bits) (r.setWidth bits) := by
  have hl := intToUnsignedBits_eq l hb hb'
  have hr := intToUnsignedBits_eq r hb hb'
  have hsl := intSignExtendBits_zeroExtend (l.setWidth bits) hb hb'
  have hsr := intSignExtendBits_zeroExtend (r.setWidth bits) hb hb'
  generalize l.setWidth bits = a at hl hsl ⊢
  generalize r.setWidth bits = b at hr hsr ⊢
  have hnat : ∀ x : BitVec bits, (x.setWidth 64).toNat = x.toNat := fun x => toNat_zeroExtend x hb'
  have hint : ∀ x : BitVec bits, (x.signExtend 64).toInt = x.toInt :=
    fun x => toInt_signExtend_of_le hb'
  have heq : a.setWidth 64 = b.setWidth 64 ↔ a = b := by
    rw [← toNat_inj, hnat, hnat, toNat_inj]
  cases pred <;>
    simp only [foldIcmpWords, icmpMeaning, hl, hr, hsl, hsr, BitVec.slt, BitVec.sle, BitVec.ult,
      BitVec.ule, hnat, hint]
  case eq => rw [Bool.eq_iff_iff, beq_iff_eq, decide_eq_true_eq, heq]
  case ne => rw [Bool.eq_iff_iff, bne_iff_ne, decide_eq_true_eq, ne_eq, heq]

end Liric.Guarantees.Peephole
