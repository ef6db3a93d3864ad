import Mathlib.Data.Nat.Bitwise
import Mathlib.Data.BitVec
import Mathlib.Tactic.Ring

/-!
# Little-endian groups of seven bits

A number is written in groups of seven bits, the lowest first, one group a byte; the
top bit of a byte says that another one follows. A signed number continues the top bit
of its last group. `buf` is a memory, read from offset 0.
-/
namespace Liric.Lib.Leb128

def Continues (b : UInt8) : Prop := 128 ≤ b.toNat

instance (b : UInt8) : Decidable (Continues b) := inferInstanceAs (Decidable (_ ≤ _))

def group (b : UInt8) : Nat := b.toNat % 128

/-- The number in the first groups. -/
def unsigned (buf : Nat → UInt8) : Nat → Nat
  | 0 => 0
  | n + 1 => unsigned buf n + group (buf n) * 2 ^ (7 * n)

/-- The same groups as a number in two's complement. -/
def signed (buf : Nat → UInt8) (n : Nat) : Int :=
  if 64 ≤ group (buf (n - 1)) then unsigned buf n - 2 ^ (7 * n) else unsigned buf n

/-- The byte `n - 1` is the first one that does not continue. -/
structure Terminated (buf : Nat → UInt8) (n : Nat) : Prop where
  pos : 0 < n
  before : ∀ i, i + 1 < n → Continues (buf i)
  last : ¬ Continues (buf (n - 1))

variable {buf : Nat → UInt8} {n m : Nat}

theorem Terminated.not_continues (h : Terminated buf n) (hm : n ≤ m)
    (hall : ∀ i, i < m → Continues (buf i)) : False := by
  have hpos := h.pos
  exact h.last (hall (n - 1) (by omega))

theorem Terminated.unique (h : Terminated buf n) (h' : Terminated buf m) : n = m := by
  have hn := h.pos
  have hm := h'.pos
  rcases Nat.lt_trichotomy n m with hlt | heq | hgt
  · exact absurd (h'.before (n - 1) (by omega)) h.last
  · exact heq
  · exact absurd (h.before (m - 1) (by omega)) h'.last

theorem unsigned_lt (buf : Nat → UInt8) (n : Nat) : unsigned buf n < 2 ^ (7 * n) := by
  induction n with
  | zero => exact Nat.one_pos
  | succ n ih =>
    have hgroup : group (buf n) + 1 ≤ 128 := Nat.mod_lt _ (by decide)
    calc unsigned buf n + group (buf n) * 2 ^ (7 * n)
        < (group (buf n) + 1) * 2 ^ (7 * n) := by rw [Nat.add_mul]; omega
      _ ≤ 128 * 2 ^ (7 * n) := Nat.mul_le_mul_right _ hgroup
      _ = 2 ^ (7 * (n + 1)) := by ring

/-- The next group does not overlap the ones below. -/
theorem unsigned_or (buf : Nat → UInt8) (n : Nat) :
    unsigned buf n ||| group (buf n) <<< (7 * n) = unsigned buf (n + 1) := by
  rw [Nat.or_comm, ← Nat.shiftLeft_add_eq_or_of_lt (unsigned_lt buf n), Nat.shiftLeft_eq,
    Nat.add_comm, unsigned]

/-- Where the groups fill a word, the sign says nothing about it. -/
theorem ofInt_signed_of_le {w : Nat} (buf : Nat → UInt8) (h : w ≤ 7 * n) :
    BitVec.ofInt w (signed buf n) = BitVec.ofNat w (unsigned buf n) := by
  unfold signed
  split
  · have hzero : BitVec.ofInt w (2 ^ (7 * n)) = 0#w := by
      apply BitVec.eq_of_toInt_eq
      rw [BitVec.toInt_ofInt, BitVec.toInt_zero]
      refine Int.bmod_eq_zero_of_dvd ?_
      push_cast
      exact pow_dvd_pow 2 h
    rw [sub_eq_add_neg, BitVec.ofInt_add, BitVec.ofInt_neg, hzero, BitVec.neg_zero,
      BitVec.add_zero, BitVec.ofInt_natCast]
  · exact BitVec.ofInt_natCast _ _

/-- The bits above the groups, filled with ones. -/
theorem ofNat_or_neg {w s k : Nat} (hs : s < w) (hk : k < 2 ^ s) :
    BitVec.ofNat w k ||| -(1#w <<< s) = BitVec.ofInt w (k - 2 ^ s) := by
  have hpow : 2 ^ s < 2 ^ w := Nat.pow_lt_pow_right (by decide) hs
  have hone : (1#w <<< s).toNat = 2 ^ s := by
    rw [BitVec.toNat_shiftLeft, BitVec.toNat_ofNat, Nat.mod_eq_of_lt (lt_of_le_of_lt
      Nat.one_le_two_pow hpow), Nat.one_shiftLeft, Nat.mod_eq_of_lt hpow]
  have hhigh : (-(1#w <<< s)).toNat = (2 ^ (w - s) - 1) <<< s := by
    have hsplit : 2 ^ w = 2 ^ (w - s) * 2 ^ s := by
      rw [← pow_add]
      congr 1
      omega
    rw [BitVec.toNat_neg, hone, Nat.mod_eq_of_lt (by omega), Nat.shiftLeft_eq, Nat.sub_mul, one_mul,
      hsplit]
  have hdisjoint : BitVec.ofNat w k ||| -(1#w <<< s) = BitVec.ofNat w k + -(1#w <<< s) := by
    apply BitVec.eq_of_toNat_eq
    have hsum : (2 ^ (w - s) - 1) <<< s + k < 2 ^ w := by
      rw [← hhigh, BitVec.toNat_neg, hone, Nat.mod_eq_of_lt (by omega)]
      omega
    rw [BitVec.toNat_or, BitVec.toNat_add, hhigh, BitVec.toNat_ofNat, Nat.mod_eq_of_lt (by omega),
      Nat.or_comm, ← Nat.shiftLeft_add_eq_or_of_lt hk, Nat.add_comm k, Nat.mod_eq_of_lt hsum]
  have hword : BitVec.ofInt w (2 ^ s) = 1#w <<< s := by
    apply BitVec.eq_of_toNat_eq
    rw [hone, show ((2 : Int) ^ s) = ((2 ^ s : Nat) : Int) by push_cast; rfl,
      BitVec.ofInt_natCast, BitVec.toNat_ofNat, Nat.mod_eq_of_lt hpow]
  rw [hdisjoint, sub_eq_add_neg, BitVec.ofInt_add, BitVec.ofInt_neg, BitVec.ofInt_natCast, hword]

end Liric.Lib.Leb128
