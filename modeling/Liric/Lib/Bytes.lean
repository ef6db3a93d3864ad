import Mathlib.Data.List.TakeWhile
import Mathlib.Tactic.Ring

/-!
# Little-endian words and memories of bytes

Words of any width as lists of bytes, least significant first, and what it means
for a memory to hold a list of bytes at an address.
-/
namespace Liric.Lib
open List

/-- The `n` low bytes of `v`. -/
def leBytes : Nat → Nat → List UInt8
  | 0, _ => []
  | n + 1, v => UInt8.ofNat v :: leBytes n (v / 256)

/-- The number whose bytes are listed. -/
def leNat : List UInt8 → Nat
  | [] => 0
  | b :: bs => b.toNat + 256 * leNat bs

@[simp] theorem length_leBytes (n v : Nat) : (leBytes n v).length = n := by
  induction n generalizing v with
  | zero => rfl
  | succ n ih => rw [leBytes, length_cons, ih]

theorem leNat_leBytes (n v : Nat) : leNat (leBytes n v) = v % 256 ^ n := by
  induction n generalizing v with
  | zero => rw [leBytes, leNat, pow_zero, Nat.mod_one]
  | succ n ih =>
    have hbyte : (UInt8.ofNat v).toNat = v % 256 := by simp
    rw [leBytes, leNat, ih, hbyte, pow_succ', Nat.mod_mul]

theorem pow_two_bytes : (256 : Nat) ^ 2 = 2 ^ 16 := by norm_num
theorem pow_four_bytes : (256 : Nat) ^ 4 = 2 ^ 32 := by norm_num
theorem pow_eight_bytes : (256 : Nat) ^ 8 = 2 ^ 64 := by norm_num

theorem leBytes_add (m n v : Nat) : leBytes (m + n) v = leBytes m v ++ leBytes n (v / 256 ^ m) := by
  induction m generalizing v with
  | zero => simp [leBytes]
  | succ m ih =>
    rw [Nat.succ_add, leBytes, ih, leBytes, cons_append, Nat.div_div_eq_div_mul, pow_succ']

theorem leNat_lt (bs : List UInt8) : leNat bs < 256 ^ bs.length := by
  induction bs with
  | nil => exact Nat.one_pos
  | cons b bs ih =>
    have hb := b.toNat_lt
    rw [leNat, length_cons, pow_succ]
    omega

theorem leBytes_leNat (bs : List UInt8) : leBytes bs.length (leNat bs) = bs := by
  induction bs with
  | nil => rfl
  | cons b bs ih =>
    have hb := b.toNat_lt
    have hlow : UInt8.ofNat (b.toNat + 256 * leNat bs) = b := by
      rw [← UInt8.toNat_inj, UInt8.toNat_ofNat']
      omega
    have hhigh : (b.toNat + 256 * leNat bs) / 256 = leNat bs := by omega
    rw [length_cons, leNat, leBytes, hlow, hhigh, ih]

theorem leNat_append (as bs : List UInt8) :
    leNat (as ++ bs) = leNat as + 256 ^ as.length * leNat bs := by
  induction as with
  | nil => rw [nil_append, leNat, length_nil, pow_zero, Nat.one_mul, Nat.zero_add]
  | cons a as ih =>
    rw [cons_append, leNat, leNat, ih, length_cons, pow_succ']
    ring

/-- `n` bytes show a number modulo `256 ^ n`. -/
theorem leBytes_mod (n v : Nat) : leBytes n (v % 256 ^ n) = leBytes n v := by
  have hback := leBytes_leNat (leBytes n v)
  rwa [length_leBytes, leNat_leBytes] at hback

variable {bs : List UInt8}

/-- A text without NUL ends only at its NUL. -/
theorem takeWhile_of_noNul (h : 0 ∉ bs) : bs.takeWhile (· != 0) = bs := by
  have hall : ∀ b ∈ bs, (b != 0) = true := by
    intro b hb
    rw [bne_iff_ne]
    rintro rfl
    exact h hb
  exact takeWhile_eq_self_iff.mpr hall

/-- `bs` stands in the memory from address `start` on. -/
def Holds (mem : Nat → UInt8) (start : Nat) (bs : List UInt8) : Prop :=
  ∀ i (h : i < bs.length), mem (start + i) = bs[i]

/-- The `n` bytes of the memory from `start` on. -/
def readBytes (mem : Nat → UInt8) (start n : Nat) : List UInt8 :=
  (List.range n).map (fun i => mem (start + i))

@[simp] theorem length_readBytes (mem : Nat → UInt8) (start n : Nat) :
    (readBytes mem start n).length = n := by
  rw [readBytes, length_map, length_range]

theorem readBytes_add (mem : Nat → UInt8) (start m n : Nat) :
    readBytes mem start (m + n) = readBytes mem start m ++ readBytes mem (start + m) n := by
  rw [readBytes, readBytes, readBytes, range_add, map_append, map_map]
  simp only [Function.comp_def, Nat.add_assoc]

variable {mem : Nat → UInt8}

theorem holds_append {start : Nat} {as : List UInt8} :
    Holds mem start (as ++ bs) ↔ Holds mem start as ∧ Holds mem (start + as.length) bs := by
  constructor
  · intro h
    constructor
    · intro i hi
      rw [h i (by rw [length_append]; omega), getElem_append_left hi]
    · intro i hi
      rw [Nat.add_assoc, h (as.length + i) (by rw [length_append]; omega),
        getElem_append_right (by omega)]
      simp
  · rintro ⟨has, hbs⟩ i hi
    rw [length_append] at hi
    by_cases hlt : i < as.length
    · rw [has i hlt, getElem_append_left hlt]
    · have := hbs (i - as.length) (by omega)
      rw [Nat.add_assoc, Nat.add_sub_cancel' (by omega)] at this
      rw [this, getElem_append_right (by omega)]

theorem Holds.readBytes {start : Nat}
    (h : Holds mem start bs) : Lib.readBytes mem start bs.length = bs := by
  apply ext_getElem
  · rw [length_readBytes]
  · intro i hi hi'
    rw [length_readBytes] at hi
    simp only [Lib.readBytes, getElem_map, getElem_range]
    exact h i hi

end Liric.Lib
