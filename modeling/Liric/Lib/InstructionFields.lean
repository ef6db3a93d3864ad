import Mathlib.Data.BitVec
import Mathlib.Tactic.IntervalCases

/-!
# Address fields of instructions

Where an instruction of x86-64, A64 or RV64 points, read from its word: relative
displacements, pages and page offsets. For each field, that masking it out and
putting a value in leaves that value to be read and the rest of the word alone.
-/
namespace Liric.Lib
open BitVec

/-- A signed value that fits is read back from its low bits. -/
theorem toInt_extractLsb'_ofInt {n w : Nat} (hn : 0 < n) (hw : n ≤ w) {v : Int}
    (hlow : -2 ^ (n - 1) ≤ v) (hhigh : v < 2 ^ (n - 1)) :
    ((BitVec.ofInt w v).extractLsb' 0 n).toInt = v := by
  have hbits : (BitVec.ofInt w v).extractLsb' 0 n = BitVec.ofInt n v := by
    apply eq_of_toNat_eq
    have hdvd : (2 ^ n : Int) ∣ 2 ^ w := pow_dvd_pow 2 hw
    have hpos : (0 : Int) < 2 ^ n := by positivity
    have hposw : (0 : Int) < 2 ^ w := by positivity
    rw [extractLsb'_toNat, toNat_ofInt, toNat_ofInt, Nat.shiftRight_zero]
    have hcast : ((v % (2 ^ w : Nat)).toNat % 2 ^ n : Int) = v % 2 ^ n := by
      rw [Int.toNat_of_nonneg (Int.emod_nonneg _ (by push_cast; exact hposw.ne'))]
      push_cast
      exact Int.emod_emod_of_dvd v hdvd
    have hnonneg : 0 ≤ v % (2 ^ n : Nat) := Int.emod_nonneg _ (by push_cast; exact hpos.ne')
    apply Int.ofNat.inj
    push_cast at hcast hnonneg ⊢
    rw [Int.ofNat_eq_natCast, Int.ofNat_eq_natCast]
    push_cast
    rw [hcast, Int.toNat_of_nonneg hnonneg]
  rw [hbits]
  exact toInt_ofInt_eq_self hn hlow hhigh

/-- The target of a displacement of 32 bits, relative to the end of the field. -/
def rel32Target (place : Nat) (word : BitVec 32) : Int := place + 4 + word.toInt

theorem rel32Target_ofInt {place : Nat} {target : Int} (hlow : -2 ^ 31 ≤ target - (place + 4))
    (hhigh : target - (place + 4) < 2 ^ 31) :
    rel32Target place (BitVec.ofInt 32 (target - (place + 4))) = target := by
  rw [rel32Target, toInt_ofInt_eq_self (by decide) hlow hhigh]
  omega

variable (word : BitVec 32)

/-- The displacement of `B` and `BL`, in words. -/
def branch26Imm : Int := (word.extractLsb' 0 26).toInt

def branch26Target (place : Nat) (word : BitVec 32) : Int := place + 4 * branch26Imm word

def branch26Mask : BitVec 32 := 0xFC000000

theorem branch26_field (word imm : BitVec 32) :
    ((word &&& branch26Mask) ||| (imm &&& 0x03FFFFFF)).extractLsb' 0 26 = imm.extractLsb' 0 26 := by
  apply eq_of_getLsbD_eq
  intro k hk
  simp only [getLsbD_extractLsb', getLsbD_or, getLsbD_and, branch26Mask]
  interval_cases k <;> simp

theorem branch26_rest (word imm : BitVec 32) :
    ((word &&& branch26Mask) ||| (imm &&& 0x03FFFFFF)) &&& branch26Mask =
      word &&& branch26Mask := by
  apply eq_of_getLsbD_eq
  intro k hk
  simp only [getLsbD_or, getLsbD_and, branch26Mask]
  interval_cases k <;> simp

variable {imm : Int}

theorem branch26Imm_insert (hlow : -2 ^ 25 ≤ imm) (hhigh : imm < 2 ^ 25) :
    branch26Imm ((word &&& branch26Mask) ||| (BitVec.ofInt 32 imm &&& 0x03FFFFFF)) = imm := by
  rw [branch26Imm, branch26_field]
  exact toInt_extractLsb'_ofInt (by decide) (by decide) hlow hhigh

/-- The displacement of `ADRP`, in pages. -/
def adrpImm : Int := (word.extractLsb' 5 19 ++ word.extractLsb' 29 2).toInt

/-- The first address of the page of an address. -/
def pageOf (address : Nat) : Nat := address / 4096 * 4096

def adrpTarget (place : Nat) (word : BitVec 32) : Int := pageOf place + 4096 * adrpImm word

def adrpMask : BitVec 32 := ~~~((0x3 <<< 29) ||| (0x7FFFF <<< 5))

def adrpInsert (word imm : BitVec 32) : BitVec 32 :=
  (word &&& adrpMask) ||| ((imm &&& 0x3) <<< 29) ||| (((imm >>> 2) &&& 0x7FFFF) <<< 5)

theorem adrp_field (word imm : BitVec 32) :
    (adrpInsert word imm).extractLsb' 5 19 ++ (adrpInsert word imm).extractLsb' 29 2 =
      imm.extractLsb' 0 21 := by
  apply eq_of_getLsbD_eq
  intro k hk
  simp only [adrpInsert, adrpMask, getLsbD_append, getLsbD_extractLsb', getLsbD_or, getLsbD_and,
    getLsbD_not, getLsbD_shiftLeft, getLsbD_ushiftRight]
  interval_cases k <;> simp

theorem adrp_rest (word imm : BitVec 32) : adrpInsert word imm &&& adrpMask = word &&& adrpMask := by
  apply eq_of_getLsbD_eq
  intro k hk
  simp only [adrpInsert, adrpMask, getLsbD_or, getLsbD_and, getLsbD_not,
    getLsbD_shiftLeft, getLsbD_ushiftRight]
  interval_cases k <;> simp

theorem adrpImm_insert (hlow : -2 ^ 20 ≤ imm)
    (hhigh : imm < 2 ^ 20) : adrpImm (adrpInsert word (BitVec.ofInt 32 imm)) = imm := by
  rw [adrpImm, adrp_field]
  exact toInt_extractLsb'_ofInt (by decide) (by decide) hlow hhigh

/-- The immediate of `ADD` and, in units of the access size, of `LDR`. -/
def imm12 : Nat := (word.extractLsb' 10 12).toNat

def imm12Mask : BitVec 32 := ~~~(0xFFF <<< 10)

def imm12Insert (word imm : BitVec 32) : BitVec 32 :=
  (word &&& imm12Mask) ||| ((imm &&& 0xFFF) <<< 10)

theorem imm12_field (word imm : BitVec 32) :
    (imm12Insert word imm).extractLsb' 10 12 = imm.extractLsb' 0 12 := by
  apply eq_of_getLsbD_eq
  intro k hk
  simp only [imm12Insert, imm12Mask, getLsbD_extractLsb', getLsbD_or,
    getLsbD_and, getLsbD_not, getLsbD_shiftLeft]
  interval_cases k <;> simp

theorem imm12_rest (word imm : BitVec 32) :
    imm12Insert word imm &&& imm12Mask = word &&& imm12Mask := by
  apply eq_of_getLsbD_eq
  intro k hk
  simp only [imm12Insert, imm12Mask, getLsbD_or, getLsbD_and, getLsbD_not, getLsbD_shiftLeft]
  interval_cases k <;> simp

theorem imm12_insert {imm : Nat} (h : imm < 4096) :
    imm12 (imm12Insert word (BitVec.ofNat 32 imm)) = imm := by
  rw [imm12, imm12_field, extractLsb'_toNat, toNat_ofNat, Nat.shiftRight_zero]
  omega

/-- The displacement of `JAL`. -/
def jalImm : Int :=
  (word.extractLsb' 31 1 ++ word.extractLsb' 12 8 ++ word.extractLsb' 20 1 ++
    word.extractLsb' 21 10 ++ 0#1).toInt

def jalTarget (place : Nat) (word : BitVec 32) : Int := place + jalImm word

def jalMask : BitVec 32 := 0x00000FFF

def jalInsert (word imm : BitVec 32) : BitVec 32 :=
  (word &&& jalMask) ||| ((((imm >>> 20) &&& 0x1) <<< 31) ||| (((imm >>> 1) &&& 0x3FF) <<< 21) |||
    (((imm >>> 11) &&& 0x1) <<< 20) ||| (((imm >>> 12) &&& 0xFF) <<< 12))

theorem jal_field (word imm : BitVec 32) (heven : imm.getLsbD 0 = false) :
    (jalInsert word imm).extractLsb' 31 1 ++ (jalInsert word imm).extractLsb' 12 8 ++
      (jalInsert word imm).extractLsb' 20 1 ++ (jalInsert word imm).extractLsb' 21 10 ++ 0#1 =
      imm.extractLsb' 0 21 := by
  have hzero : imm[0] = false := by simpa using heven
  apply eq_of_getLsbD_eq
  intro k hk
  simp only [jalInsert, jalMask, getLsbD_append, getLsbD_extractLsb',
    getLsbD_or, getLsbD_and, getLsbD_shiftLeft, getLsbD_ushiftRight]
  interval_cases k <;> simp [hzero]

theorem jal_rest (word imm : BitVec 32) : jalInsert word imm &&& jalMask = word &&& jalMask := by
  apply eq_of_getLsbD_eq
  intro k hk
  simp only [jalInsert, jalMask, getLsbD_or, getLsbD_and, getLsbD_shiftLeft, getLsbD_ushiftRight]
  interval_cases k <;> simp

theorem jalImm_insert (heven : imm % 2 = 0) (hlow : -2 ^ 20 ≤ imm)
    (hhigh : imm < 2 ^ 20) : jalImm (jalInsert word (BitVec.ofInt 32 imm)) = imm := by
  have hbit : (BitVec.ofInt 32 imm).getLsbD 0 = false := by
    rw [BitVec.getLsbD, toNat_ofInt, Nat.testBit_zero]
    simp only [decide_eq_false_iff_not]
    omega
  rw [jalImm, jal_field word _ hbit]
  exact toInt_extractLsb'_ofInt (by decide) (by decide) hlow hhigh

end Liric.Lib
