import Liric.Lib.InstructionFields

/-!
# Addresses of 64 bits in instructions

What an instruction of x86-64 or A64 makes of its address field when addresses are words of 64
bits that wrap around, and which targets the field reaches. A pair of instructions of A64
computes a page and adds an offset in it.
-/
namespace Liric.Lib
open BitVec

abbrev Addr := BitVec 64

variable {n : Nat}

/-- A signed value that fits in a field is not changed by the field. -/
theorem signExtend_ofInt (hn : 0 < n) {v : Int} (hlow : -2 ^ (n - 1) ≤ v)
    (hhigh : v < 2 ^ (n - 1)) : (BitVec.ofInt n v).signExtend 64 = BitVec.ofInt 64 v := by
  rw [BitVec.signExtend, toInt_ofInt_eq_self hn hlow hhigh]

/-- Low bits of a word as those of its signed value. -/
theorem setWidth_eq_ofInt (x : Addr) (hn : n ≤ 64) : x.setWidth n = BitVec.ofInt n x.toInt := by
  rw [← signExtend_eq_setWidth_of_le x hn, BitVec.signExtend]

theorem eq_add_of_sub_eq {x y d : Addr} (h : y - x = d) : x + d = y := by
  rw [← h, BitVec.add_comm, sub_add_cancel]

theorem add_sub_self (x d : Addr) : x + d - x = d := by
  rw [BitVec.add_comm, add_sub_cancel]

/-- The target of a displacement of 32 bits, relative to the end of the field. -/
def rel32Addr (place : Addr) (word : BitVec 32) : Addr := place + 4 + word.signExtend 64

variable {target place : Addr}

theorem rel32Addr_setWidth (hlow : -2 ^ 31 ≤ (target - (place + 4)).toInt)
    (hhigh : (target - (place + 4)).toInt < 2 ^ 31) :
    rel32Addr place ((target - (place + 4)).setWidth 32) = target := by
  rw [rel32Addr, setWidth_eq_ofInt _ (by decide), signExtend_ofInt (by decide) hlow hhigh,
    ofInt_toInt]
  exact eq_add_of_sub_eq rfl

theorem rel32Addr_range (place : Addr) (word : BitVec 32) :
    -2 ^ 31 ≤ (rel32Addr place word - (place + 4)).toInt ∧
      (rel32Addr place word - (place + 4)).toInt < 2 ^ 31 := by
  rw [rel32Addr, add_sub_self, toInt_signExtend_of_le (by decide)]
  exact ⟨word.le_toInt, word.toInt_lt⟩

/-- A field in units of `2 ^ k`. -/
theorem signExtend_shift (field : BitVec n) (k : Nat) :
    field.signExtend 64 <<< k = BitVec.ofInt 64 (field.toInt * 2 ^ k) := by
  have hpow : BitVec.twoPow 64 k = BitVec.ofInt 64 (2 ^ k) := by
    have hcast : (2 : Int) ^ k = ((2 ^ k : Nat) : Int) := by push_cast; rfl
    apply eq_of_toNat_eq
    rw [hcast, ofInt_natCast, toNat_twoPow, toNat_ofNat]
  rw [shiftLeft_eq_mul_twoPow, BitVec.signExtend, ofInt_mul, hpow]

/-- The target of `B` and `BL`. -/
def branch26Addr (place : Addr) (word : BitVec 32) : Addr :=
  place + (word.extractLsb' 0 26).signExtend 64 <<< 2

theorem branch26Addr_of_imm {word : BitVec 32}
    (himm : branch26Imm word * 4 = (target - place).toInt) : branch26Addr place word = target := by
  apply eq_add_of_sub_eq
  rw [signExtend_shift]
  change target - place = BitVec.ofInt 64 (branch26Imm word * 4)
  rw [himm, ofInt_toInt]

theorem branch26Addr_range (place : Addr) (word : BitVec 32) :
    (branch26Addr place word - place).toInt = branch26Imm word * 4 ∧
      -2 ^ 25 ≤ branch26Imm word ∧ branch26Imm word < 2 ^ 25 := by
  have hlow : -2 ^ 25 ≤ branch26Imm word := (word.extractLsb' 0 26).le_toInt
  have hhigh : branch26Imm word < 2 ^ 25 := (word.extractLsb' 0 26).toInt_lt
  refine ⟨?_, hlow, hhigh⟩
  rw [branch26Addr, add_sub_self, signExtend_shift]
  exact toInt_ofInt_eq_self (by decide) (by change _ ≤ branch26Imm word * 4; omega)
    (by change branch26Imm word * 4 < _; omega)

theorem sub_mod_four {a b : Addr} (ha : a.toNat % 4 = 0) (hb : b.toNat % 4 = 0) :
    (a - b).toInt % 4 = 0 := by
  rw [toInt_eq_toNat_cond, toNat_sub]
  split <;> omega

/-- The first address of a page. -/
def pageAddr (a : Addr) : Addr := a &&& ~~~0xFFF

/-- What `ADRP` leaves in its register. -/
def adrpAddr (place : Addr) (word : BitVec 32) : Addr :=
  pageAddr place + (word.extractLsb' 5 19 ++ word.extractLsb' 29 2).signExtend 64 <<< 12

theorem toNat_pageAddr (a : Addr) : (pageAddr a).toNat = a.toNat / 4096 * 4096 := by
  have hshift : pageAddr a = a >>> 12 <<< 12 := by
    apply eq_of_getLsbD_eq
    intro k hk
    simp only [pageAddr, getLsbD_and, getLsbD_not, getLsbD_shiftLeft, getLsbD_ushiftRight]
    interval_cases k <;> simp
  have hlt := a.isLt
  rw [hshift, toNat_shiftLeft, toNat_ushiftRight, Nat.shiftRight_eq_div_pow, Nat.shiftLeft_eq]
  omega

/-- Two pages are a whole number of pages apart. -/
theorem pageAddr_sub (a b : Addr) : (pageAddr a - pageAddr b).toInt % 4096 = 0 := by
  have ha := toNat_pageAddr a
  have hb := toNat_pageAddr b
  rw [toInt_eq_toNat_cond, toNat_sub]
  split <;> omega

theorem toNat_offset (a : Addr) : (a &&& 0xFFF).toNat = a.toNat % 4096 :=
  (toNat_and a 0xFFF).trans (Nat.and_two_pow_sub_one_eq_mod a.toNat 12)

theorem pageAddr_add_offset (a : Addr) : pageAddr a + (a &&& 0xFFF) = a := by
  have hdisjoint : pageAddr a &&& (a &&& 0xFFF) = 0 := by
    apply eq_of_getLsbD_eq
    intro k hk
    simp only [pageAddr, getLsbD_and, getLsbD_not]
    interval_cases k <;> simp
  rw [add_eq_or_of_and_eq_zero _ _ hdisjoint]
  apply eq_of_getLsbD_eq
  intro k hk
  simp only [pageAddr, getLsbD_or, getLsbD_and, getLsbD_not]
  interval_cases k <;> simp

theorem adrpAddr_of_imm {word : BitVec 32}
    (himm : adrpImm word * 4096 = (pageAddr target - pageAddr place).toInt) :
    adrpAddr place word = pageAddr target := by
  apply eq_add_of_sub_eq
  rw [signExtend_shift]
  change pageAddr target - pageAddr place = BitVec.ofInt 64 (adrpImm word * 4096)
  rw [himm, ofInt_toInt]

theorem adrpAddr_range (place : Addr) (word : BitVec 32) :
    (adrpAddr place word - pageAddr place).toInt = adrpImm word * 4096 ∧
      -2 ^ 20 ≤ adrpImm word ∧ adrpImm word < 2 ^ 20 := by
  have hlow : -2 ^ 20 ≤ adrpImm word := (word.extractLsb' 5 19 ++ word.extractLsb' 29 2).le_toInt
  have hhigh : adrpImm word < 2 ^ 20 := (word.extractLsb' 5 19 ++ word.extractLsb' 29 2).toInt_lt
  refine ⟨?_, hlow, hhigh⟩
  rw [adrpAddr, add_sub_self, signExtend_shift]
  exact toInt_ofInt_eq_self (by decide) (by change _ ≤ adrpImm word * 4096; omega)
    (by change adrpImm word * 4096 < _; omega)

variable (word : BitVec 32)

/-- The unsigned immediate of `ADD` and of `LDR`. -/
def imm12Addr : Addr := (word.extractLsb' 10 12).setWidth 64

theorem toNat_imm12Addr : (imm12Addr word).toNat = imm12 word := by
  have hlt : imm12 word < 2 ^ 12 := (word.extractLsb' 10 12).isLt
  rw [imm12Addr, toNat_setWidth]
  exact Nat.mod_eq_of_lt (Nat.lt_of_lt_of_le hlt (by decide))

abbrev Registers := BitVec 5 → Addr

def rdField : BitVec 5 := word.extractLsb' 0 5

def rnField : BitVec 5 := word.extractLsb' 5 5

def isAdrp : Bool := word &&& 0x9F000000 = 0x90000000

/-- `ADD` of 64 bits with an unshifted immediate. -/
def isAddImm : Bool := word &&& 0xFFC00000 = 0x91000000

/-- `LDR` of eight bytes with an unsigned offset. -/
def isLdrImm : Bool := word &&& 0xFFC00000 = 0xF9400000

/-- Number 31 takes no result. -/
def execAdrp (place : Addr) (word : BitVec 32) (x : Registers) : Registers :=
  if rdField word = 31 then x else Function.update x (rdField word) (adrpAddr place word)

/-- What `ADRP` and then `ADD` compute, or the address that `LDR` reads after `ADRP`. -/
def pairAddr (place : Addr) (adrp low : BitVec 32) (x : Registers) : Option Addr :=
  let x := execAdrp place adrp x
  if !isAdrp adrp then none
  else if isAddImm low then some (x (rnField low) + imm12Addr low)
  else if isLdrImm low then some (x (rnField low) + imm12Addr low <<< 3)
  else none

/-- Bits that agree under a mask agree under a smaller one. -/
theorem and_of_mask {w w' m n : BitVec 32} (h : w &&& m = w' &&& m) (hsub : m &&& n = n) :
    w &&& n = w' &&& n := by
  rw [← hsub, ← BitVec.and_assoc, h, BitVec.and_assoc]

theorem field_of_mask {w w' m : BitVec 32} {start len : Nat} (h : w &&& m = w' &&& m)
    (hsub : m.extractLsb' start len = BitVec.allOnes len) :
    w.extractLsb' start len = w'.extractLsb' start len := by
  have hfield := congrArg (BitVec.extractLsb' start len) h
  rwa [extractLsb'_and, extractLsb'_and, hsub, and_allOnes, and_allOnes] at hfield

section Beside
variable {w w' : BitVec 32}

theorem isAdrp_of_rest (h : w &&& adrpMask = w' &&& adrpMask) : isAdrp w = isAdrp w' := by
  rw [isAdrp, isAdrp, and_of_mask h (by decide)]

theorem rdField_of_rest (h : w &&& adrpMask = w' &&& adrpMask) : rdField w = rdField w' :=
  field_of_mask h (by decide)

theorem isAddImm_of_rest (h : w &&& imm12Mask = w' &&& imm12Mask) : isAddImm w = isAddImm w' := by
  rw [isAddImm, isAddImm, and_of_mask h (by decide)]

theorem isLdrImm_of_rest (h : w &&& imm12Mask = w' &&& imm12Mask) : isLdrImm w = isLdrImm w' := by
  rw [isLdrImm, isLdrImm, and_of_mask h (by decide)]

theorem rnField_of_rest (h : w &&& imm12Mask = w' &&& imm12Mask) : rnField w = rnField w' :=
  field_of_mask h (by decide)

end Beside

/-- A page and the offset in it. -/
theorem pairAddr_add {adrp low : BitVec 32} (hadrp : isAdrp adrp = true)
    (hlow : isAddImm low = true) (hrd : rdField adrp ≠ 31) (hrn : rnField low = rdField adrp)
    (hpage : adrpAddr place adrp = pageAddr target) (himm : imm12Addr low = target &&& 0xFFF)
    (x : Registers) : pairAddr place adrp low x = some target := by
  rw [pairAddr, hadrp, hlow, execAdrp, if_neg hrd, hrn, Function.update_self, hpage, himm,
    pageAddr_add_offset]
  rfl

theorem pairAddr_ldr {adrp low : BitVec 32} (hadrp : isAdrp adrp = true)
    (hlow : isLdrImm low = true) (hrd : rdField adrp ≠ 31) (hrn : rnField low = rdField adrp)
    (hpage : adrpAddr place adrp = pageAddr target)
    (himm : imm12Addr low <<< 3 = target &&& 0xFFF) (x : Registers) :
    pairAddr place adrp low x = some target := by
  have hadd : isAddImm low = false := by
    rw [isLdrImm, decide_eq_true_eq] at hlow
    rw [isAddImm, hlow]
    decide
  rw [pairAddr, hadrp, hadd, hlow, execAdrp, if_neg hrd, hrn, Function.update_self, hpage, himm,
    pageAddr_add_offset]
  rfl

end Liric.Lib
