import Liric.Lib.AddressFields
import Liric.Source.Jit.Relocs

/-!
# Patches denote their targets

A patch either changes one address field, which then denotes the target, or fails and changes
nothing; it fails exactly for an offset outside the buffer or a target that no value of the
field denotes. A page and an offset in it make up the whole address.
-/
namespace Liric.Guarantees.JitPatching
open Lib Source Source.Jit.Patching BitVec

/-- The field a patch writes. -/
inductive Field where
  | rel32
  | branch26
  | page21
  | pageoff12 (gotLoad : Bool)
  deriving DecidableEq

def Field.patch : Field → CodeBuf → BitVec 32 → Addr → Int × CodeBuf
  | .rel32, code, off, target => patchX86Rel32 code off target
  | .branch26, code, off, target => patchAarch64Branch26 code off target
  | .page21, code, off, target => patchAarch64Page21 code off target
  | .pageoff12 gotLoad, code, off, target => patchAarch64Pageoff12 code off target gotLoad

/-- The bits beside the field. -/
def Field.rest : Field → BitVec 32
  | .rel32 => 0
  | .branch26 => branch26Mask
  | .page21 => adrpMask
  | .pageoff12 _ => imm12Mask

/-- The field of `word`, read at `place`, stands for its part of the target. -/
def Field.Denotes (place target : Addr) (word : BitVec 32) : Field → Prop
  | .rel32 => rel32Addr place word = target
  | .branch26 => branch26Addr place word = target
  | .page21 => adrpAddr place word = pageAddr target
  | .pageoff12 false => imm12Addr word = target &&& 0xFFF
  | .pageoff12 true => imm12Addr word <<< 3 = target &&& 0xFFF

/-- Branches go between addresses of instructions. -/
def Field.Aligned (place target : Addr) (field : Field) : Prop :=
  field = .branch26 → place.toNat % 4 = 0 ∧ target.toNat % 4 = 0

variable {field : Field} {place : Addr}

theorem Field.aligned_of_ne {target : Addr} (h : field ≠ .branch26) :
    field.Aligned place target := fun hbranch => absurd hbranch h

def wordAt (code : CodeBuf) (off : BitVec 32) : BitVec 32 := wordOf (bytesAt code.bytes off.toNat 4)

theorem index_add {off : BitVec 32} {n : Nat} (hin : off.toNat + 4 ≤ n) (hroom : n ≤ 2 ^ 32)
    {k : Nat} (hk : k < 4) : (off + BitVec.ofNat 32 k).toNat = off.toNat + k := by
  have hsmall : k < 2 ^ 32 := Nat.lt_trans hk (by decide)
  rw [toNat_add, toNat_ofNat, Nat.mod_eq_of_lt hsmall]
  exact Nat.mod_eq_of_lt (by omega)

section Words
variable {code : CodeBuf} {off : BitVec 32}

section
variable (hin : off.toNat + 4 ≤ code.buflen) (hroom : code.buflen ≤ 2 ^ 32)
include hin hroom

theorem readU32_eq : readU32 code off = wordAt code off := by
  have h₁ : (off + 1).toNat = off.toNat + 1 := index_add hin hroom (by decide)
  have h₂ : (off + 2).toNat = off.toNat + 2 := index_add hin hroom (by decide)
  have h₃ : (off + 3).toNat = off.toNat + 3 := index_add hin hroom (by decide)
  rw [wordAt, bytesAt_four _ hin, wordOf_four, readU32]
  dsimp only
  rw [h₁, h₂, h₃]

theorem writeU32_eq (value : BitVec 32) : writeU32 code off value =
      (0, { code with bytes := overwrite code.bytes off.toNat (leBytes 4 value.toNat) }) := by
  have h₁ : (off + 1).toNat = off.toNat + 1 := index_add hin hroom (by decide)
  have h₂ : (off + 2).toNat = off.toNat + 2 := index_add hin hroom (by decide)
  have h₃ : (off + 3).toNat = off.toNat + 3 := index_add hin hroom (by decide)
  have hlen : off.toNat + 4 ≤ code.bytes.length := hin
  rw [writeU32, if_neg (by omega), leBytes_word, overwrite_four _ _ _ _ hlen]
  dsimp only
  rw [h₁, h₂, h₃]

/-- Reading a word, changing it and writing it back is one change of the buffer. -/
theorem writeU32_readU32 (f : BitVec 32 → BitVec 32) : writeU32 code off (f (readU32 code off)) =
      (0, { code with bytes := applyPatch code.bytes (patchWord off.toNat f) }) := by
  rw [writeU32_eq hin hroom, readU32_eq hin hroom, applyPatch_patchWord, wordAt]

end

end Words

section
variable (place target : Addr)

def pagesApart : Addr := (pageAddr target - pageAddr place).sshiftRight 12

/-- The checks on the target. -/
def Field.InRange (place target : Addr) : Field → Prop
  | .rel32 =>
    -2 ^ 31 ≤ (target - (place + 4)).toInt ∧ (target - (place + 4)).toInt ≤ 2 ^ 31 - 1
  | .branch26 =>
    -2 ^ 25 ≤ (target - place).toInt.tdiv 4 ∧ (target - place).toInt.tdiv 4 < 2 ^ 25
  | .page21 =>
    -2 ^ 20 ≤ (pagesApart place target).toInt ∧ (pagesApart place target).toInt < 2 ^ 20
  | .pageoff12 gotLoad => gotLoad = true → (target &&& 0xFFF).setWidth 32 &&& (0x7 : BitVec 32) = 0

/-- The change of the word. -/
def Field.insert (place target : Addr) : Field → BitVec 32 → BitVec 32
  | .rel32, _ => (target - (place + 4)).setWidth 32
  | .branch26, word =>
    (word &&& branch26Mask) ||| (BitVec.ofInt 32 ((target - place).toInt.tdiv 4) &&& 0x03FFFFFF)
  | .page21, word => adrpInsert word ((pagesApart place target).setWidth 32)
  | .pageoff12 gotLoad, word =>
    let imm : BitVec 32 := (target &&& 0xFFF).setWidth 32
    imm12Insert word (if gotLoad then imm >>> 3 else imm)

theorem Field.insert_rest (field : Field) (word : BitVec 32) :
    field.insert place target word &&& field.rest = word &&& field.rest := by
  cases field with
  | rel32 => exact and_zero.trans and_zero.symm
  | branch26 => exact branch26_rest word _
  | page21 => exact adrp_rest word _
  | pageoff12 gotLoad => exact imm12_rest word _

/-- The new word does not depend on what the field held. -/
theorem Field.insert_congr (field : Field) {word word' : BitVec 32}
    (h : word &&& field.rest = word' &&& field.rest) :
    field.insert place target word = field.insert place target word' := by
  cases field with
  | rel32 => rfl
  | branch26 =>
    change word &&& branch26Mask = word' &&& branch26Mask at h
    rw [Field.insert, Field.insert, h]
  | page21 =>
    change word &&& adrpMask = word' &&& adrpMask at h
    rw [Field.insert, Field.insert, adrpInsert, adrpInsert, h]
  | pageoff12 gotLoad =>
    change word &&& imm12Mask = word' &&& imm12Mask at h
    rw [Field.insert, Field.insert, imm12Insert, imm12Insert, h]

theorem pagesApart_toInt : (pagesApart place target).toInt * 4096 =
    (pageAddr target - pageAddr place).toInt := by
  have hwhole := pageAddr_sub target place
  rw [pagesApart, toInt_sshiftRight, Int.shiftRight_eq_div_pow]
  omega

/-- The offset of an address in its page, in 32 bits. -/
theorem offset_setWidth (target : Addr) :
    (target &&& 0xFFF).setWidth 32 = BitVec.ofNat 32 (target.toNat % 4096) := by
  apply eq_of_toNat_eq
  rw [toNat_setWidth, toNat_offset, toNat_ofNat]

theorem inRange_pageoff12 (gotLoad : Bool) :
    (Field.pageoff12 gotLoad).InRange place target ↔ (gotLoad = true → target.toNat % 8 = 0) := by
  have hlow : ((target &&& 0xFFF).setWidth 32 &&& (0x7 : BitVec 32)).toNat = target.toNat % 8 := by
    have hmask := Nat.and_two_pow_sub_one_eq_mod (target.toNat % 4096 % 2 ^ 32) 3
    rw [offset_setWidth, toNat_and, toNat_ofNat]
    refine hmask.trans ?_
    omega
  refine imp_congr_right fun _ => ?_
  rw [← hlow]
  exact ⟨fun h => congrArg BitVec.toNat h, fun h => eq_of_toNat_eq h⟩

end

theorem Field.denotes_insert {target : Addr}
    (haligned : field.Aligned place target) (hrange : field.InRange place target)
    (word : BitVec 32) : field.Denotes place target (field.insert place target word) := by
  cases field with
  | rel32 => exact rel32Addr_setWidth hrange.1 (by have := hrange.2; omega)
  | branch26 =>
    obtain ⟨hplace, htarget⟩ := haligned rfl
    have hwhole := sub_mod_four htarget hplace
    apply branch26Addr_of_imm
    rw [Field.insert, branch26Imm_insert word hrange.1 hrange.2]
    exact Int.tdiv_mul_cancel (Int.dvd_of_emod_eq_zero hwhole)
  | page21 =>
    apply adrpAddr_of_imm
    rw [Field.insert, setWidth_eq_ofInt _ (by decide), adrpImm_insert word hrange.1 hrange.2,
      pagesApart_toInt]
  | pageoff12 gotLoad =>
    have hoffset := toNat_offset target
    have hsmall : target.toNat % 4096 < 4096 := Nat.mod_lt _ (by decide)
    cases gotLoad with
    | false =>
      apply eq_of_toNat_eq
      rw [toNat_imm12Addr, hoffset]
      change imm12 (imm12Insert word ((target &&& 0xFFF).setWidth 32)) = _
      rw [offset_setWidth, imm12_insert word hsmall]
    | true =>
      have height := (inRange_pageoff12 place target true).1 hrange rfl
      have hshift : (BitVec.ofNat 32 (target.toNat % 4096)) >>> 3 =
          BitVec.ofNat 32 (target.toNat % 4096 / 8) := by
        apply eq_of_toNat_eq
        rw [toNat_ushiftRight, toNat_ofNat, toNat_ofNat, Nat.shiftRight_eq_div_pow]
        omega
      apply eq_of_toNat_eq
      rw [toNat_shiftLeft, toNat_imm12Addr, hoffset, Nat.shiftLeft_eq]
      change imm12 (imm12Insert word ((target &&& 0xFFF).setWidth 32 >>> 3)) * 2 ^ 3 % 2 ^ 64 = _
      rw [offset_setWidth, hshift, imm12_insert word (by omega)]
      omega

/-- The check lets through what some value of the field denotes. -/
theorem Field.inRange_of_denotes {target : Addr} {word : BitVec 32}
    (h : field.Denotes place target word) : field.InRange place target := by
  cases field with
  | rel32 =>
    have hrange := rel32Addr_range place word
    rw [show rel32Addr place word = target from h] at hrange
    exact ⟨hrange.1, by have := hrange.2; omega⟩
  | branch26 =>
    have hrange := branch26Addr_range place word
    rw [show branch26Addr place word = target from h] at hrange
    obtain ⟨himm, hlow, hhigh⟩ := hrange
    rw [Field.InRange, himm, Int.mul_tdiv_cancel _ (by decide)]
    exact ⟨hlow, hhigh⟩
  | page21 =>
    have hrange := adrpAddr_range place word
    rw [show adrpAddr place word = pageAddr target from h, ← pagesApart_toInt] at hrange
    obtain ⟨himm, hlow, hhigh⟩ := hrange
    exact ⟨by omega, by omega⟩
  | pageoff12 gotLoad =>
    rw [inRange_pageoff12]
    rintro rfl
    have hshift := congrArg BitVec.toNat (show imm12Addr word <<< 3 = target &&& 0xFFF from h)
    rw [toNat_shiftLeft, toNat_offset, Nat.shiftLeft_eq] at hshift
    omega

instance (place target : Addr) (field : Field) : Decidable (field.InRange place target) :=
  match field with
  | .rel32 => inferInstanceAs (Decidable (_ ∧ _))
  | .branch26 => inferInstanceAs (Decidable (_ ∧ _))
  | .page21 => inferInstanceAs (Decidable (_ ∧ _))
  | .pageoff12 _ => inferInstanceAs (Decidable (_ → _))

/-- What a patch does: the word is changed if it lies in the buffer and the target in range. -/
def Field.patched (field : Field) (code : CodeBuf) (off : BitVec 32) (target : Addr) :
    Int × CodeBuf :=
  if off.toNat + 4 ≤ code.buflen ∧ field.InRange (code.place off) target then
    (0, { code with
      bytes := applyPatch code.bytes (patchWord off.toNat (field.insert (code.place off) target)) })
  else (-1, code)

theorem Field.patched_of_in {code : CodeBuf} {off : BitVec 32} {target : Addr}
    (hin : off.toNat + 4 ≤ code.buflen) (hrange : field.InRange (code.place off) target) :
    field.patched code off target = (0, { code with
      bytes := applyPatch code.bytes
        (patchWord off.toNat (field.insert (code.place off) target)) }) :=
  if_pos ⟨hin, hrange⟩

theorem Field.patched_of_out {code : CodeBuf} {off : BitVec 32} {target : Addr}
    (h : ¬ (off.toNat + 4 ≤ code.buflen ∧ field.InRange (code.place off) target)) :
    field.patched code off target = (-1, code) := if_neg h

section Patches
variable {code : CodeBuf} (hroom : code.buflen ≤ 2 ^ 32) (off : BitVec 32) (target : Addr)
include hroom

theorem patchX86Rel32_eq : patchX86Rel32 code off target = Field.rel32.patched code off target := by
  rw [patchX86Rel32]
  by_cases hrange : Field.rel32.InRange (code.place off) target
  · obtain ⟨hlow, hhigh⟩ := id hrange
    rw [if_neg (by omega)]
    by_cases hin : off.toNat + 4 ≤ code.buflen
    · rw [Field.patched_of_in hin hrange]
      exact writeU32_readU32 hin hroom (Field.rel32.insert (code.place off) target)
    · rw [Field.patched_of_out fun h => hin h.1, writeU32, if_pos (by omega)]
  · rw [Field.patched_of_out fun h => hrange h.2, if_pos]
    by_contra hno
    exact hrange ⟨by omega, by omega⟩

theorem patchAarch64Branch26_eq :
    patchAarch64Branch26 code off target = Field.branch26.patched code off target := by
  rw [patchAarch64Branch26]
  by_cases hin : off.toNat + 4 ≤ code.buflen
  · rw [if_neg (by omega)]
    dsimp only
    by_cases hrange : Field.branch26.InRange (code.place off) target
    · obtain ⟨hlow, hhigh⟩ := id hrange
      rw [if_neg (by omega), Field.patched_of_in hin hrange]
      exact writeU32_readU32 hin hroom (Field.branch26.insert (code.place off) target)
    · rw [Field.patched_of_out fun h => hrange h.2, if_pos]
      by_contra hno
      exact hrange ⟨by omega, by omega⟩
  · rw [Field.patched_of_out fun h => hin h.1, if_pos (by omega)]

theorem patchAarch64Page21_eq :
    patchAarch64Page21 code off target = Field.page21.patched code off target := by
  rw [patchAarch64Page21]
  by_cases hin : off.toNat + 4 ≤ code.buflen
  · rw [if_neg (by omega)]
    dsimp only
    change (if (pagesApart (code.place off) target).toInt < -2 ^ 20 ∨
      (pagesApart (code.place off) target).toInt ≥ 2 ^ 20 then _ else _) = _
    by_cases hrange : Field.page21.InRange (code.place off) target
    · obtain ⟨hlow, hhigh⟩ := id hrange
      rw [if_neg (by omega), Field.patched_of_in hin hrange]
      exact writeU32_readU32 hin hroom (Field.page21.insert (code.place off) target)
    · rw [Field.patched_of_out fun h => hrange h.2, if_pos]
      by_contra hno
      exact hrange ⟨by omega, by omega⟩
  · rw [Field.patched_of_out fun h => hin h.1, if_pos (by omega)]

theorem patchAarch64Pageoff12_eq (gotLoad : Bool) : patchAarch64Pageoff12 code off target gotLoad =
    (Field.pageoff12 gotLoad).patched code off target := by
  rw [patchAarch64Pageoff12]
  by_cases hin : off.toNat + 4 ≤ code.buflen
  · rw [if_neg (by omega)]
    dsimp only
    by_cases hrange : (Field.pageoff12 gotLoad).InRange (code.place off) target
    · rw [if_neg fun h => h.2 (hrange h.1), Field.patched_of_in hin hrange]
      exact writeU32_readU32 hin hroom ((Field.pageoff12 gotLoad).insert (code.place off) target)
    · rw [Field.patched_of_out fun h => hrange h.2, if_pos]
      by_contra hno
      exact hrange fun hload => by_contra fun hbits => hno ⟨hload, hbits⟩
  · rw [Field.patched_of_out fun h => hin h.1, if_pos (by omega)]

theorem patch_eq (field : Field) : field.patch code off target = field.patched code off target := by
  cases field with
  | rel32 => exact patchX86Rel32_eq hroom off target
  | branch26 => exact patchAarch64Branch26_eq hroom off target
  | page21 => exact patchAarch64Page21_eq hroom off target
  | pageoff12 gotLoad => exact patchAarch64Pageoff12_eq hroom off target gotLoad

end Patches

/-- At most the field in the word at `off` has changed. -/
structure Field.Kept (field : Field) (off : BitVec 32) (code code' : CodeBuf) : Prop where
  buf : code'.buf = code.buf
  length : code'.buflen = code.buflen
  bytes : ∀ i, i < off.toNat ∨ off.toNat + 4 ≤ i → code'.bytes[i]? = code.bytes[i]?
  rest : wordAt code' off &&& field.rest = wordAt code off &&& field.rest

theorem wordAt_patched {code : CodeBuf} {off : BitVec 32} (hin : off.toNat + 4 ≤ code.buflen)
    (f : BitVec 32 → BitVec 32) :
    wordAt { code with bytes := applyPatch code.bytes (patchWord off.toNat f) } off =
      f (wordAt code off) := by
  have hbytes := bytesAt_applyPatch (patchWord_fits (f := f) hin)
  exact (congrArg wordOf hbytes).trans (wordOf_leBytes _)

theorem wordAt_of_apart {off low : BitVec 32} {code code' : CodeBuf}
    (hkept : field.Kept off code code') (hapart : Apart low.toNat 4 off.toNat 4) :
    wordAt code' low = wordAt code low := by
  rw [wordAt, wordAt]
  congr 1
  apply bytesAt_congr
  intro i hi
  apply hkept.bytes
  rw [Apart] at hapart
  omega

/-- What one patch does. -/
theorem patched_cases (field : Field) (code : CodeBuf) (off : BitVec 32) (target : Addr) :
    (field.patched code off target).1 = 0 ∧
        (off.toNat + 4 ≤ code.buflen ∧ field.InRange (code.place off) target) ∧
        field.Kept off code (field.patched code off target).2 ∧
        wordAt (field.patched code off target).2 off =
          field.insert (code.place off) target (wordAt code off) ∨
      ¬ (off.toNat + 4 ≤ code.buflen ∧ field.InRange (code.place off) target) ∧
        field.patched code off target = (-1, code) := by
  by_cases h : off.toNat + 4 ≤ code.buflen ∧ field.InRange (code.place off) target
  · have hfits := patchWord_fits (f := field.insert (code.place off) target)
      (show off.toNat + 4 ≤ code.bytes.length from h.1)
    have hword := wordAt_patched h.1 (field.insert (code.place off) target)
    rw [Field.patched_of_in h.1 h.2]
    refine Or.inl ⟨rfl, h, ⟨rfl, length_applyPatch hfits, ?_, ?_⟩, hword⟩
    · intro i hi
      exact getElem?_applyPatch_of_apart hfits hi
    · rw [hword, Field.insert_rest]
  · exact Or.inr ⟨h, Field.patched_of_out h⟩

/-- A second patch of a field leaves what it alone would have. -/
theorem patched_again (field : Field) (code : CodeBuf) (off : BitVec 32) (target target' : Addr) :
    (field.patched (field.patched code off target).2 off target').1 =
        (field.patched code off target').1 ∧
      ((field.patched code off target').1 = 0 →
        field.patched (field.patched code off target).2 off target' =
          field.patched code off target') := by
  obtain ⟨hzero, h, hkept, -⟩ | ⟨-, hout⟩ := patched_cases field code off target
  · have hplace : (field.patched code off target).2.place off = code.place off := by
      rw [CodeBuf.place, hkept.buf, CodeBuf.place]
    by_cases h' : field.InRange (code.place off) target'
    · have hin' : off.toNat + 4 ≤ (field.patched code off target).2.buflen := by
        rw [hkept.length]
        exact h.1
      have hagain : field.patched (field.patched code off target).2 off target' =
          field.patched code off target' := by
        rw [Field.patched_of_in hin' (hplace.symm ▸ h'), hplace, Field.patched_of_in h.1 h',
          Field.patched_of_in h.1 h.2]
        dsimp only
        rw [applyPatch_applyPatch h.1]
        intro w
        exact field.insert_congr _ _ (field.insert_rest _ _ w)
      exact ⟨congrArg Prod.fst hagain, fun _ => hagain⟩
    · have hout : field.patched code off target' = (-1, code) :=
        Field.patched_of_out fun hall => h' hall.2
      rw [hout, Field.patched_of_out fun hall => h' (hplace ▸ hall.2)]
      exact ⟨rfl, fun habs => absurd (show (-1 : Int) = 0 from habs) (by decide)⟩
  · rw [hout]
    exact ⟨rfl, fun _ => rfl⟩

/-- The instruction after `ADRP`: `ADD`, or `LDR` of a slot. -/
def isLow (gotLoad : Bool) (word : BitVec 32) : Bool :=
  if gotLoad then isLdrImm word else isAddImm word

/-- The page of the target and its offset, wherever the two instructions stand. -/
theorem pair_denotes {code : CodeBuf} {off low : BitVec 32} {target : Addr} {gotLoad : Bool}
    (hapart : Apart low.toNat 4 off.toNat 4) (hadrp : isAdrp (wordAt code off) = true)
    (hlow : isLow gotLoad (wordAt code low) = true) (hrd : rdField (wordAt code off) ≠ 31)
    (hrn : rnField (wordAt code low) = rdField (wordAt code off))
    (hpage : (Field.page21.patched code off target).1 = 0)
    (hoff : ((Field.pageoff12 gotLoad).patched (Field.page21.patched code off target).2 low
      target).1 = 0) (x : Registers) :
    let code' := ((Field.pageoff12 gotLoad).patched (Field.page21.patched code off target).2 low
      target).2
    pairAddr (code.place off) (wordAt code' off) (wordAt code' low) x = some target := by
  have hnot : ∀ (field : Field) (code : CodeBuf) (off : BitVec 32), field.patched code off target =
      (-1, code) → (field.patched code off target).1 ≠ 0 := by
    intro field code off hout
    rw [hout]
    exact (by decide : (-1 : Int) ≠ 0)
  obtain ⟨-, ⟨-, hrange₁⟩, hkept₁, hword₁⟩ | ⟨-, hout⟩ := patched_cases .page21 code off target
  swap
  · exact absurd hpage (hnot _ _ _ hout)
  generalize (Field.page21.patched code off target).2 = code₁ at hkept₁ hword₁ hoff ⊢
  obtain ⟨-, ⟨-, hrange₂⟩, hkept₂, hword₂⟩ | ⟨-, hout⟩ :=
    patched_cases (.pageoff12 gotLoad) code₁ low target
  swap
  · exact absurd hoff (hnot _ _ _ hout)
  generalize ((Field.pageoff12 gotLoad).patched code₁ low target).2 = code₂ at hkept₂ hword₂ ⊢
  dsimp only
  have hfirst : wordAt code₂ off = wordAt code₁ off := wordAt_of_apart hkept₂ hapart.symm
  have hbefore : wordAt code₁ low = wordAt code low := wordAt_of_apart hkept₁ hapart
  have hdenotes₁ : adrpAddr (code.place off) (wordAt code₂ off) = pageAddr target := by
    rw [hfirst, hword₁]
    exact Field.denotes_insert (Field.aligned_of_ne (by simp)) hrange₁ _
  have hdenotes₂ : (Field.pageoff12 gotLoad).Denotes (code₁.place low) target
      (wordAt code₂ low) := by
    rw [hword₂]
    exact Field.denotes_insert (Field.aligned_of_ne (by simp)) hrange₂ _
  have hrest₁ : wordAt code₂ off &&& adrpMask = wordAt code off &&& adrpMask := hfirst ▸ hkept₁.rest
  have hrest₂ : wordAt code₂ low &&& imm12Mask = wordAt code low &&& imm12Mask :=
    hbefore ▸ hkept₂.rest
  rw [← isAdrp_of_rest hrest₁] at hadrp
  rw [← rnField_of_rest hrest₂, ← rdField_of_rest hrest₁] at hrn
  rw [← rdField_of_rest hrest₁] at hrd
  cases gotLoad with
  | false =>
    rw [isLow, if_neg (by decide), ← isAddImm_of_rest hrest₂] at hlow
    exact pairAddr_add hadrp hlow hrd hrn hdenotes₁ hdenotes₂ x
  | true =>
    rw [isLow, if_pos rfl, ← isLdrImm_of_rest hrest₂] at hlow
    exact pairAddr_ldr hadrp hlow hrd hrn hdenotes₁ hdenotes₂ x

/-- A patch that returns 0 has made its field denote the target and changed nothing else; any
other returns -1 and has changed nothing, because the word is outside the buffer or no value of
the field denotes the target; of two patches the last counts; a page and an offset in it make
up the target. The buffer of the JIT has 16 MiB. -/
theorem patches_denote {code : CodeBuf} (hroom : code.buflen ≤ 2 ^ 32) (off : BitVec 32)
    (target : Addr) :
    (∀ field : Field,
      let out := field.patch code off target
      (out.1 = 0 ∧ off.toNat + 4 ≤ code.buflen ∧ field.Kept off code out.2 ∨
        out.1 = -1 ∧ out.2 = code) ∧
      (field.Aligned (code.place off) target →
        (out.1 = 0 → field.Denotes (code.place off) target (wordAt out.2 off)) ∧
        (out.1 = 0 ↔ off.toNat + 4 ≤ code.buflen ∧
          ∃ word, field.Denotes (code.place off) target word)) ∧
      ∀ target', (field.patch out.2 off target').1 = (field.patch code off target').1 ∧
        ((field.patch code off target').1 = 0 →
          field.patch out.2 off target' = field.patch code off target')) ∧
    ∀ (low : BitVec 32) (gotLoad : Bool), Apart low.toNat 4 off.toNat 4 →
      isAdrp (wordAt code off) = true → isLow gotLoad (wordAt code low) = true →
      rdField (wordAt code off) ≠ 31 →
      rnField (wordAt code low) = rdField (wordAt code off) →
      let page := patchAarch64Page21 code off target
      let pair := patchAarch64Pageoff12 page.2 low target gotLoad
      page.1 = 0 → pair.1 = 0 → ∀ x,
        pairAddr (code.place off) (wordAt pair.2 off) (wordAt pair.2 low) x = some target := by
  have hlength : ∀ field : Field, (field.patched code off target).2.buflen = code.buflen := by
    intro field
    obtain ⟨-, -, hkept, -⟩ | ⟨-, hout⟩ := patched_cases field code off target
    · exact hkept.length
    · rw [hout]
  constructor
  · intro field
    dsimp only
    have hroom' : (field.patched code off target).2.buflen ≤ 2 ^ 32 := by
      rw [hlength]
      exact hroom
    rw [patch_eq hroom off target field]
    refine ⟨?_, ?_, ?_⟩
    · obtain ⟨hzero, hall, hkept, -⟩ | ⟨-, hout⟩ := patched_cases field code off target
      · exact Or.inl ⟨hzero, hall.1, hkept⟩
      · rw [hout]
        exact Or.inr ⟨rfl, rfl⟩
    · intro haligned
      obtain ⟨hzero, hall, -, hword⟩ | ⟨hnone, hout⟩ := patched_cases field code off target
      · have hdenotes := Field.denotes_insert haligned hall.2 (wordAt code off)
        rw [hword]
        exact ⟨fun _ => hdenotes, fun _ => ⟨hall.1, _, hdenotes⟩, fun _ => hzero⟩
      · rw [hout]
        have hne : (-1 : Int) ≠ 0 := by decide
        refine ⟨fun habs => absurd habs hne, fun habs => absurd habs hne, fun hall => ?_⟩
        obtain ⟨hin, word, hdenotes⟩ := hall
        exact absurd ⟨hin, Field.inRange_of_denotes hdenotes⟩ hnone
    · intro target'
      rw [patch_eq hroom' off target' field, patch_eq hroom off target' field]
      exact patched_again field code off target target'
  · intro low gotLoad hapart hadrp hlow hrd hrn
    dsimp only
    have hroom' : (Field.page21.patched code off target).2.buflen ≤ 2 ^ 32 := by
      rw [hlength]
      exact hroom
    rw [patchAarch64Page21_eq hroom, patchAarch64Pageoff12_eq hroom']
    exact fun hpage hoff x => pair_denotes hapart hadrp hlow hrd hrn hpage hoff x

/-- `ADRP` and `ADD` at the start of a buffer. -/
def pairCode : CodeBuf where
  buf := 0x7F0000001000
  bytes := leBytes 4 0x90000000 ++ leBytes 4 0x91000000

theorem patches_denote_pair :
    let page := patchAarch64Page21 pairCode 0 0x7F0000345678
    let pair := patchAarch64Pageoff12 page.2 4 0x7F0000345678 false
    page.1 = 0 ∧ pair.1 = 0 ∧ pairAddr (pairCode.place 0) (wordAt pair.2 0) (wordAt pair.2 4)
      (fun _ => 0) = some 0x7F0000345678 :=
  ⟨by decide, by decide, (patches_denote (by decide) 0 0x7F0000345678).2 4 false
    (by decide) (by decide) (by decide) (by decide) (by decide)
    (by decide) (by decide) _⟩

end Liric.Guarantees.JitPatching
