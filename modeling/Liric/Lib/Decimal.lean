import Mathlib.Data.List.Basic

/-!
# Decimal numerals as bytes

The numeral of a number is written in digits, and it determines the number.
-/
namespace Liric.Lib
open List

theorem toList_loop (bs : ByteArray) (i : Nat) (r : List UInt8) :
    ByteArray.toList.loop bs i r = r.reverse ++ bs.data.toList.drop i := by
  fun_induction ByteArray.toList.loop bs i r with
  | case1 i r h ih =>
    have hlt : i < bs.data.toList.length := h
    have hget : bs.get! i = bs.data.toList[i] := by
      cases bs with
      | mk data => exact getElem!_pos data i h
    rw [ih, reverse_cons, append_assoc, singleton_append, hget, getElem_cons_drop]
  | case2 i r h =>
    have hlen : bs.data.toList.length ≤ i := Nat.not_lt.1 h
    rw [drop_eq_nil_of_le hlen, append_nil]

theorem toList_eq_data (bs : ByteArray) : bs.toList = bs.data.toList := toList_loop bs 0 []

/-- The bytes of a text of ASCII characters. -/
theorem toUTF8_ofList {cs : List Char} (h : ∀ c ∈ cs, c.val ≤ 0x7F) :
    (String.ofList cs).toUTF8.toList = cs.map fun c => c.val.toUInt8 := by
  have hbytes : (String.ofList cs).toUTF8.data.toList = cs.flatMap String.utf8EncodeChar := by
    change (cs.flatMap String.utf8EncodeChar).toByteArray.data.toList = _
    exact toList_data_toByteArray
  rw [toList_eq_data, hbytes]
  clear hbytes
  induction cs with
  | nil => rfl
  | cons c cs ih =>
    obtain ⟨hc, hcs⟩ := forall_mem_cons.1 h
    have hsize : c.utf8Size = 1 := by simp [Char.utf8Size, hc]
    rw [flatMap_cons, map_cons, String.utf8EncodeChar_eq_singleton hsize, ih hcs]
    rfl

variable {n : Nat}

/-- The characters of a numeral. -/
theorem digit_val {c : Char} (h : c ∈ Nat.toDigits 10 n) :
    48 ≤ c.val.toNat ∧ c.val.toNat ≤ 57 := by
  have hdigit := Nat.isDigit_of_mem_toDigits (by decide) (by decide) h
  simp only [Char.isDigit, Bool.and_eq_true, decide_eq_true_eq, ge_iff_le] at hdigit
  exact ⟨hdigit.1, hdigit.2⟩

theorem toUTF8_toString (n : Nat) :
    (toString n).toUTF8.toList = (Nat.toDigits 10 n).map fun c => c.val.toUInt8 := by
  rw [Nat.toString_eq_ofList_toDigits]
  refine toUTF8_ofList fun c hc => ?_
  have hle := (digit_val hc).2
  rw [UInt32.le_iff_toNat_le]
  exact Nat.le_trans hle (by decide)

theorem digit_of_mem_numeral {b : UInt8} (h : b ∈ (toString n).toUTF8.toList) :
    48 ≤ b.toNat ∧ b.toNat ≤ 57 := by
  rw [toUTF8_toString] at h
  obtain ⟨c, hc, rfl⟩ := mem_map.1 h
  have hval := digit_val hc
  rw [UInt32.toNat_toUInt8, Nat.mod_eq_of_lt (by omega)]
  exact hval

/-- The value of a digit. -/
theorem toNat_sub_zero {c : Char} (hlow : 48 ≤ c.val.toNat) (hhigh : c.val.toNat ≤ 57) :
    (c.val.toUInt8 - 48).toNat = c.toNat - 48 := by
  have hbig : (48 : UInt8).toNat ≤ c.val.toUInt8.toNat := by
    rw [UInt32.toNat_toUInt8, Nat.mod_eq_of_lt (by omega)]
    exact hlow
  rw [UInt8.toNat_sub_of_le _ _ (UInt8.le_iff_toNat_le.2 hbig), UInt32.toNat_toUInt8,
    Nat.mod_eq_of_lt (by omega)]
  rfl

/-- Reading the numeral of a number from left to right gives the number. -/
theorem foldl_numeral (n : Nat) :
    (toString n).toUTF8.toList.foldl (fun val c => val * 10 + (c - 48).toNat) 0 = n := by
  have hchars : ∀ (cs : List Char) (init : Nat),
      (∀ c ∈ cs, 48 ≤ c.val.toNat ∧ c.val.toNat ≤ 57) →
      (cs.map fun c => c.val.toUInt8).foldl (fun val c => val * 10 + (c - 48).toNat) init =
        Nat.ofDigitChars 10 cs init := by
    intro cs
    induction cs with
    | nil => simp
    | cons c cs ih =>
      intro init h
      obtain ⟨hlow, hhigh⟩ := h c mem_cons_self
      have hzero : '0'.toNat = 48 := rfl
      rw [map_cons, foldl_cons, toNat_sub_zero hlow hhigh,
        ih _ fun d hd => h d (mem_cons_of_mem c hd), Nat.ofDigitChars_cons, hzero, Nat.mul_comm]
  rw [toUTF8_toString, hchars _ 0 fun c hc => digit_val hc, Nat.ofDigitChars_ten_toDigits]

theorem numeral_inj {m : Nat} (h : (toString n).toUTF8.toList = (toString m).toUTF8.toList) :
    n = m := by
  -- the characters can be read off the bytes
  have hback : ∀ k : Nat, (toString k).toUTF8.toList.map (fun b => Char.ofNat b.toNat) =
      Nat.toDigits 10 k := by
    intro k
    rw [toUTF8_toString, map_map]
    refine (map_congr_left fun c hc => ?_).trans (map_id _)
    have hval := digit_val hc
    change Char.ofNat c.val.toUInt8.toNat = c
    rw [UInt32.toNat_toUInt8, Nat.mod_eq_of_lt (by omega)]
    exact Char.ofNat_toNat c
  have hdigits : Nat.toDigits 10 n = Nat.toDigits 10 m := by rw [← hback n, h, hback]
  have hn := Nat.ofDigitChars_ten_toDigits (n := n)
  rw [hdigits, Nat.ofDigitChars_ten_toDigits] at hn
  exact hn.symm

/-- What stands in front of the first separator. -/
theorem append_cons_inj_left {A : Type} {a : A} {xs ys rest rest' : List A} (hx : a ∉ xs)
    (hy : a ∉ ys) (h : xs ++ a :: rest = ys ++ a :: rest') : xs = ys := by
  induction xs generalizing ys with
  | nil =>
    cases ys with
    | nil => rfl
    | cons y ys =>
      obtain ⟨rfl, -⟩ := List.cons.inj h
      exact absurd mem_cons_self hy
  | cons x xs ih =>
    cases ys with
    | nil =>
      obtain ⟨rfl, -⟩ := List.cons.inj h
      exact absurd mem_cons_self hx
    | cons y ys =>
      obtain ⟨rfl, hrest⟩ := List.cons.inj h
      rw [ih (fun hm => hx (mem_cons_of_mem _ hm)) (fun hm => hy (mem_cons_of_mem _ hm)) hrest]

end Liric.Lib
