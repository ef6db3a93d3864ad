import Liric.Source.Wasm.Decode
import Liric.Lib.Leb128

/-!
# The LEB128 readers

All three readers return the number of every terminated encoding that is short enough.
The unsigned reader accepts nothing else. The loop of the signed readers also stops at
the end of the buffer, so they take what was read there for an encoding although its last
byte asks for another one.
-/
namespace Liric.Guarantees.Leb128
open Source.Wasm Lib.Leb128 BitVec

/-- The first `n` bytes are a terminated sequence of at most `limit` groups, all of
them in the buffer. -/
def IsEncoding (limit : Nat) (buf : Nat → UInt8) (len n : Nat) : Prop :=
  Terminated buf n ∧ n ≤ limit ∧ n ≤ len

/-- The buffer ends, before the limit, behind a byte that continues. -/
def CutOff (limit : Nat) (buf : Nat → UInt8) (len : Nat) : Prop :=
  0 < len ∧ len < limit ∧ ∀ i, i < len → Continues (buf i)

instance (limit : Nat) (buf : Nat → UInt8) (len : Nat) : Decidable (CutOff limit buf len) :=
  inferInstanceAs (Decidable (_ ∧ _ ∧ ∀ i, i < len → _))

/-- The reader consumes `n` bytes exactly where they are an encoding. -/
def AcceptsEncodings {w : Nat} (limit : Nat) (buf : Nat → UInt8) (len : Nat) (r : Leb w) : Prop :=
  ∀ n, 0 < n → (r.consumed = n ↔ IsEncoding limit buf len n)

theorem continues_iff (b : UInt8) : b &&& 0x80 = 0 ↔ ¬ Continues b := by
  have h : ∀ x : BitVec 8, x &&& 0x80#8 = 0#8 ↔ ¬ 128 ≤ x.toNat := by decide +kernel
  rw [← UInt8.toBitVec_inj]
  exact h b.toBitVec

theorem signBit_iff (b : UInt8) : b &&& 0x40 ≠ 0 ↔ 64 ≤ group b := by
  have h : ∀ x : BitVec 8, x &&& 0x40#8 ≠ 0#8 ↔ 64 ≤ x.toNat % 128 := by decide +kernel
  rw [ne_eq, ← UInt8.toBitVec_inj]
  exact h b.toBitVec

theorem lebGroup_eq (w : Nat) (b : UInt8) (s : Nat) :
    lebGroup w b s = BitVec.ofNat w (group b <<< s) := by
  have hgroup : (b &&& 0x7F).toBitVec.toNat = group b := by
    have h : ∀ x : BitVec 8, (x &&& 0x7F#8).toNat = x.toNat % 128 := by decide +kernel
    exact h b.toBitVec
  apply eq_of_toNat_eq
  rw [lebGroup, toNat_shiftLeft, toNat_setWidth, hgroup, toNat_ofNat,
    Nat.shiftLeft_eq, Nat.shiftLeft_eq, Nat.mod_mul_mod]

/-- Reading one more group. -/
theorem or_lebGroup (w : Nat) (buf : Nat → UInt8) (i : Nat) :
    BitVec.ofNat w (unsigned buf i) ||| lebGroup w (buf i) (7 * i) =
      BitVec.ofNat w (unsigned buf (i + 1)) := by
  rw [lebGroup_eq, ← ofNat_or, unsigned_or]

theorem lebSignExtend_consumed {w : Nat} (i shift : Nat) (b : UInt8) (result : BitVec w) :
    (lebSignExtend w i shift b result).consumed = i := by
  unfold lebSignExtend
  split
  · rename_i hi
    exact hi.symm
  · split <;> rfl

variable {n : Nat}

/-- The groups with the sign of the last one. -/
theorem lebSignExtend_value {w : Nat} (buf : Nat → UInt8) (hn : 0 < n) :
    (lebSignExtend w n (7 * n) (buf (n - 1)) (BitVec.ofNat w (unsigned buf n))).value =
      BitVec.ofInt w (signed buf n) := by
  rw [lebSignExtend, if_neg (by omega)]
  by_cases hwide : 7 * n < w
  · by_cases hneg : 64 ≤ group (buf (n - 1))
    · rw [if_pos ⟨hwide, (signBit_iff _).2 hneg⟩, ofNat_or_neg hwide (unsigned_lt buf n), signed,
        if_pos hneg]
    · rw [if_neg (fun h => hneg ((signBit_iff _).1 h.2)), signed, if_neg hneg, ofInt_natCast]
  · rw [if_neg (fun h => hwide h.1), ofInt_signed_of_le buf (by omega)]

section Loops
variable {buf : Nat → UInt8} {len : Nat}

variable {i : Nat}

theorem terminated_succ (hbefore : ∀ j, j < i → Continues (buf j))
    (hlast : ¬ Continues (buf i)) : Terminated buf (i + 1) :=
  ⟨by omega, fun j hj => hbefore j (by omega), by rwa [Nat.add_sub_cancel]⟩

theorem continues_succ (hbefore : ∀ j, j < i → Continues (buf j))
    (hlast : Continues (buf i)) : ∀ j, j < i + 1 → Continues (buf j) := by
  intro j hj
  obtain hlt | rfl := Nat.lt_succ_iff_lt_or_eq.1 hj
  · exact hbefore j hlt
  · exact hlast

/-- What the loop of the unsigned reader comes to, once the first `i` bytes are read. -/
theorem lebU32Loop_cases {fuel : Nat} (hfuel : fuel + i = 5) (hpos : 0 < fuel)
    (hbefore : ∀ j, j < i → Continues (buf j)) :
    (∃ n, IsEncoding 5 buf len n ∧
      lebU32Loop buf len fuel i (7 * i) (BitVec.ofNat 32 (unsigned buf i)) =
        ⟨n, BitVec.ofNat 32 (unsigned buf n), n⟩) ∨
    (lebU32Loop buf len fuel i (7 * i) (BitVec.ofNat 32 (unsigned buf i))).consumed = 0 ∧
      ∀ j, j < 5 → j < len → Continues (buf j) := by
  induction fuel generalizing i with
  | zero => omega
  | succ fuel ih =>
    unfold lebU32Loop
    by_cases hlen : i < len
    · simp only [if_pos hlen, or_lebGroup]
      by_cases hlast : Continues (buf i)
      · rw [if_neg (fun h => (continues_iff _).1 h hlast)]
        have hall := continues_succ hbefore hlast
        by_cases hlimit : 7 * i + 7 ≥ 35
        · rw [if_pos hlimit]
          exact .inr ⟨rfl, fun j hj _ => hall j (by omega)⟩
        · rw [if_neg hlimit, ← Nat.mul_succ]
          exact ih (by omega) (by omega) hall
      · rw [if_pos ((continues_iff _).2 hlast)]
        exact .inl ⟨i + 1, ⟨terminated_succ hbefore hlast, by omega, by omega⟩, rfl⟩
    · rw [if_neg hlen]
      exact .inr ⟨rfl, fun j _ hj => hbefore j (by omega)⟩

/-- The loop of the signed readers has one more way to end: the buffer does. -/
theorem lebSignedLoop_cases {w groups fuel : Nat} {last : UInt8} (hfuel : fuel + i = groups + 1)
    (hpos : 1 < fuel) (hbefore : ∀ j, j < i → Continues (buf j)) (hi : i ≤ len) :
    (∃ n, IsEncoding groups buf len n ∧
      lebSignedLoop w (7 * groups) buf len fuel i (7 * i) last (BitVec.ofNat w (unsigned buf i)) =
        lebSignExtend w n (7 * n) (buf (n - 1)) (BitVec.ofNat w (unsigned buf n))) ∨
    ((lebSignedLoop w (7 * groups) buf len fuel i (7 * i) last
        (BitVec.ofNat w (unsigned buf i))).consumed = 0 ∧ groups ≤ len ∧
      ∀ j, j < groups → Continues (buf j)) ∨
    (lebSignedLoop w (7 * groups) buf len fuel i (7 * i) last
        (BitVec.ofNat w (unsigned buf i))).consumed = len ∧ len < groups ∧
      ∀ j, j < len → Continues (buf j) := by
  induction fuel generalizing i last with
  | zero => omega
  | succ fuel ih =>
    unfold lebSignedLoop
    by_cases hlen : i < len
    · simp only [if_pos hlen, or_lebGroup]
      by_cases hlast : Continues (buf i)
      · rw [if_neg (fun h => (continues_iff _).1 h hlast)]
        have hall := continues_succ hbefore hlast
        by_cases hlimit : 7 * i + 7 ≥ 7 * groups
        · rw [if_pos hlimit]
          exact .inr (.inl ⟨rfl, by omega, fun j hj => hall j (by omega)⟩)
        · rw [if_neg hlimit, ← Nat.mul_succ]
          exact ih (by omega) (by omega) hall hlen
      · rw [if_pos ((continues_iff _).2 hlast)]
        exact .inl ⟨i + 1, ⟨terminated_succ hbefore hlast, by omega, hlen⟩, by rw [Nat.mul_succ]; rfl⟩
    · obtain rfl : i = len := by omega
      rw [if_neg hlen, lebSignExtend_consumed]
      exact .inr (.inr ⟨rfl, by omega, hbefore⟩)

end Loops

section Readers
variable {w limit : Nat} {buf : Nat → UInt8} {len : Nat} {r : Leb w}

theorem acceptsEncodings_of_read (h : IsEncoding limit buf len n)
    (hr : r.consumed = n) : AcceptsEncodings limit buf len r := by
  intro m _
  refine ⟨fun heq => by rwa [← heq, hr], fun hm => ?_⟩
  rw [hr]
  exact h.1.unique hm.1

theorem acceptsEncodings_of_rejected (hr : r.consumed = 0)
    (hall : ∀ j, j < limit → j < len → Continues (buf j)) : AcceptsEncodings limit buf len r := by
  intro m hm
  refine ⟨fun heq => by omega, fun h => ?_⟩
  exact absurd (hall (m - 1) (by have := h.2.1; omega) (by have := h.2.2; omega)) h.1.last

theorem lrWasmReadLebU32_cases (buf : Nat → UInt8) (len : Nat) :
    (∃ n, IsEncoding 5 buf len n ∧
      lrWasmReadLebU32 buf len = ⟨n, BitVec.ofNat 32 (unsigned buf n), n⟩) ∨
    (lrWasmReadLebU32 buf len).consumed = 0 ∧ ∀ j, j < 5 → j < len → Continues (buf j) :=
  lebU32Loop_cases (by rfl) (by decide) (fun j hj => absurd hj (Nat.not_lt_zero j))

/-- The signed readers, at their width and limit. -/
def ReadsSigned (limit : Nat) (buf : Nat → UInt8) (len : Nat) (r : Leb w) : Prop :=
  (∃ n, IsEncoding limit buf len n ∧
    r = lebSignExtend w n (7 * n) (buf (n - 1)) (BitVec.ofNat w (unsigned buf n))) ∨
  (r.consumed = 0 ∧ limit ≤ len ∧ ∀ j, j < limit → Continues (buf j)) ∨
  r.consumed = len ∧ len < limit ∧ ∀ j, j < len → Continues (buf j)

theorem lrWasmReadLebI32_reads (buf : Nat → UInt8) (len : Nat) :
    ReadsSigned 5 buf len (lrWasmReadLebI32 buf len) :=
  lebSignedLoop_cases (rfl : _ = 5 + 1) (by decide)
    (fun j hj => absurd hj (Nat.not_lt_zero j)) (Nat.zero_le _)

theorem lrWasmReadLebI64_reads (buf : Nat → UInt8) (len : Nat) :
    ReadsSigned 10 buf len (lrWasmReadLebI64 buf len) :=
  lebSignedLoop_cases (rfl : _ = 10 + 1) (by decide)
    (fun j hj => absurd hj (Nat.not_lt_zero j)) (Nat.zero_le _)

/-- A signed reader is wrong exactly about the buffers that end too early. -/
theorem ReadsSigned.accepts_iff (h : ReadsSigned limit buf len r) :
    AcceptsEncodings limit buf len r ↔ ¬ CutOff limit buf len := by
  obtain ⟨n, henc, hr⟩ | ⟨hr, hlen, hall⟩ | ⟨hr, hlen, hall⟩ := h
  · refine ⟨fun _ hcut => ?_, fun _ => acceptsEncodings_of_read henc ?_⟩
    · exact henc.1.not_continues henc.2.2 hcut.2.2
    · rw [hr, lebSignExtend_consumed]
  · refine ⟨fun _ hcut => by have := hcut.2.1; omega, fun _ => ?_⟩
    exact acceptsEncodings_of_rejected hr (fun j hj _ => hall j hj)
  · refine ⟨fun haccepts hcut => ?_, fun hcut => ?_⟩
    · have henc := (haccepts len hcut.1).1 hr
      exact henc.1.not_continues (Nat.le_refl _) hall
    · obtain rfl : len = 0 := by
        by_contra hne
        exact hcut ⟨Nat.pos_of_ne_zero hne, hlen, hall⟩
      exact acceptsEncodings_of_rejected hr (fun j _ hj => hall j hj)

theorem ReadsSigned.value_eq (h : ReadsSigned limit buf len r) (henc : IsEncoding limit buf len n) :
    r.consumed = n ∧ r.value = BitVec.ofInt w (signed buf n) := by
  obtain ⟨m, henc', hr⟩ | ⟨hr, hlen, hall⟩ | ⟨hr, hlen, hall⟩ := h
  · obtain rfl : m = n := henc'.1.unique henc.1
    rw [hr]
    exact ⟨lebSignExtend_consumed _ _ _ _, lebSignExtend_value buf henc.1.pos⟩
  · exact (henc.1.not_continues henc.2.1 hall).elim
  · exact (henc.1.not_continues henc.2.2 hall).elim

end Readers

theorem lrWasmReadLebU32_accepts (buf : Nat → UInt8) (len : Nat) :
    AcceptsEncodings 5 buf len (lrWasmReadLebU32 buf len) := by
  obtain ⟨n, henc, hr⟩ | ⟨hr, hall⟩ := lrWasmReadLebU32_cases buf len
  · exact acceptsEncodings_of_read henc (by rw [hr])
  · exact acceptsEncodings_of_rejected hr hall

theorem lrWasmReadLebU32_value {buf : Nat → UInt8} {len : Nat} (henc : IsEncoding 5 buf len n) :
    (lrWasmReadLebU32 buf len).consumed = n ∧
      (lrWasmReadLebU32 buf len).value = BitVec.ofNat 32 (unsigned buf n) := by
  obtain ⟨m, henc', hr⟩ | ⟨hr, -⟩ := lrWasmReadLebU32_cases buf len
  · obtain rfl : m = n := henc'.1.unique henc.1
    rw [hr]
    exact ⟨rfl, rfl⟩
  · have h := (lrWasmReadLebU32_accepts buf len n henc.1.pos).2 henc
    have hpos := henc.1.pos
    omega

/-- What the readers accept, and that they return every number that is encoded. -/
theorem leb_readers_iff (buf : Nat → UInt8) (len : Nat) :
    AcceptsEncodings 5 buf len (lrWasmReadLebU32 buf len) ∧
    (AcceptsEncodings 5 buf len (lrWasmReadLebI32 buf len) ↔ ¬ CutOff 5 buf len) ∧
    (AcceptsEncodings 10 buf len (lrWasmReadLebI64 buf len) ↔ ¬ CutOff 10 buf len) ∧
    (∀ (v : BitVec 32) (n : Nat), IsEncoding 5 buf len n → BitVec.ofNat 32 (unsigned buf n) = v →
      (lrWasmReadLebU32 buf len).consumed = n ∧ (lrWasmReadLebU32 buf len).value = v) ∧
    (∀ (v : BitVec 32) (n : Nat), IsEncoding 5 buf len n → BitVec.ofInt 32 (signed buf n) = v →
      (lrWasmReadLebI32 buf len).consumed = n ∧ (lrWasmReadLebI32 buf len).value = v) ∧
    ∀ (v : BitVec 64) (n : Nat), IsEncoding 10 buf len n → BitVec.ofInt 64 (signed buf n) = v →
      (lrWasmReadLebI64 buf len).consumed = n ∧ (lrWasmReadLebI64 buf len).value = v := by
  refine ⟨lrWasmReadLebU32_accepts buf len, (lrWasmReadLebI32_reads buf len).accepts_iff,
    (lrWasmReadLebI64_reads buf len).accepts_iff, ?_, ?_, ?_⟩
  · intro v n henc hv
    rw [← hv]
    exact lrWasmReadLebU32_value henc
  · intro v n henc hv
    rw [← hv]
    exact (lrWasmReadLebI32_reads buf len).value_eq henc
  · intro v n henc hv
    rw [← hv]
    exact (lrWasmReadLebI64_reads buf len).value_eq henc

/-- `-1` in two bytes, with a byte behind it. -/
theorem leb_readers_iff_minus_one :
    (lrWasmReadLebI32 (fun i => if i = 0 then 0xFF else 0x7F) 3).consumed = 2 ∧
      (lrWasmReadLebI32 (fun i => if i = 0 then 0xFF else 0x7F) 3).value = -1#32 :=
  (leb_readers_iff _ _).2.2.2.2.1 _ 2 ⟨⟨by decide, fun i hi => by
    obtain rfl : i = 0 := by omega
    decide, by decide⟩, by decide, by decide⟩ (by decide)

/-- One byte that asks for another one is all of the buffer. -/
theorem leb_readers_cut_off :
    (lrWasmReadLebI32 (fun _ => 0x80) 1).consumed = 1 ∧
      ¬ IsEncoding 5 (fun _ => 0x80) 1 1 ∧
      ¬ AcceptsEncodings 5 (fun _ => 0x80) 1 (lrWasmReadLebI32 (fun _ => 0x80) 1) := by
  have hnot : ¬ IsEncoding 5 (fun _ => 0x80) 1 1 := fun h => h.1.last (by decide)
  refine ⟨by decide, hnot, fun h => hnot ((h 1 (by decide)).1 (by decide))⟩

end Liric.Guarantees.Leb128
