import Liric.Guarantees.AggregateMoves

/-!
# Sizes without a move of their width

There are moves of one, two, four and eight bytes. A shorter value of another size is moved as
one of two or of four bytes, or a store of no bytes as one of eight; whatever the value and
the frame are, there is a state in which that shows.
-/
namespace Liric.Guarantees.AggregateWidths
open Source.Ir Source.X8664 Lib Lib.X64
open Lib.A64 (Mem load store)
open X8664Code X8664Values X8664Memory AggregateCode AggregateMoves

/-- The cached registers have the values of their vregs. -/
def settled (c d : X86Ctx) (base : BitVec 64) (mem : Mem) : State :=
  let value := freshValue d d.frame.slot { reg := fun _ => base, zf := false, mem := mem }
  { reg := fun r => if r = x86Rax then value c.raxHoldsVreg
      else if r = x86Rcx then value c.rcxHoldsVreg else base
    zf := false
    mem := mem }

section States
variable (c d : X86Ctx) (off : BitVec 32) (q : BitVec 64) (mem : Mem)

theorem agrees_settled (base : BitVec 64) : Agrees c d (settled c d base mem) := by
  constructor
  · rintro v - rfl
    exact freshValue_congr rfl rfl rfl c.raxHoldsVreg
  · rintro v - rfl
    exact freshValue_congr rfl rfl rfl c.rcxHoldsVreg

/-- Such states exist for every memory and every address of the frame. -/
theorem exists_agrees : ∃ σ, Agrees c d σ ∧ place σ x86Rbp off = q ∧ σ.mem = mem :=
  ⟨settled c d (q - off.signExtend 64) mem, agrees_settled .., BitVec.sub_add_cancel .., rfl⟩

end States

variable {n : Nat}

theorem loadWidth_narrow (h : ¬ IsWidth n) : loadWidth n < n ∧ n ≤ 8 := by
  simp only [IsWidth, not_not, List.mem_cons, List.not_mem_nil, or_false] at h
  rcases h with rfl | rfl | rfl | rfl <;> decide

/-- A byte above the move is lost. -/
theorem loadedByte_narrow (h : ¬ IsWidth n) (mem : Mem) (p : BitVec 64) :
    loadedByte mem p n (loadWidth n) = 0 := by
  rw [loadedByte, if_pos (loadWidth_narrow h).2, if_neg (lt_irrefl _)]

theorem sizeOr8_of_narrow {size : SizeT} (h : ¬ IsWidth size.toNat) :
    (sizeOr8 size).toNat = size.toNat := by
  have hpos := (loadWidth_narrow h).1
  rcases sizeOr8_or size with hsame | ⟨hzero, -⟩
  · exact hsame
  · omega

section Widths
variable {host : X86Host} {address : RelocRef → BitVec 64} {c : X86Ctx} {desc : LrInst}
  {op0 op1 : LrOperand}

theorem load_width (h : (Move.load desc op0).WellFormed host c)
    (hexact : (Move.load desc op0).Exact host address c) : (Move.load desc op0).HasWidth := by
  by_contra hno
  replace hno : ¬ IsWidth (typeSize desc.type).toNat := hno
  obtain ⟨hlt, hshort⟩ := loadWidth_narrow hno
  obtain ⟨σ, hag, -, hones⟩ := exists_agrees c ((Move.load desc op0).compiled host c) 0 0 fun _ => 1
  have hapart : (Move.load desc op0).Apart host address ((Move.load desc op0).compiled host c) σ :=
    fun hlong => absurd hlong (Nat.not_lt.2 hshort)
  have hbyte := hexact.bytes σ hag hapart _ hlt
  have hfound := found_of_fills (load_fills h hag hapart) (load_dest h) hlt
  rw [sizeOr8_of_narrow hno, loadedByte_narrow hno] at hfound
  have hone := hfound.symm.trans hbyte
  rw [Move.given, hones] at hone
  exact absurd hone (by decide : (0 : BitVec 8) ≠ 1)

section
variable {d : X86Ctx} (hd : d = (Move.extractvalue desc op0).compiled host c)
  (h : (Move.extractvalue desc op0).WellFormed host c)
include hd h

theorem extract_dest : d.frame.lookupStaticAllocaOffset desc.dest = 0 :=
  (lookup_congr (extract_statics hd) _).trans h.2.2.plain

theorem extract_width {v : Nat} (hv : op0.value = .vreg v) (hexact : (Move.extractvalue desc op0).Exact host address c) :
    IsWidth (Move.extractvalue desc op0).size := by
  by_contra hno
  obtain ⟨⟨off, leaf⟩, hpath⟩ := Option.isSome_iff_exists.1 h.2.1.path
  obtain ⟨hat, hin⟩ := field_inside h.2.1 hpath
  have hsize : (Move.extractvalue desc op0).size = (lrTypeSize leaf).toNat := by
    rw [Move.size, hat]
  rw [hsize] at hno
  obtain ⟨hlt, hshort⟩ := loadWidth_narrow hno
  obtain ⟨σ, hag, -, hones⟩ := exists_agrees c d 0 0 fun _ => 1
  have hapart : (Move.extractvalue desc op0).Apart host address d σ := by
    intro hlong
    rw [hsize] at hlong
    omega
  have hbyte := (hd ▸ hexact.bytes) σ hag hapart (loadWidth (lrTypeSize leaf).toNat) (by rwa [hsize])
  have hfound := found_of_fills (extract_fills hd rfl h hv hpath hapart) (extract_dest hd h) hlt
  rw [sizeOr8_of_narrow hno, loadedByte_narrow hno] at hfound
  rw [Move.found, hsize, hfound, Move.given, operandByte, hv] at hbyte
  simp only [hat] at hbyte
  rw [vregByte_place, hones] at hbyte
  · exact absurd hbyte (by decide : (0 : BitVec 8) ≠ 1)
  · intro _
    exact (lookup_congr (extract_statics hd) _).trans (h.1.vreg v hv).2.2
  · omega

/-- A field of the number 0 is a word, so the bytes above it are those that were there. -/
theorem extract_zero_short (hop : op0.value = .immI64 0) (hexact : (Move.extractvalue desc op0).Exact host address c) :
    (Move.extractvalue desc op0).size ≤ 8 := by
  by_contra hlong
  replace hlong : 8 < (Move.extractvalue desc op0).size := Nat.not_le.1 hlong
  -- the slot is at 100, and all memory is 1
  obtain ⟨σ, hag, hplace, hones⟩ := exists_agrees c d (d.frame.slot desc.dest).off 100 fun _ => 1
  have hapart : (Move.extractvalue desc op0).Apart host address d σ := by
    intro _ v hv
    rw [hop] at hv
    cases hv
  have hdest := extract_dest hd h
  have hbytes := (hd ▸ hexact.bytes) σ hag hapart
  generalize hτ : (Move.extractvalue desc op0).after host address c σ = τ at hbytes
  obtain ⟨hbase, hmem⟩ := extract_word hd hτ.symm h hop hag
  rw [slotPlace, hplace, hones] at hmem
  have hsame : place τ x86Rbp (d.frame.slot desc.dest).off = 100 := by
    rw [← hplace, place, place, hbase]
  have hzero : ∀ i < (Move.extractvalue desc op0).size,
      τ.mem (dataPlace d τ desc.dest + BitVec.ofNat 64 i) = 0 := by
    intro i hi
    have hbyte := hbytes i hi
    rw [Move.found, vregByte, if_neg (Nat.not_le.2 hlong), Move.given,
      operandByte_zero (.inr (.inr hop))] at hbyte
    exact hbyte
  by_cases hpointer : d.frame.vregSlotSize desc.dest = 8
  · -- the word is taken for the address of the value
    have hdata : dataPlace d τ desc.dest = 0 := by
      rw [dataPlace, if_pos (.inr hpointer), freshValue, if_neg (not_not.2 hdest), hsame, hmem,
        Lib.A64.load_store_word]
    have hbyte := hzero 0 (by omega)
    rw [hdata, hmem] at hbyte
    exact absurd hbyte (by decide)
  · have hdata : dataPlace d τ desc.dest = 100 := by
      rw [dataPlace, if_neg, hsame]
      rintro (hstatic | height)
      · exact hstatic hdest
      · exact hpointer height
    have hbyte := hzero 8 hlong
    rw [hdata, hmem] at hbyte
    exact absurd hbyte (by decide)

end

/-- The byte that shows that a store has not the width of its size. -/
def shownByte (n : Nat) : Nat := if n = 0 then 0 else if n = 3 then 3 else 4

/-- The move is too wide, or it is too short. -/
theorem shownByte_cases (h : ¬ (IsWidth n ∧ n ≠ 0)) {size : SizeT}
    (hn : size.toNat = n) : (sizeOr8 size).toNat ≤ 8 ∧ shownByte n < 8 ∧
      ((n ≤ shownByte n ∧ shownByte n < storeWidth (sizeOr8 size).toNat) ∨
        (shownByte n < n ∧ storeWidth (sizeOr8 size).toNat ≤ shownByte n)) := by
  have hcases : n = 0 ∨ n = 3 ∨ n = 5 ∨ n = 6 ∨ n = 7 := by
    simp only [IsWidth, List.mem_cons, List.not_mem_nil, or_false, not_or] at h
    omega
  rw [toNat_sizeOr8, hn]
  rcases hcases with rfl | rfl | rfl | rfl | rfl <;> decide

theorem ofNat_ne {p : BitVec 64} {i j : Nat} (hi : i < 2 ^ 64) (hj : j < 2 ^ 64) (h : i ≠ j) :
    p + BitVec.ofNat 64 i ≠ p + BitVec.ofNat 64 j := fun heq => h (add_ofNat_inj hi hj heq)

variable {σ : State}

/-- The word of a constant or of an alloca has nothing to do with the memory. -/
theorem operandWord_fixed {d : X86Ctx} {op : LrOperand} {τ : State}
    (h : ∀ v, op.value = .vreg v → d.frame.lookupStaticAllocaOffset v ≠ 0)
    (hbase : σ.reg x86Rbp = τ.reg x86Rbp) :
    operandWord host address d σ op = operandWord host address d τ op := by
  unfold operandWord
  split
  · next v hv =>
    rw [freshValue, freshValue, if_pos (h v hv), if_pos (h v hv), place, place, hbase]
  · rfl

/-- One byte of memory is 1. -/
def spot (q : BitVec 64) (k : Nat) : Mem := fun b => if b = q + BitVec.ofNat 64 k then 1 else 0

theorem load_spot (q a : BitVec 64) (k : Nat) : load (spot q k) a 8 ≠ 3 := by
  have hbyte : (load (spot q k) a 8).extractLsb' 0 8 = 0 ∨
      (load (spot q k) a 8).extractLsb' 0 8 = 1 := by
    have hlow := load_byte (spot q k) a (n := 8) (i := 0) (by decide)
    rw [Nat.mul_zero] at hlow
    rw [hlow, if_pos (by decide), spot]
    split
    · exact .inr rfl
    · exact .inl rfl
  intro heq
  rw [heq] at hbyte
  revert hbyte
  decide

theorem place_inj {base : Reg} {a b : BitVec 32} (h : place σ base a = place σ base b) : a = b := by
  have hext : a.signExtend 64 = b.signExtend 64 := BitVec.add_right_inj _ |>.1 h
  apply BitVec.eq_of_toInt_eq
  rw [← BitVec.toInt_signExtend_of_le (by decide : 32 ≤ 64), hext,
    BitVec.toInt_signExtend_of_le (by decide)]

section
variable {d : X86Ctx} (hd : d = (Move.store op0 op1).compiled host c)
include hd

theorem store_statics : d.frame.staticAllocaOffsets = c.frame.staticAllocaOffsets := by
  have happ : Appends (target (fun _ => 0) (fun _ => true) false) (emitStoreInst host op0 op1) :=
    appends_emitStoreInst ..
  rw [hd]
  exact (happ.step c).1.statics

variable (h : (Move.store op0 op1).WellFormed host c)
include h

/-- It stays if nothing is written but the bytes of the value, and all of these. -/
theorem shown_stays (hno : ¬ (Move.store op0 op1).HasWidth)
    (hexact : (Move.store op0 op1).Exact host address c) (hag : Agrees c d σ) :
    (operandWord host address d σ op0).extractLsb' (8 * shownByte (Move.store op0 op1).size) 8 =
      σ.mem (operandWord host address d σ op1 +
        BitVec.ofNat 64 (shownByte (Move.store op0 op1).size)) := by
  obtain ⟨hshort, hlow, hcases⟩ := shownByte_cases hno rfl
  have hmem : ((Move.store op0 op1).after host address c σ).mem = _ :=
    store_short h hshort (hd ▸ hag)
  rw [← hd] at hmem
  have hsize : (typeSize op0.type).toNat ≤ 8 := by
    rcases sizeOr8_or (typeSize op0.type) with hsame | ⟨hzero, -⟩
    · rwa [hsame] at hshort
    · omega
  have hapart : (Move.store op0 op1).Apart host address d σ :=
    fun hlong => absurd hlong (Nat.not_lt.2 hsize)
  have hwidth := storeWidth_le (sizeOr8 (typeSize op0.type)).toNat
  rcases hcases with ⟨hout, hwide⟩ | ⟨hin, hnarrow⟩
  · have hframe := hexact.frame
    rw [← hd] at hframe
    have hbyte := hframe σ hag hapart
      (operandWord host address d σ op1 +
        BitVec.ofNat 64 (shownByte (Move.store op0 op1).size)) fun i hi => ?_
    · rwa [hmem, store_byte _ _ _ hwidth hwide] at hbyte
    · have hlt : i < (Move.store op0 op1).size := hi
      exact ofNat_ne (by omega) (by omega) (by omega)
  · have hbyte := (hd ▸ hexact.bytes) σ hag hapart _ hin
    rw [Move.found, hmem, store_of_apart, Move.given, operandByte_word hsize] at hbyte
    · exact hbyte.symm
    · intro j hj
      exact ofNat_ne (by omega) (by omega) (by omega)

/-- For some place of the slot the address of the store is elsewhere, whatever its word is. -/
theorem exists_elsewhere {v : Nat} (hv : op0.value = .vreg v) (hstatic : c.frame.lookupStaticAllocaOffset v = 0) (k : Nat) :
    ∃ q σ, Agrees c d σ ∧ place σ x86Rbp (d.frame.slot v).off = q ∧ σ.mem = spot q k ∧
      operandWord host address d σ op1 ≠ q := by
  have hfound := fun q => exists_agrees c d (d.frame.slot v).off q (spot q k)
  have hlookup := lookup_congr (store_statics hd)
  by_cases hvreg : ∃ w, op1.value = .vreg w
  · obtain ⟨w, hw⟩ := hvreg
    obtain ⟨σ, hag, hplace, hmem⟩ := hfound 3
    refine ⟨3, σ, hag, hplace, hmem, ?_⟩
    rw [operandWord, hw]
    change freshValue _ _ σ w ≠ 3
    rw [freshValue]
    split
    · next hplaced =>
      rw [hlookup] at hplaced ⊢
      rw [← hplace]
      intro heq
      exact h.2.2.2 v w hv hw hstatic hplaced (hd ▸ (place_inj heq).symm)
    · rw [hmem]
      exact load_spot 3 _ k
  · have hfixed : ∀ {σ}, operandWord host address d σ op1 =
        (constant host address op1.globalOffset op1).getD 0 := by
      intro σ
      unfold operandWord
      split
      · next w hw => exact absurd ⟨w, hw⟩ hvreg
      · rfl
    by_cases hthree : (constant host address op1.globalOffset op1).getD 0 = 3
    · obtain ⟨σ, hag, hplace, hmem⟩ := hfound 5
      refine ⟨5, σ, hag, hplace, hmem, ?_⟩
      rw [hfixed, hthree]
      decide
    · obtain ⟨σ, hag, hplace, hmem⟩ := hfound 3
      refine ⟨3, σ, hag, hplace, hmem, ?_⟩
      rwa [hfixed]

/-- A byte of the value is not the one in memory in some state. -/
theorem exists_differs {k : Nat} (hk : k < 8) :
    ∃ σ, Agrees c d σ ∧
      (operandWord host address d σ op0).extractLsb' (8 * k) 8
        ≠ σ.mem (operandWord host address d σ op1 +
          BitVec.ofNat 64 k) := by
  have hlookup := lookup_congr (store_statics hd)
  by_cases hslot : ∃ v, op0.value = .vreg v ∧ c.frame.lookupStaticAllocaOffset v = 0
  · obtain ⟨v, hv, hstatic⟩ := hslot
    obtain ⟨q, σ, hag, hplace, hmem, hne⟩ :
      ∃ q σ, Agrees c d σ ∧ _ ∧ _ ∧ operandWord host address d σ op1 ≠ q :=
      exists_elsewhere hd h hv hstatic k
    refine ⟨σ, hag, ?_⟩
    have hword : operandWord host address d σ op0 = load (spot q k) q 8 := by
      rw [operandWord, hv]
      change freshValue _ _ σ v = _
      rw [freshValue, if_neg (not_not.2 ((hlookup v).trans hstatic)), hplace, hmem]
    have hother : operandWord host address d σ op1 +
        BitVec.ofNat 64 k ≠ q + BitVec.ofNat 64 k := fun heq =>
      hne (BitVec.add_left_inj _ |>.1 heq)
    rw [hword, hmem, load_byte _ _ hk, if_pos hk, spot, spot, if_pos rfl, if_neg hother]
    decide
  · -- the same word cannot agree with two memories
    have hfixed : ∀ v, op0.value = .vreg v →
        d.frame.lookupStaticAllocaOffset v ≠ 0 := by
      intro v hv hstatic
      exact hslot ⟨v, hv, (hlookup v).symm.trans hstatic⟩
    obtain ⟨σ, hag, hplace, hmem⟩ := exists_agrees c d 0 0 fun _ => 0
    obtain ⟨τ, hag', hplace', hmem'⟩ := exists_agrees c d 0 0 fun _ => 1
    have hbase : σ.reg x86Rbp = τ.reg x86Rbp :=
      BitVec.add_left_inj _ |>.1 (hplace.trans hplace'.symm)
    by_contra hnone
    have hzero := not_not.1 fun hne => hnone ⟨σ, hag, hne⟩
    have hone := not_not.1 fun hne => hnone ⟨τ, hag', hne⟩
    rw [hmem, operandWord_fixed hfixed hbase, hone, hmem'] at hzero
    exact absurd hzero (by decide : (1 : BitVec 8) ≠ 0)

end

theorem store_width (h : (Move.store op0 op1).WellFormed host c)
    (hexact : (Move.store op0 op1).Exact host address c) : (Move.store op0 op1).HasWidth := by
  by_contra hno
  have hlow := (shownByte_cases hno rfl).2.1
  obtain ⟨σ, hag, hne⟩ : ∃ σ, Agrees c ((Move.store op0 op1).compiled host c) σ ∧ _ :=
    exists_differs rfl h hlow
  exact hne (shown_stays rfl h hno hexact hag)

/-- Moves are exact if there are moves of the widths that they need; other loads, stores and
fields that are taken out are not exact. -/
theorem move_exact_iff (m : Move) (h : m.WellFormed host c) :
    (m.HasWidth → m.Exact host address c) ∧
      ((∀ desc op0 op1, m ≠ .insertvalue desc op0 op1) → m.Exact host address c → m.HasWidth) := by
  cases m with
  | load desc op0 => exact ⟨load_exact h, fun _ => load_width h⟩
  | store op0 op1 => exact ⟨store_exact h, fun _ => store_width h⟩
  | extractvalue desc op0 =>
    refine ⟨extract_exact h, fun _ hexact => ?_⟩
    rw [Move.HasWidth]
    split
    · next v hv => exact extract_width rfl h hv hexact
    · next x hx =>
      have hzero : op0.value = .immI64 0 := by
        rcases h.1.value with (hz | hz | hz) | ⟨v, hz⟩
        · exact absurd (hx.symm.trans hz) (by simp)
        · exact absurd (hx.symm.trans hz) (by simp)
        · exact hz
        · exact absurd (hx.symm.trans hz) (by simp)
      exact extract_zero_short rfl h hzero hexact
    · trivial
  | insertvalue desc op0 op1 =>
    exact ⟨insert_exact h, fun hother => absurd rfl (hother desc op0 op1)⟩

end Widths

/-- The array of `n` bytes in the first vreg is stored where the second points. -/
def storeBytes (n : BitVec 64) : Move :=
  .store (lrOpVreg 1 (some (.array 2 (.scalar 1 .i8) n))) (lrOpVreg 2 (some (.ptr 3 none)))

/-- No compiled code before it. -/
theorem storeBytes_wellFormed (host : X86Host) {n : BitVec 64} (hn : (storeBytes n).size < 2 ^ 30) :
    (storeBytes n).WellFormed host {} := by
  have hplain : ∀ {v type}, v < uint32Max → IsPlain host (lrOpVreg v type) := by
    intro v type hv
    refine ⟨hv, fun hadds => ?_⟩
    obtain ⟨-, -, id, hid, -⟩ := hadds.1
    cases hid
  refine ⟨⟨hplain (by decide), fun v hv => .inr (.inl rfl), fun _ => .inr ⟨1, rfl⟩⟩,
    hplain (by decide), ⟨⟨fun v => .inl rfl, fun v => ?_⟩, ?_⟩, fun v w _ _ _ hw => absurd rfl hw⟩
  · exact Int.le_refl 0
  · change 0 + ((storeBytes n).size + 128) < 2 ^ 31
    omega

def bareHost : X86Host where
  mod := { builtin := lrModuleCreateTypes 0, nextAddr := 11 }
  obj := true
  jit := false

/-- Sixteen bytes are stored exactly. -/
theorem long_exact :
    (storeBytes 16).WellFormed bareHost {} ∧ (storeBytes 16).Exact bareHost (fun _ => 0) {} := by
  have h : (storeBytes 16).WellFormed bareHost {} := storeBytes_wellFormed bareHost (by decide)
  have hwidth : (storeBytes 16).HasWidth := by
    change (storeBytes 16).size ∉ [3, 5, 6, 7] ∧ (storeBytes 16).size ≠ 0
    decide
  exact ⟨h, (move_exact_iff (storeBytes 16) h).1 hwidth⟩

/-- The second vreg points to 4096, and the bytes of the first are 7. -/
def sevens : State where
  reg _ := 8192
  zf := false
  mem b := if b = 8185 then 16 else if 8176 ≤ b ∧ b < 8184 then 7 else 0

/-- Three bytes are stored with four, and the one behind them is overwritten. -/
theorem neighbour_overwritten :
    (storeBytes 3).WellFormed bareHost {} ∧ (storeBytes 3).size = 3 ∧
      Agrees {} ((storeBytes 3).compiled bareHost {}) sevens ∧
      (storeBytes 3).room bareHost (fun _ => 0) ((storeBytes 3).compiled bareHost {}) sevens =
        (4096, 3) ∧
      sevens.mem 4099 = 0 ∧
      ((storeBytes 3).after bareHost (fun _ => 0) {} sevens).mem 4099 = 7 ∧
      ¬ (storeBytes 3).Exact bareHost (fun _ => 0) {} := by
  have h : (storeBytes 3).WellFormed bareHost {} := storeBytes_wellFormed bareHost (by decide)
  have hagrees : Agrees {} ((storeBytes 3).compiled bareHost {}) sevens :=
    ⟨fun v hv h => absurd h (ne_of_gt hv), fun v hv h => absurd h (ne_of_gt hv)⟩
  have hno : ¬ (storeBytes 3).HasWidth := by
    change ¬ ((storeBytes 3).size ∉ [3, 5, 6, 7] ∧ (storeBytes 3).size ≠ 0)
    decide
  exact ⟨h, by decide, hagrees, by decide +kernel, by decide, by decide +kernel,
    fun hexact => hno (store_width h hexact)⟩

end Liric.Guarantees.AggregateWidths
