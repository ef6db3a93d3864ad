import Liric.Lib.A64
import Liric.Lib.X64Decode
import Liric.Source.Target.X8664Encode

/-!
# Encoded operands and immediates of the x86_64 target

The bytes of a register or memory operand are read back as they were meant, and what is
emitted for a constant leaves it in the register or adds it. There are two exceptions to the
addition: the least number of 32 bits, whose negation is that number again, and a
large constant that is added to the register of large constants.
-/
namespace Liric.Guarantees.X8664Encoding
open Source.X8664 Lib Lib.X64Decode List Function

/-- An opcode that is no prefix. -/
abbrev Opcode := { op : UInt8 // op ≠ 0x66 ∧ isRex op = false }

abbrev Size := { n : Nat // n = 2 ∨ n = 4 ∨ n = 8 }

def num (r : Reg) : UInt8 := UInt8.ofNat r.val

theorem modrm_fields : ∀ mod ∈ [0, 1, 2, 3], ∀ reg rm : Reg,
    modrm mod (num reg) (num rm) >>> 6 = mod ∧ modrm mod (num reg) (num rm) &&& 7 = num rm &&& 7 ∧
      field (modrm mod (num reg) (num rm)) 3 (num reg ≥ 8) = reg ∧
      field (modrm mod (num reg) (num rm)) 0 (num rm ≥ 8) = rm := by
  decide +kernel

/-- A base whose number is 4 modulo 8 stands in a SIB byte. -/
theorem sib_fields : ∀ base : Reg, num base &&& 7 = 4 → field 0x24 0 (num base ≥ 8) = base := by
  decide

theorem rex_fields : ∀ w r b : Bool,
    isRex (rex w r false b) = true ∧ rexOf (rex w r false b) = ⟨w, r, false, b⟩ ∧
      rex w r false b ≠ 0x66 := by
  decide

variable {imm : BitVec 64} {σ : Regs}

theorem decodePrefix_encode (op : Opcode) (reg rm : Reg) (size : Size) (rest : List UInt8) :
    decodePrefix (encodeOpcode op (num reg) (num rm) size ++ rest) =
      (size.val, ⟨size.val == 8, num reg ≥ 8, false, num rm ≥ 8⟩, op.val :: rest) := by
  obtain ⟨op, h66, hop⟩ := op
  obtain ⟨n, hn⟩ := size
  obtain ⟨hrex, hfields, hne⟩ := rex_fields (n == 8) (num reg ≥ 8) (num rm ≥ 8)
  by_cases hregs : num reg ≥ 8 ∨ num rm ≥ 8
  · rcases hn with rfl | rfl | rfl <;> simp_all [encodeOpcode, decodePrefix]
  · obtain ⟨hr, hb⟩ : ¬ 8 ≤ num reg ∧ ¬ 8 ≤ num rm := not_or.1 hregs
    rcases hn with rfl | rfl | rfl
    · simp [encodeOpcode, decodePrefix, hr, hb, hop]
    · simp [encodeOpcode, decodePrefix, hr, hb, hop, h66]
    · simp [encodeOpcode, decodePrefix, hr, hb] at hrex hfields hne ⊢
      simp [hrex, hfields, hne]

theorem immediate_leBytes (n w : Nat) (v : Nat) (h : 8 * n = w) (rest : List UInt8) :
    immediate n w (leBytes n v ++ rest) = some (BitVec.ofNat w v, rest) := by
  have hpow : (256 : Nat) ^ n = 2 ^ w := by rw [← h, Nat.pow_mul]
  have hword : BitVec.ofNat w (leNat (leBytes n v)) = BitVec.ofNat w v := by
    apply BitVec.eq_of_toNat_eq
    rw [leNat_leBytes, hpow, BitVec.toNat_ofNat, BitVec.toNat_ofNat, Nat.mod_mod]
  have htake : (leBytes n v ++ rest).take n = leBytes n v := take_left' (length_leBytes n v)
  have hdrop : (leBytes n v ++ rest).drop n = rest := drop_left' (length_leBytes n v)
  rw [immediate, if_neg (by simp), htake, hdrop, hword]

theorem displacement_dispMod (base : UInt8) (disp : BitVec 32) (rest : List UInt8) :
    displacement (dispMod base disp)
      ((if dispMod base disp = 1 then leBytes 1 disp.toNat
        else if dispMod base disp = 2 then leBytes 4 disp.toNat else []) ++ rest) =
      some (disp, rest) := by
  unfold dispMod
  split
  · next h => simp [displacement, h.1]
  · split
    · next h =>
      have hshort : (BitVec.ofNat 8 disp.toNat).signExtend 32 = disp := by
        rw [BitVec.ofNat_toNat, A64.signExtend_setWidth (by decide) (by decide) (by decide)
          (by simpa using h.1) (by simpa using Int.lt_add_one_of_le h.2), BitVec.signExtend_eq]
      simp only [if_true, displacement, immediate_leBytes 1 8 _ rfl, Option.map_some, hshort]
      rfl
    · simp [displacement, immediate_leBytes 4 32 _ rfl]

theorem decode_encodeMem (op : Opcode) (reg base : Reg) (disp : BitVec 32) (size : Size)
    (rest : List UInt8) :
    decode (encodeMem op (num reg) (num base) disp size ++ rest) =
      some (⟨size, op, reg, .mem (some base) none disp⟩, rest) := by
  have hmod : dispMod (num base) disp ∈ [0, 1, 2, 3] := by
    unfold dispMod
    split
    · decide
    · split <;> decide
  obtain ⟨hhigh, hlow, hreg, hrm⟩ := modrm_fields _ hmod reg base
  have hdisp := displacement_dispMod (num base) disp rest
  have h3 : dispMod (num base) disp ≠ 3 := by
    unfold dispMod
    split
    · decide
    · split <;> decide
  have h5 : ¬ (num base &&& 7 = 5 ∧ dispMod (num base) disp = 0) := by
    rintro ⟨h5, h0⟩
    unfold dispMod at h0
    rw [if_neg (by simp [h5])] at h0
    split at h0 <;> cases h0
  rw [encodeMem]
  simp only [append_assoc, cons_append, decode, decodePrefix_encode, decodeRm, hhigh,
    hlow, hreg, if_neg h3]
  by_cases hsib : num base &&& 7 = 4
  · have hbase := sib_fields base hsib
    have h24 : (0x24 : UInt8) &&& 7 ≠ 5 := by decide
    have hindex : field 0x24 3 false = 4 := by decide
    simp only [if_pos hsib, singleton_append, hindex, if_true, h24, false_and, if_false,
      hdisp, hbase]
    rfl
  · simp only [if_neg hsib, nil_append, if_neg h5, hdisp, hrm]
    rfl

theorem decode_encodeAluRr (op : Opcode) (dst src : Reg) (size : Size) (rest : List UInt8) :
    decode (encodeAluRr op (num dst) (num src) size ++ rest) =
      some (⟨size, op, src, .reg dst⟩, rest) := by
  obtain ⟨hhigh, -, hreg, hrm⟩ := modrm_fields 3 (by decide) src dst
  have h1 : size.val ≠ 1 := by
    obtain ⟨n, rfl | rfl | rfl⟩ := size <;> decide
  rw [encodeAluRr, if_neg h1, append_assoc]
  simp only [decode, decodePrefix_encode, singleton_append, decodeRm, hhigh, hreg, hrm]
  rfl

/-- Operands in memory and in registers, of which nothing is left over. -/
theorem encoded_decodes (op : Opcode) (reg base dst src : Reg) (disp : BitVec 32) (size : Size) :
    decode (encodeMem op (num reg) (num base) disp size) =
        some (⟨size, op, reg, .mem (some base) none disp⟩, []) ∧
      decode (encodeAluRr op (num dst) (num src) size) = some (⟨size, op, src, .reg dst⟩, []) := by
  have hmem := decode_encodeMem op reg base disp size []
  have halu := decode_encodeAluRr op dst src size []
  rw [append_nil] at hmem halu
  exact ⟨hmem, halu⟩

theorem signExtend_fits {v : BitVec 64} (hlow : -2 ^ 31 ≤ v.toInt) (hhigh : v.toInt < 2 ^ 31) :
    (BitVec.ofNat 32 v.toNat).signExtend 64 = v := by
  rw [BitVec.ofNat_toNat, A64.signExtend_setWidth (by decide) (by decide) (by decide) hlow hhigh,
    BitVec.signExtend_eq]

/-- What REX.W and a REX.B in front of an opcode are read as. -/
theorem decodePrefix_wide (b : Bool) (rest : List UInt8) :
    decodePrefix (rex true false false b :: rest) = (8, ⟨true, false, false, b⟩, rest) := by
  obtain ⟨hrex, hfields, hne⟩ := rex_fields true false b
  simp [decodePrefix, hrex, hfields, hne]

/-- The extension `n` of an opcode stands in the place of a register. -/
theorem decodeRm_wide : ∀ n : Reg, n.val < 8 → ∀ (dst : Reg) (rest : List UInt8),
    decodeRm ⟨true, false, false, num dst ≥ 8⟩ (modrm 3 (num n) (num dst) :: rest) =
      some (n, .reg dst, rest) := by
  intro n hn dst rest
  obtain ⟨hhigh, -, hreg, hrm⟩ := modrm_fields 3 (by decide) n dst
  have hlow : ∀ n : Reg, n.val < 8 → decide (num n ≥ 8) = false := by decide
  rw [hlow n hn] at hreg
  simp only [decodeRm, hhigh, hreg, hrm, if_true]

theorem step_immediate {op : UInt8} {n : Reg} {f : BitVec 64 → BitVec 64 → BitVec 64}
    (hn : n.val < 8) (hf : immediateOp op n = some f) (dst : Reg) (v : Nat) (rest : List UInt8) :
    step (rex true false false (num dst ≥ 8) :: op :: modrm 3 (num n) (num dst) ::
      (leBytes 4 v ++ rest)) σ =
        some (rest, update σ dst (f (σ dst) ((BitVec.ofNat 32 v).signExtend 64))) := by
  have hop : op = 0xC7 ∨ op = 0x81 := by
    unfold immediateOp at hf
    split at hf
    · next h => exact Or.inl h.1
    · split at hf
      · next h => exact Or.inr h.1
      · split at hf
        · next h => exact Or.inr h.1
        · cases hf
  have hnot : ¬ (0xB8 ≤ op ∧ op ≤ 0xBF) ∧ registerOp op = none := by
    rcases hop with rfl | rfl <;> decide
  simp only [step, decodePrefix_wide, and_true, if_neg hnot.1, decodeRm_wide n hn, hnot.2,
    Nat.mod_eq_of_lt hn, hf, immediate_leBytes 4 32 v rfl]
  rfl

theorem step_alu (op : Opcode) {f : BitVec 64 → BitVec 64 → BitVec 64}
    (hf : registerOp op = some f) (dst src : Reg) (size : Size) (rest : List UInt8) :
    step (encodeAluRr op (num dst) (num src) size ++ rest) σ =
      (write σ size dst (f (σ dst) (σ src))).map fun σ => (rest, σ) := by
  obtain ⟨hhigh, -, hreg, hrm⟩ := modrm_fields 3 (by decide) src dst
  have h1 : size.val ≠ 1 := by
    obtain ⟨n, rfl | rfl | rfl⟩ := size <;> decide
  have hop : ¬ (0xB8 ≤ op.val ∧ op.val ≤ 0xBF ∧ size.val = 8) := by
    rintro ⟨hlow, hhigh, -⟩
    unfold registerOp at hf
    split at hf
    · next h => exact absurd (h ▸ hlow) (by decide)
    · split at hf
      · next h => exact absurd (h ▸ hlow) (by decide)
      · cases hf
  rw [encodeAluRr, if_neg h1, append_assoc]
  simp only [step, decodePrefix_encode, singleton_append, if_neg hop, decodeRm, hhigh, hreg,
    hrm, if_true, hf]

theorem step_movImm (dst : Reg) (imm : BitVec 64) (preserveFlags : Bool) (rest : List UInt8) :
    step (movImmBytes (num dst) imm preserveFlags ++ rest) σ =
      some (rest, update σ dst imm) := by
  unfold movImmBytes
  split
  · next h =>
    have hclear := step_alu (σ := σ) ⟨0x31, by decide, by decide⟩ rfl dst dst ⟨4, by decide⟩ rest
    have hbytes : encodeAluRr 0x31 (num dst) (num dst) 4 =
        (if num dst ≥ 8 then [rex false true false true] else []) ++
          [0x31, modrm 3 (num dst) (num dst)] := by
      by_cases hdst : num dst ≥ 8 <;> simp [encodeAluRr, encodeOpcode, hdst]
    rw [hbytes] at hclear
    rw [hclear, h.1]
    simp [write]
  · split
    · next h =>
      have hstep := step_immediate (σ := σ) (n := 0) (by decide)
        (show immediateOp 0xC7 _ = _ from rfl) dst imm.toNat rest
      simp only [fitsInt32, Bool.and_eq_true, decide_eq_true_eq] at h
      rw [signExtend_fits h.1 h.2] at hstep
      exact hstep
    · have hop : ∀ r : Reg, 0xB8 ≤ 0xB8 + (num r &&& 7) ∧ 0xB8 + (num r &&& 7) ≤ 0xBF ∧
          field (0xB8 + (num r &&& 7)) 0 (num r ≥ 8) = r := by
        decide
      obtain ⟨hlow, hhigh, hreg⟩ := hop dst
      simp only [cons_append, step, decodePrefix_wide, hlow, hhigh, and_self, if_true,
        immediate_leBytes 8 64 _ rfl, hreg]
      simp

theorem movImmBytes_ne_nil (dst : UInt8) (imm : BitVec 64) (preserveFlags : Bool) :
    movImmBytes dst imm preserveFlags ≠ [] := by
  unfold movImmBytes
  split
  · simp
  · split <;> simp

theorem runs_movImm (dst : Reg) (imm : BitVec 64) (preserveFlags : Bool) (σ : Regs) :
    Runs (movImmBytes (num dst) imm preserveFlags) σ (update σ dst imm) :=
  .of_step (movImmBytes_ne_nil _ _ _) (step_movImm dst imm preserveFlags)

theorem executed_movImm (dst : Reg) (imm : BitVec 64) (preserveFlags : Bool) (σ : Regs) :
    executed (movImmBytes (num dst) imm preserveFlags) σ = some (update σ dst imm) :=
  (runs_movImm dst imm preserveFlags σ).executed

theorem runs_aluRr (op : Opcode) {f : BitVec 64 → BitVec 64 → BitVec 64}
    (hf : registerOp op = some f) (dst src : Reg) (σ : Regs) :
    Runs (encodeAluRr op (num dst) (num src) 8) σ (update σ dst (f (σ dst) (σ src))) :=
  .of_step (by simp [encodeAluRr]) (step_alu op hf dst src ⟨8, by decide⟩)

/-- A large constant goes through R11, which loses what it held. -/
theorem runs_addImm_large (dst : Reg) (h : fitsInt32 imm = false) (σ : Regs) :
    Runs (addImmBytes (num dst) imm) σ
      (update (update σ 11 imm) dst (update σ 11 imm dst + imm)) := by
  have h0 : imm ≠ 0 := by
    rintro rfl
    cases h
  have hadd := runs_aluRr ⟨0x01, by decide, by decide⟩ rfl dst 11 (update σ 11 imm)
  rw [update_self] at hadd
  rw [addImmBytes, if_neg h0, if_pos h]
  exact (runs_movImm 11 imm false σ).append hadd

theorem runs_immediate {op : UInt8} {n : Reg} {f : BitVec 64 → BitVec 64 → BitVec 64}
    (hn : n.val < 8) (hf : immediateOp op n = some f) (v : Nat) (dst : Reg) (σ : Regs) :
    Runs (rex true false false (num dst ≥ 8) :: op :: modrm 3 (num n) (num dst) ::
      leBytes 4 v) σ (update σ dst (f (σ dst) ((BitVec.ofNat 32 v).signExtend 64))) :=
  .of_step (cons_ne_nil _ _) (step_immediate hn hf dst v)

theorem runs_addImm_small (dst : Reg) (h : fitsInt32 imm = true) (hmin : imm.toInt ≠ -2 ^ 31)
    (σ : Regs) : Runs (addImmBytes (num dst) imm) σ (update σ dst (σ dst + imm)) := by
  have hfits := h
  simp only [fitsInt32, Bool.and_eq_true, decide_eq_true_eq] at hfits
  unfold addImmBytes
  split
  · next h0 => exact ⟨0, Nat.zero_le _, by simp [h0]⟩
  · rw [if_neg (by simp [h])]
    split
    · have hadd := runs_immediate (n := 0) (by decide) (show immediateOp 0x81 _ = _ from rfl)
        imm.toNat dst σ
      rw [signExtend_fits hfits.1 hfits.2] at hadd
      exact hadd
    · next hneg =>
      have hsub := runs_immediate (n := 5) (by decide) (show immediateOp 0x81 _ = _ from rfl)
        (-imm).toNat dst σ
      have htoInt : (-imm).toInt = -imm.toInt := by
        rw [BitVec.toInt_neg]
        exact Int.bmod_eq_of_le (by omega) (by omega)
      rw [signExtend_fits (by omega) (by omega), BitVec.sub_neg] at hsub
      exact hsub

theorem executed_addImm_large (dst : Reg) (h : fitsInt32 imm = false) (σ : Regs) :
    executed (addImmBytes (num dst) imm) σ =
      some (update (update σ 11 imm) dst (update σ 11 imm dst + imm)) :=
  (runs_addImm_large dst h σ).executed

theorem executed_addImm_small (dst : Reg) (h : fitsInt32 imm = true) (hmin : imm.toInt ≠ -2 ^ 31)
    (σ : Regs) :
    executed (addImmBytes (num dst) imm) σ = some (update σ dst (σ dst + imm)) :=
  (runs_addImm_small dst h hmin σ).executed

/-- The negated constant is read back as a negative one. -/
theorem executed_addImm_least (dst : Reg) (h : imm.toInt = -2 ^ 31) (σ : Regs) :
    executed (addImmBytes (num dst) imm) σ = some (update σ dst (σ dst - imm)) := by
  have himm : imm = BitVec.ofInt 64 (-2 ^ 31) := by
    apply BitVec.eq_of_toInt_eq
    rw [h]
    decide
  subst himm
  exact (runs_immediate (n := 5) (by decide) (show immediateOp 0x81 _ = _ from rfl)
    (-BitVec.ofInt 64 (-2 ^ 31)).toNat dst σ).executed

/-- Moved into a register whatever the flags, and added to one. -/
def Exact (dst : Reg) (imm : BitVec 64) : Prop :=
  ∀ σ, (∀ preserveFlags, executed (movImmBytes (num dst) imm preserveFlags) σ =
      some (update σ dst imm)) ∧
    ∃ τ, executed (addImmBytes (num dst) imm) σ = some τ ∧ τ dst = σ dst + imm

theorem exact_iff (dst : Reg) (imm : BitVec 64) :
    Exact dst imm ↔ imm.toInt ≠ -2 ^ 31 ∧ (dst = 11 → fitsInt32 imm = true) := by
  constructor
  · intro h
    obtain ⟨-, τ, hτ, hsum⟩ := h fun _ => 0
    constructor
    · intro hmin
      rw [executed_addImm_least dst hmin] at hτ
      obtain rfl := Option.some.inj hτ
      have himm : imm = BitVec.ofInt 64 (-2 ^ 31) := by
        apply BitVec.eq_of_toInt_eq
        rw [hmin]
        decide
      rw [himm, update_self] at hsum
      exact absurd hsum (by decide)
    · rintro rfl
      cases hfits : fitsInt32 imm with
      | true => rfl
      | false =>
        rw [executed_addImm_large 11 hfits] at hτ
        obtain rfl := Option.some.inj hτ
        rw [update_self, update_self] at hsum
        have h0 : imm = 0 := by simpa using hsum
        rw [h0] at hfits
        cases hfits
  · rintro ⟨hmin, hlarge⟩ σ
    refine ⟨fun preserveFlags => executed_movImm dst imm preserveFlags σ, ?_⟩
    cases hfits : fitsInt32 imm with
    | true => exact ⟨_, executed_addImm_small dst hfits hmin σ, update_self ..⟩
    | false =>
      have hdst : dst ≠ 11 := by
        intro hdst
        rw [hlarge hdst] at hfits
        cases hfits
      refine ⟨_, executed_addImm_large dst hfits σ, ?_⟩
      rw [update_self, update_of_ne hdst]

/-- The least number of 32 bits is added to RAX with the wrong sign. -/
theorem exact_least : ¬ ∀ (dst : Reg) (imm : BitVec 64), Exact dst imm := by
  intro h
  obtain ⟨-, τ, hτ, hsum⟩ := h 0 0xFFFFFFFF80000000 fun _ => 0
  have hrun : (executed (addImmBytes (num 0) 0xFFFFFFFF80000000) fun _ => 0).map (· 0) =
      some 0x80000000 := by decide
  rw [hτ, Option.map_some, hsum] at hrun
  exact absurd hrun (by decide)

/-- What is emitted for constants and sums. -/
inductive Emitted where
  | movImm (dst : Reg) (imm : BitVec 64) (preserveFlags : Bool)
  | addImm (dst : Reg) (imm : BitVec 64)
  | add (dst src : Reg)
  | xor (dst src : Reg)

def Emitted.bytes : Emitted → List UInt8
  | .movImm dst imm preserveFlags => movImmBytes (num dst) imm preserveFlags
  | .addImm dst imm => addImmBytes (num dst) imm
  | .add dst src => encodeAluRr 0x01 (num dst) (num src) 8
  | .xor dst src => encodeAluRr 0x31 (num dst) (num src) 8

def Emitted.meaning (σ : Regs) : Emitted → Regs
  | .movImm dst imm _ => update σ dst imm
  | .addImm dst imm => update (if fitsInt32 imm then σ else update σ 11 imm) dst (σ dst + imm)
  | .add dst src => update σ dst (σ dst + σ src)
  | .xor dst src => update σ dst (σ dst ^^^ σ src)

def Emitted.Sound : Emitted → Prop
  | .addImm dst imm => imm.toInt ≠ -2 ^ 31 ∧ (dst = 11 → fitsInt32 imm = true)
  | _ => True

theorem runs_emitted (e : Emitted) (h : e.Sound) (σ : Regs) : Runs e.bytes σ (e.meaning σ) := by
  cases e with
  | movImm dst imm preserveFlags => exact runs_movImm dst imm preserveFlags σ
  | add dst src => exact runs_aluRr ⟨0x01, by decide, by decide⟩ rfl dst src σ
  | xor dst src => exact runs_aluRr ⟨0x31, by decide, by decide⟩ rfl dst src σ
  | addImm dst imm =>
    cases hfits : fitsInt32 imm with
    | true => simpa [Emitted.bytes, Emitted.meaning, hfits] using runs_addImm_small dst hfits h.1 σ
    | false =>
      have hdst : dst ≠ 11 := fun hdst => by simp [h.2 hdst] at hfits
      simpa [Emitted.bytes, Emitted.meaning, hfits, hdst] using runs_addImm_large dst hfits σ

/-- What is emitted one behind the other computes what each of it means, one after the other;
of the other registers only R11 is lost, to large constants. -/
theorem straight_line_computes (es : List Emitted) (h : ∀ e ∈ es, e.Sound) (σ : Regs) :
    executed (es.flatMap Emitted.bytes) σ = some (es.foldl Emitted.meaning σ) := by
  have hruns : Runs (es.flatMap Emitted.bytes) σ (es.foldl Emitted.meaning σ) := by
    induction es generalizing σ with
    | nil => exact ⟨0, le_rfl, fun _ _ => rfl⟩
    | cons e es ih =>
      obtain ⟨he, hes⟩ := forall_mem_cons.1 h
      exact (runs_emitted e he σ).append (ih hes _)
  exact hruns.executed

/-- `2 ^ 32 - 1` added to a cleared RAX, and that to RBX. -/
theorem straight_line_computes_sum :
    (executed ([.movImm 0 0 false, .addImm 0 0xFFFFFFFF, .add 3 0].flatMap Emitted.bytes)
      fun _ => 1).map (· 3) = some 0x100000000 := by
  rw [straight_line_computes _ (by simp [Emitted.Sound])]
  rfl

end Liric.Guarantees.X8664Encoding
