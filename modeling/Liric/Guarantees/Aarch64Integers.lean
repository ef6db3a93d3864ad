import Liric.Guarantees.Aarch64Code

/-!
# The code of integer instructions

What the code of each instruction leaves in the slot of its result, as a function of the
64 bits in which it finds its operands.
-/
namespace Liric.Guarantees.Aarch64Integers
open Source Source.Ir Source.Aarch64 Lib Lib.A64 Aarch64Code

variable {Post : Unit → A64Ctx → State → Prop} {reg : Reg} {bits : Nat}
  {down : Bool → Reg → Reg → Reg → Inst}

variable {env : Env} {slot : Nat → BitVec 32} {c : A64Ctx} {σ : State} {n : Nat}

theorem emits_insn {insn : Inst} {rest : A64M Unit} [Plain insn] [Appends (target env true) rest]
    (h : ∀ c', Emits (target env true) (Fits slot) rest c' (exec env insn σ) Post) :
    Emits (target env true) (Fits slot) (do emitU32 insn; rest) c σ Post := by
  apply Emits.seq fits_final (emits_emitU32 insn)
  rintro _ c' σ' - ⟨-, rfl⟩
  exact h c'

theorem emits_constant {rd : Reg} {imm : BitVec 64} (is64 : Bool) {rest : A64M Unit} (hrd : rd ≠ 31)
    [Appends (target env true) rest]
    (h : ∀ c', Emits (target env true) (Fits slot) rest c'
      (σ.setX rd (if is64 then imm else (imm.setWidth 32).setWidth 64)) Post) :
    Emits (target env true) (Fits slot) (do emitMoveImmCtx rd imm is64; rest) c σ Post := by
  apply Emits.bind fits_final
  apply Emits.seq fits_final
  · exact emits_emitMoveImm fits_final hrd imm is64
  rintro _ c₁ σ₁ - ⟨-, rfl⟩
  rw [invalidateCachedReg_eq]
  apply (emits_setCachedRegVreg rd uint32Max).mono
  rintro _ c' σ' - ⟨-, rfl⟩
  exact h c'

/-- A part that may be left out. -/
theorem emits_emitIf {F : A64Ctx → Prop} {keep : Bool} {p : Prop} [Decidable p] {x : A64M Unit}
    (hx : p → Emits (target env keep) F x c σ Post) (hskip : ¬ p → Post () c σ) :
    Emits (target env keep) F (emitIf p x) c σ Post := by
  apply Emits.ite hx
  intro h
  exact Emits.pure (hskip h)

theorem x_setX (σ : State) {rd : Reg} (hrd : rd ≠ 31) (v : BitVec 64) (r : Reg) :
    (σ.setX rd v).x r = if r = rd then v else σ.x r := by
  rw [State.setX_of_ne σ hrd]
  by_cases h : r = rd
  · simp [h]
  · simp [h]

theorem exec_shift_extend (op : ShiftOp) (signed : Bool) (hop : op = if signed then .asr else .lsr)
    {amount : Reg} (hbits : 0 < bits) (hwide : bits ≤ 64) (hreg : reg ≠ 31) (hamount : amount ≠ 31)
    (hne : reg ≠ amount) (hσ : σ.x amount = BitVec.ofNat 64 (64 - bits)) :
    exec env (.shiftv op true reg reg amount) (exec env (encLslv true reg reg amount) σ) =
      σ.setX reg (extend signed bits (σ.x reg)) := by
  have hcount : (BitVec.ofNat 64 (64 - bits)).toNat % 64 = 64 - bits := by
    rw [BitVec.toNat_ofNat]
    omega
  have hup : exec env (encLslv true reg reg amount) σ = σ.setX reg (σ.x reg <<< (64 - bits)) := by
    rw [encLslv, exec, State.getX_of_ne σ hreg, State.getX_of_ne σ hamount, hσ]
    simp only [atWidth, shift, hcount, if_true]
  have hsame : (σ.setX reg (σ.x reg <<< (64 - bits))).x amount = BitVec.ofNat 64 (64 - bits) := by
    rw [(keepsRegs_setX σ hreg _).x amount (by simpa using hne.symm), hσ]
  rw [hup, exec, State.getX_of_ne _ hreg, State.getX_of_ne _ hamount, hsame, setX_x σ hreg,
    setX_setX]
  congr 1
  cases signed with
  | true =>
    rw [hop, extend, if_pos rfl, ← shl_sshr (σ.x reg) hbits hwide]
    simp only [atWidth, shift, hcount, if_true]
  | false =>
    rw [hop, extend, if_neg (by decide), ← shl_ushr (σ.x reg) hbits hwide]
    simp only [atWidth, shift, hcount, if_true, Bool.false_eq_true, if_false]

/-- The operand is extended from its low bits. -/
theorem emits_emitExtendShift (signed : Bool) {amount : Reg} (hbits : 0 < bits) (hwide : bits ≤ 64)
    (hreg : reg ≠ 31) (hamount : amount ≠ 31) (hne : reg ≠ amount) :
    Emits (target env true) (Fits slot)
      (emitExtendShift (if signed then encAsrv else encLsrv) reg amount bits) c σ fun _ _ σ' =>
      σ' = (σ.setX amount (BitVec.ofNat 64 (64 - bits))).setX reg
        (extend signed bits (σ.x reg)) := by
  apply emits_constant true hamount
  intro c₁
  apply emits_insn
  intro c₂
  apply (emits_emitU32 _).mono
  rintro _ c' σ' - ⟨-, rfl⟩
  have hx := (keepsRegs_setX σ hamount (BitVec.ofNat 64 (64 - bits))).x reg (by simpa using hne)
  rw [← hx]
  have hcount := setX_x σ hamount (BitVec.ofNat 64 (64 - bits))
  cases signed with
  | true => exact exec_shift_extend .asr true rfl hbits hwide hreg hamount hne hcount
  | false => exact exec_shift_extend .lsr false rfl hbits hwide hreg hamount hne hcount

instance appends_emitExtendShift [∀ is64 rd rn rm, Plain (down is64 rd rn rm)]
    (reg amount : Reg) (bits : Nat) :
    Appends (target env true) (emitExtendShift down reg amount bits) :=
  Appends.bind

section Host
variable (host : A64Host) {desc : LrInst} {op0 op1 op2 : LrOperand}
variable {w₀ w₁ w₂ : Nat} {a : BitVec w₀} {b : BitVec w₁} {d : BitVec w₂}

theorem emits_emitBinary {insn : Bool → Inst} {f : BitVec 64 → BitVec 64 → BitVec 64}
    [∀ is64, Plain (insn is64)]
    (hexec : ∀ σ, exec env (insn (is64Type desc.type)) σ = σ.setX 9 (f (σ.x 9) (σ.x 10)))
    (h0 : Holds slot (n + 2) c σ op0 a) (h1 : Holds slot (n + 2) c σ op1 b) :
    Emits (target env true) (Fits slot) (emitBinary host desc op0 op1 insn) c σ fun _ c' σ' =>
      ∃ p q, p.setWidth w₀ = a ∧ q.setWidth w₁ = b ∧ slotValue c' σ' desc.dest = f p q := by
  apply emits_loadBoth host h0 h1
  intro c₁ σ₁ _ hp hq
  apply emits_insn
  intro c₂
  apply (emits_emitStoreSlot fits_final (by decide) desc.dest).mono
  intro _ c' σ' _ hslot
  refine ⟨σ₁.x 9, σ₁.x 10, hp, hq, ?_⟩
  rw [hslot, hexec]
  exact setX_x σ₁ (by decide) _

/-- An operand of a signed division. -/
def narrowed (is64 : Bool) (type : Option LrType) (v : BitVec 64) : BitVec 64 :=
  if 0 < Aarch64.intTypeWidthBits type ∧
      Aarch64.intTypeWidthBits type < (if is64 then 64 else 32) then
    extend true (Aarch64.intTypeWidthBits type) v
  else v

instance appends_emitSignExtendNarrow (is64 : Bool) (type : Option LrType) (reg : Reg) :
    Appends (target env true) (emitSignExtendNarrow is64 type reg) :=
  appends_emitIf

theorem emits_emitSignExtendNarrow (is64 : Bool) (type : Option LrType) (hreg : reg ≠ 31)
    (hne : reg ≠ 12) :
    Emits (target env true) (Fits slot) (emitSignExtendNarrow is64 type reg) c σ fun _ _ σ' =>
      σ'.x reg = narrowed is64 type (σ.x reg) ∧ ∀ r, r ≠ reg → r ≠ 12 → σ'.x r = σ.x r := by
  apply emits_emitIf
  · intro h
    have hwide : Aarch64.intTypeWidthBits type ≤ 64 := by
      have hbound := h.2
      split at hbound <;> omega
    apply (emits_emitExtendShift true h.1 hwide hreg (by decide) hne).mono
    rintro _ c' σ' - rfl
    constructor
    · rw [setX_x _ hreg, narrowed, if_pos h]
    · intro r hr h12
      rw [x_setX _ hreg, if_neg hr, x_setX _ (by decide)]
      exact if_neg h12
  · intro h
    rw [narrowed, if_neg h]
    exact ⟨rfl, fun _ _ _ => rfl⟩

/-- The operands of a signed division are extended one after the other. -/
theorem emits_emitSignExtendBoth (is64 : Bool) (type₀ type₁ : Option LrType) :
    Emits (target env true) (Fits slot) (do
      emitSignExtendNarrow is64 type₀ a64X9
      emitSignExtendNarrow is64 type₁ a64X10) c σ fun _ _ σ' =>
      σ'.x 9 = narrowed is64 type₀ (σ.x 9) ∧ σ'.x 10 = narrowed is64 type₁ (σ.x 10) := by
  apply Emits.seq fits_final
  · exact emits_emitSignExtendNarrow is64 type₀ (by decide) (by decide)
  rintro _ c₁ σ₁ - ⟨h9, hrest⟩
  apply (emits_emitSignExtendNarrow is64 type₁ (by decide) (by decide)).mono
  rintro _ c₂ σ₂ - ⟨h10, hrest'⟩
  constructor
  · rw [hrest' 9 (by decide) (by decide)]
    exact h9
  · rw [← hrest 10 (by decide) (by decide)]
    exact h10

/-- The quotient or the remainder of two registers. -/
def divided (signed is64 isRem : Bool) (p q : BitVec 64) : BitVec 64 :=
  let quot := atWidth is64 (quotient signed) p q
  if isRem then atWidth is64 (addSub true) p (atWidth is64 (fun _ a b => a * b) quot q) else quot

/-- The registers after the instructions of a division. -/
theorem exec_division (signed is64 : Bool) (σ : State) :
    let τ := exec env (encMsub is64 a64X11 a64X9 a64X10 a64X11)
      (exec env (.div signed is64 a64X9 a64X9 a64X10)
        (exec env (encLogicReg .orr is64 a64X11 a64Sp a64X9) σ))
    τ.x 9 = divided signed is64 false (σ.x 9) (σ.x 10) ∧
      τ.x 11 = divided signed is64 true (σ.x 9) (σ.x 10) := by
  intro τ
  have hτ : τ = exec env (.madd true is64 11 9 10 11)
      (exec env (.div signed is64 9 9 10) (σ.setX 11 (atWidth is64 (logic .orr) 0#64 (σ.x 9)))) := rfl
  have hmoved : ∀ v, atWidth is64 (addSub true) (atWidth is64 (logic .orr) 0#64 (σ.x 9)) v =
      atWidth is64 (addSub true) (σ.x 9) v := by
    intro v
    cases is64 <;> simp [atWidth, logic]
  simp [hτ, exec, State.getX, x_setX, hmoved, divided]

/-- The code of a division after its operands have been loaded. -/
def divideRegs (isUnsigned isRem is64 : Bool) (dest : Nat) : A64M Unit := do
  emitMovReg a64X11 a64X9 is64
  emitU32 (if isUnsigned then encUdiv is64 a64X9 a64X9 a64X10
    else encSdiv is64 a64X9 a64X9 a64X10)
  emitU32 (encMsub is64 a64X11 a64X9 a64X10 a64X11)
  invalidateCachedReg a64X9
  emitStoreSlot dest (if isRem then a64X11 else a64X9)

instance appends_divideRegs (isUnsigned isRem is64 : Bool) (dest : Nat) :
    Appends (target env true) (divideRegs isUnsigned isRem is64 dest) :=
  Appends.bind

theorem emits_divideRegs (isUnsigned isRem is64 : Bool) (dest : Nat) :
    Emits (target env true) (Fits slot) (divideRegs isUnsigned isRem is64 dest) c σ fun _ c' σ' =>
      slotValue c' σ' dest = divided (!isUnsigned) is64 isRem (σ.x 9) (σ.x 10) := by
  have hdiv : (if isUnsigned then encUdiv is64 a64X9 a64X9 a64X10
      else encSdiv is64 a64X9 a64X9 a64X10) = .div (!isUnsigned) is64 a64X9 a64X9 a64X10 := by
    cases isUnsigned <;> rfl
  unfold divideRegs
  rw [hdiv]
  apply emits_insn
  intro c₁
  apply emits_insn
  intro c₂
  apply emits_insn
  intro c₃
  apply Emits.seq fits_final
  · rw [invalidateCachedReg_eq]
    exact emits_setCachedRegVreg ..
  rintro _ c₄ σ₄ - ⟨-, rfl⟩
  apply (emits_emitStoreSlot fits_final (by cases isRem <;> decide) dest).mono
  intro _ c' σ' _ hslot
  rw [hslot]
  cases isRem with
  | false => exact (exec_division (!isUnsigned) is64 σ).1
  | true => exact (exec_division (!isUnsigned) is64 σ).2

theorem emits_emitDivision (isUnsigned isRem : Bool)
    (h0 : Holds slot (n + 2) c σ op0 a) (h1 : Holds slot (n + 2) c σ op1 b) :
    Emits (target env true) (Fits slot) (emitDivision host desc op0 op1 isUnsigned isRem) c σ
      fun _ c' σ' => ∃ p q, p.setWidth w₀ = a ∧ q.setWidth w₁ = b ∧
        slotValue c' σ' desc.dest =
          if isUnsigned then divided false (is64Type desc.type) isRem p q
          else divided true (is64Type desc.type) isRem (narrowed (is64Type desc.type) op0.type p)
            (narrowed (is64Type desc.type) op1.type q) := by
  apply emits_loadBoth host h0 h1
  intro c₁ σ₁ _ hp hq
  cases isUnsigned with
  | true =>
    apply Emits.bind fits_final
    apply emits_emitIf (fun h => nomatch h)
    intro _
    apply (emits_divideRegs true isRem _ desc.dest).mono
    intro _ c' σ' _ hslot
    exact ⟨σ₁.x 9, σ₁.x 10, hp, hq, hslot⟩
  | false =>
    apply Emits.bind fits_final
    apply emits_emitIf
    · intro _
      apply (emits_emitSignExtendBoth ..).mono
      rintro _ c₂ σ₂ - ⟨h9, h10⟩
      apply (emits_divideRegs false isRem _ desc.dest).mono
      intro _ c' σ' _ hslot
      refine ⟨σ₁.x 9, σ₁.x 10, hp, hq, ?_⟩
      rw [hslot, h9, h10]
      rfl
    · intro h
      exact absurd rfl h

/-- The flags of a comparison of two registers. -/
def compared (is64 : Bool) (p q : BitVec 64) : Flags :=
  if is64 then subFlags p q else subFlags (p.setWidth 32) (q.setWidth 32)

/-- An operand of a comparison. -/
def widened (signed : Bool) (type : Option LrType) (v : BitVec 64) : BitVec 64 :=
  if 0 < Aarch64.intTypeWidthBits type ∧ Aarch64.intTypeWidthBits type < 32 then
    extend signed (Aarch64.intTypeWidthBits type) v
  else v

instance appends_emitExtendBoth [∀ is64 rd rn rm, Plain (down is64 rd rn rm)] (bits : Nat) :
    Appends (target env true) (emitExtendBoth down bits) :=
  Appends.bind

theorem emits_emitExtendBoth (signed : Bool) (hbits : 0 < bits) (hwide : bits ≤ 64) :
    Emits (target env true) (Fits slot)
      (emitExtendBoth (if signed then encAsrv else encLsrv) bits) c σ fun _ _ σ' =>
      σ'.x 9 = extend signed bits (σ.x 9) ∧ σ'.x 10 = extend signed bits (σ.x 10) := by
  have hextend : ∀ τ reg, reg ≠ 31 → reg ≠ a64X11 → τ.x a64X11 = BitVec.ofNat 64 (64 - bits) →
      exec env ((if signed then encAsrv else encLsrv) true reg reg a64X11)
        (exec env (encLslv true reg reg a64X11) τ) = τ.setX reg (extend signed bits (τ.x reg)) := by
    intro τ reg hreg hne hcount
    cases signed with
    | true => exact exec_shift_extend .asr true rfl hbits hwide hreg (by decide) hne hcount
    | false => exact exec_shift_extend .lsr false rfl hbits hwide hreg (by decide) hne hcount
  apply emits_constant true (by decide)
  intro c₁
  apply emits_insn
  intro c₂
  apply emits_insn
  intro c₃
  rw [if_pos rfl, hextend _ a64X9 (by decide) (by decide) (setX_x σ (by decide) _)]
  apply emits_insn
  intro c₄
  apply (emits_emitU32 _).mono
  rintro _ c' σ' - ⟨-, rfl⟩
  rw [hextend _ a64X10 (by decide) (by decide) (by simp [x_setX, a64X9, a64X11])]
  simp [x_setX, a64X9, a64X10, a64X11]

/-- Both operands of a comparison are extended from less than 32 bits. -/
theorem emits_emitWiden (signed : Bool) (type : Option LrType) :
    Emits (target env true) (Fits slot)
      (emitIf (0 < Aarch64.intTypeWidthBits type ∧ Aarch64.intTypeWidthBits type < 32)
        (emitExtendBoth (if signed then encAsrv else encLsrv) (Aarch64.intTypeWidthBits type))) c σ
      fun _ _ σ' => σ'.x 9 = widened signed type (σ.x 9) ∧
        σ'.x 10 = widened signed type (σ.x 10) := by
  apply emits_emitIf
  · intro h
    apply (emits_emitExtendBoth signed h.1 (by omega)).mono
    rintro _ c' σ' - hx
    rw [widened, widened, if_pos h, if_pos h]
    exact hx
  · intro h
    rw [widened, widened, if_neg h, if_neg h]
    exact ⟨rfl, rfl⟩

theorem exec_csel (is64 : Bool) (rd rn rm : Reg) (cond : BitVec 4) (τ : State) :
    exec env (encCsel is64 rd rn rm cond) τ =
      τ.setX rd (atWidth is64 (fun _ a b => if condHolds cond τ.flags then a else b)
        (τ.getX rn) (τ.getX rm)) := rfl

/-- A condition becomes 0 or 1. -/
theorem emits_emitSetccCond (cond : BitVec 4) :
    Emits (target env true) (Fits slot) (emitSetccCond a64X9 cond) c σ fun _ _ σ' =>
      σ'.x 9 = if condHolds cond σ.flags then 1 else 0 := by
  apply emits_constant false (by decide)
  intro c₁
  apply (emits_emitU32 _).mono
  rintro _ c' σ' - ⟨-, rfl⟩
  generalize hτ : σ.setX a64X9 _ = τ
  have hx : τ.getX a64X9 = 1 := by
    rw [← hτ, State.getX_of_ne _ (by decide), setX_x _ (by decide)]
    rfl
  have hflags : τ.flags = σ.flags := by
    rw [← hτ]
    exact (keepsRegs_setX σ (by decide) _).flags
  rw [exec_csel, hx, hflags]
  cases condHolds cond σ.flags <;> exact setX_x τ (by decide) _

theorem emits_emitSetccIcmp (pred : IcmpPred) :
    Emits (target env true) (Fits slot) (emitSetccIcmp pred a64X9) c σ fun _ _ σ' =>
      σ'.x 9 = if condHolds (icmpCond pred) σ.flags then 1 else 0 := by
  apply Emits.seq fits_final
  · exact emits_emitSetccCond _
  rintro _ c₁ σ₁ - hx
  rw [invalidateCachedReg_eq]
  apply (emits_setCachedRegVreg ..).mono
  rintro _ c' σ' - ⟨-, rfl⟩
  exact hx

/-- The comparison of two registers, after they have been extended. -/
theorem emits_emitIcmp (pred : IcmpPred) (h0 : Holds slot (n + 2) c σ op0 a)
    (h1 : Holds slot (n + 2) c σ op1 b) :
    Emits (target env true) (Fits slot) (emitIcmp host desc pred op0 op1) c σ fun _ c' σ' =>
      ∃ p q, p.setWidth w₀ = a ∧ q.setWidth w₁ = b ∧ slotValue c' σ' desc.dest =
        if condHolds (icmpCond pred) (compared (is64Type op0.type)
          (widened (icmpPredIsSigned pred) op0.type p)
          (widened (icmpPredIsSigned pred) op0.type q)) then 1 else 0 := by
  apply emits_loadBoth host h0 h1
  intro c₁ σ₁ _ hp hq
  apply Emits.seq fits_final
  · exact emits_emitWiden (icmpPredIsSigned pred) op0.type
  rintro _ c₂ σ₂ - ⟨h9, h10⟩
  apply emits_insn
  intro c₃
  apply Emits.seq fits_final
  · exact emits_emitSetccIcmp pred
  intro _ c₄ σ₄ _ hx
  apply (emits_emitStoreSlot fits_final (by decide) desc.dest).mono
  intro _ c' σ' _ hslot
  refine ⟨σ₁.x 9, σ₁.x 10, hp, hq, ?_⟩
  rw [← h9, ← h10, hslot]
  exact hx

/-- Only the low half of the condition is tested. -/
theorem emits_emitSelect (h0 : Holds slot (n + 3) c σ op0 a) (h1 : Holds slot (n + 3) c σ op1 b)
    (h2 : Holds slot (n + 3) c σ op2 d) :
    Emits (target env true) (Fits slot) (emitSelect host desc op0 op1 op2) c σ fun _ c' σ' =>
      ∃ r p q : BitVec 64, r.setWidth w₀ = a ∧ p.setWidth w₁ = b ∧ q.setWidth w₂ = d ∧
        slotValue c' σ' desc.dest = if r.setWidth 32 = 0 then q else p := by
  apply emits_loadFirst host h0
  intro c₁ σ₁ hload hr
  apply Emits.seq fits_final (emits_emitU32 _)
  rintro _ c₂ σ₂ - ⟨hc₂, hσ₂⟩
  have hx₂ : σ₂.x = σ₁.x := by
    rw [hσ₂]
    rfl
  have hmem₂ : σ₂.mem = σ₁.mem := by
    rw [hσ₂]
    rfl
  have h1' := (hload.holds op1 b h1).of_sameBut hc₂ hx₂ hmem₂
  have h2' := (hload.holds op2 d h2).of_sameBut hc₂ hx₂ hmem₂
  apply emits_loadBoth host h2' h1'
  intro c₃ σ₃ hflags hq hp
  apply emits_insn
  intro c₄
  apply (emits_emitStoreSlot fits_final (by decide) desc.dest).mono
  intro _ c' σ' _ hslot
  refine ⟨σ₁.x 9, σ₃.x 10, σ₃.x 9, hr, hp, hq, ?_⟩
  have hzero : σ₃.flags.z = decide ((σ₁.x 9).setWidth 32 = 0) := by
    rw [hflags, hσ₂]
    simp [exec, encAndsReg, andFlags, State.getX, a64X9]
  have hcond : condHolds a64CondNe σ₃.flags = !decide ((σ₁.x 9).setWidth 32 = 0) := by
    rw [← hzero]
    rfl
  rw [hslot, exec_csel, setX_x _ (by decide), hcond]
  simp [atWidth, State.getX, a64X9, a64X10]

theorem emits_emitIntCast (signed : Bool) (bits : Nat) (hwide : bits ≤ 64)
    (h0 : Holds slot (n + 1) c σ op0 a) :
    Emits (target env true) (Fits slot)
      (emitIntCast host desc op0 bits (if signed then encAsrv else encLsrv)) c σ fun _ c' σ' =>
      ∃ p : BitVec 64, p.setWidth w₀ = a ∧ slotValue c' σ' desc.dest =
        if 0 < bits ∧ bits < 64 then extend signed bits p else p := by
  apply emits_loadFirst host h0
  intro c₁ σ₁ _ hp
  apply Emits.bind fits_final
  apply emits_emitIf
  · intro h
    apply (emits_emitExtendShift signed h.1 hwide (by decide) (by decide) (by decide)).mono
    rintro _ c₂ σ₂ - rfl
    apply (emits_emitStoreSlot fits_final (by decide) desc.dest).mono
    intro _ c' σ' _ hslot
    refine ⟨σ₁.x 9, hp, ?_⟩
    rw [hslot, setX_x _ (by decide), if_pos h]
    rfl
  · intro h
    apply (emits_emitStoreSlot fits_final (by decide) desc.dest).mono
    intro _ c' σ' _ hslot
    refine ⟨σ₁.x 9, hp, ?_⟩
    rw [hslot, if_neg h]
    rfl

/-- The end of a conversion to a floating point number. -/
theorem emits_convert (signed : Bool) (dest fsize : Nat) :
    Emits (target env true) (Fits slot) (do
      emitU32 (.cvtf signed (fsize == 8) fpScratch0 a64X9)
      emitStoreFpSlot dest fpScratch0 fsize) c σ fun _ c' σ' =>
      (slotValue c' σ' dest).setWidth (8 * fpAccessSize fsize) =
        (floatOfInt (fsize == 8) (if signed then (σ.x 9).toInt else (σ.x 9).toNat)).setWidth
          (8 * fpAccessSize fsize) := by
  apply emits_insn
  intro c₁
  apply (emits_emitStoreFpSlot fits_final dest fpScratch0 fsize).mono
  intro _ c' σ' _ hslot
  rw [hslot]
  simp [exec, State.setD, State.getX, fpScratch0, a64X9]

theorem emits_emitSitofp (h0 : Holds slot (n + 1) c σ op0 a) :
    Emits (target env true) (Fits slot) (emitSitofp host desc op0) c σ fun _ c' σ' =>
      ∃ p : BitVec 64, p.setWidth w₀ = a ∧
        (slotValue c' σ' desc.dest).setWidth (8 * fpAccessSize (fpAbiSize desc.type)) =
          (floatOfInt (fpAbiSize desc.type == 8)
            (if typeSize op0.type ≤ 4 then extend true 32 p else p).toInt).setWidth
            (8 * fpAccessSize (fpAbiSize desc.type)) := by
  apply emits_loadFirst host h0
  intro c₁ σ₁ _ hp
  apply Emits.bind fits_final
  apply emits_emitIf
  · intro h
    apply (emits_emitU32 _).mono
    rintro _ c₂ σ₂ - ⟨-, rfl⟩
    apply (emits_convert true desc.dest _).mono
    intro _ c' σ' _ hslot
    refine ⟨σ₁.x 9, hp, ?_⟩
    rw [hslot, if_pos h]
    simp [exec, State.getX, x_setX, a64X9, extend]
  · intro h
    apply (emits_convert true desc.dest _).mono
    intro _ c' σ' _ hslot
    refine ⟨σ₁.x 9, hp, ?_⟩
    rw [hslot, if_neg h]
    rfl

theorem emits_emitUitofp (hwide : Aarch64.intTypeWidthBits op0.type ≤ 64)
    (h0 : Holds slot (n + 1) c σ op0 a) :
    Emits (target env true) (Fits slot) (emitUitofp host desc op0) c σ fun _ c' σ' =>
      ∃ p : BitVec 64, p.setWidth w₀ = a ∧
        (slotValue c' σ' desc.dest).setWidth (8 * fpAccessSize (fpAbiSize desc.type)) =
          (floatOfInt (fpAbiSize desc.type == 8)
            (if 0 < Aarch64.intTypeWidthBits op0.type ∧
                Aarch64.intTypeWidthBits op0.type < 64 then
              extend false (Aarch64.intTypeWidthBits op0.type) p else p).toNat).setWidth
            (8 * fpAccessSize (fpAbiSize desc.type)) := by
  apply emits_loadFirst host h0
  intro c₁ σ₁ _ hp
  apply Emits.bind fits_final
  apply emits_emitIf
  · intro h
    apply (emits_emitExtendShift false h.1 hwide (by decide) (by decide) (by decide)).mono
    rintro _ c₂ σ₂ - rfl
    apply (emits_convert false desc.dest _).mono
    intro _ c' σ' _ hslot
    refine ⟨σ₁.x 9, hp, ?_⟩
    rw [hslot, if_pos h]
    simp [x_setX, a64X9, a64X10]
  · intro h
    apply (emits_convert false desc.dest _).mono
    intro _ c' σ' _ hslot
    refine ⟨σ₁.x 9, hp, ?_⟩
    rw [hslot, if_neg h]
    rfl

instance appends_emitIntCmpSelect (kind : IntCmpIntrinsic) (is64 : Bool) (args : List LrOperand) :
    Appends (target env true) (emitIntCmpSelect host desc kind is64 args) := by
  unfold emitIntCmpSelect
  split <;> infer_instance

theorem emits_emitIntCmpIntrinsic (kind : IntCmpIntrinsic) (is64 : Bool)
    (hvoid : isVoidType desc.type = false) (h0 : Holds slot (n + 2) c σ op0 a)
    (h1 : Holds slot (n + 2) c σ op1 b) :
    Emits (target env true) (Fits slot) (emitIntCmpIntrinsic host desc kind is64 [op0, op1]) c σ
      fun _ c' σ' => ∃ p q, p.setWidth w₀ = a ∧ q.setWidth w₁ = b ∧ slotValue c' σ' desc.dest =
        atWidth is64 (fun _ a b => if condHolds (intCmpCond kind) (compared is64 p q) then a
          else b) p q := by
  apply Emits.bind fits_final
  apply emits_loadBoth host h0 h1
  intro c₁ σ₁ _ hp hq
  apply emits_insn
  intro c₂
  apply emits_insn
  intro c₃
  apply emits_emitIf
  · intro _
    apply (emits_emitStoreSlot fits_final (by decide) desc.dest).mono
    intro _ c₄ σ₄ _ hslot
    apply Emits.silent rfl
    refine ⟨σ₁.x 9, σ₁.x 10, hp, hq, ?_⟩
    exact hslot.trans (setX_x _ (by decide) _)
  · intro h
    exact absurd hvoid h

instance appends_emitBinary {insn : Bool → Inst} [∀ is64, Plain (insn is64)] :
    Appends (target env true) (emitBinary host desc op0 op1 insn) :=
  Appends.bind

instance appends_emitDivision (isUnsigned isRem : Bool) :
    Appends (target env true) (emitDivision host desc op0 op1 isUnsigned isRem) := by
  change Appends _ (do
    emitLoadOperand host op0 a64X9
    emitLoadOperand host op1 a64X10
    emitIf (isUnsigned = false) do
      emitSignExtendNarrow (is64Type desc.type) op0.type a64X9
      emitSignExtendNarrow (is64Type desc.type) op1.type a64X10
    divideRegs isUnsigned isRem (is64Type desc.type) desc.dest)
  infer_instance

instance appends_emitIcmp (pred : IcmpPred) :
    Appends (target env true) (emitIcmp host desc pred op0 op1) :=
  Appends.bind

instance appends_emitSelect : Appends (target env true) (emitSelect host desc op0 op1 op2) :=
  Appends.bind

instance appends_emitIntCast (bits : Nat) [∀ is64 rd rn rm, Plain (down is64 rd rn rm)] :
    Appends (target env true) (emitIntCast host desc op0 bits down) :=
  Appends.bind

instance appends_emitSitofp : Appends (target env true) (emitSitofp host desc op0) :=
  Appends.bind

instance appends_emitUitofp : Appends (target env true) (emitUitofp host desc op0) :=
  Appends.bind

instance appends_emitIntCmpIntrinsic (kind : IntCmpIntrinsic) (is64 : Bool) :
    Appends (target env true) (emitIntCmpIntrinsic host desc kind is64 [op0, op1]) :=
  Appends.bind

end Host
end Liric.Guarantees.Aarch64Integers
