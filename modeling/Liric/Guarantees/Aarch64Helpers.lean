import Liric.Guarantees.Aarch64Code

/-!
# Constants, addresses and accesses of the aarch64 target

Each of these short sequences does what it is for, whichever instructions it chooses, with
one exception: an address more than 4095 bytes from the stack pointer is added up in a
register form, where number 31 is zero. X15 is the register that the sequences compute
addresses in, so it is neither a base nor a stored value.
-/
namespace Liric.Guarantees.Aarch64Helpers
open Source.Ir (lrModuleCreateTypes)
open Source.Aarch64 Lib Lib.A64 Aarch64Code

abbrev Gpr := { r : Reg // r ≠ 31 }

/-- A general register that is stored. -/
abbrev Stored := { r : Reg // r ≠ 31 ∧ r ≠ 15 }

/-- A general register or SP. -/
abbrev Base := { r : Reg // r ≠ 15 }

abbrev Width := { n : Nat // n = 1 ∨ n = 2 ∨ n = 4 ∨ n = 8 }

inductive Access where
  | addr (rd : Gpr)
  | load (rt : Gpr) (size : Width)
  | store (rt : Stored) (size : Width)
  | fpLoad (ft : Reg) (isDouble : Bool)
  | fpStore (ft : Reg) (isDouble : Bool)
  deriving DecidableEq

inductive Helper where
  | moveImm (rd : Gpr) (imm : BitVec 64) (is64 : Bool)
  | spAdjust (subtract : Bool) (amount : BitVec 32)
  | access (a : Access) (base : Base) (disp : BitVec 32)
  deriving DecidableEq

def fpSize (isDouble : Bool) : Nat := if isDouble then 8 else 4

def Access.emit (base : Base) (disp : BitVec 32) : Access → A64M Unit
  | .addr rd => emitAddr rd base disp
  | .load rt size => emitLoad rt base disp size
  | .store rt size => emitStore rt base disp size
  | .fpLoad ft isDouble => emitFpLoad ft base disp (fpSize isDouble)
  | .fpStore ft isDouble => emitFpStore ft base disp (fpSize isDouble)

def Helper.emit : Helper → A64M Unit
  | .moveImm rd imm is64 => emitMoveImm rd imm is64
  | .spAdjust subtract amount => emitSpAdjust subtract amount.toNat
  | .access a base disp => a.emit base disp

/-- What an access of an address does; nothing but its destination and X15 changes. -/
def Access.Right (address : BitVec 64) (σ σ' : State) : Access → Prop
  | .addr rd => KeepsRegs [rd.val, 15] σ σ' ∧ σ'.mem = σ.mem ∧ σ'.x rd = address
  | .load rt size =>
    KeepsRegs [rt.val, 15] σ σ' ∧ σ'.mem = σ.mem ∧ σ'.x rt = A64.load σ.mem address size
  | .store rt size => KeepsRegs [15] σ σ' ∧ σ'.mem = A64.store σ.mem address size (σ.x rt)
  | .fpLoad ft isDouble =>
    (∀ r ≠ 15, σ'.x r = σ.x r) ∧ σ'.flags = σ.flags ∧ σ'.mem = σ.mem ∧
      σ'.d = Function.update σ.d ft (A64.load σ.mem address (fpSize isDouble))
  | .fpStore ft isDouble =>
    KeepsRegs [15] σ σ' ∧ σ'.mem = A64.store σ.mem address (fpSize isDouble) (σ.d ft)

def Helper.Right (σ σ' : State) : Helper → Prop
  | .moveImm rd imm is64 => σ' = σ.setX rd (if is64 then imm else (imm.setWidth 32).setWidth 64)
  | .spAdjust subtract amount => σ' = σ.setSp a64Sp
    (if subtract then σ.x a64Sp - amount.setWidth 64 else σ.x a64Sp + amount.setWidth 64)
  | .access a base disp => a.Right (σ.x base + disp.signExtend 64) σ σ'

/-- The state behind the instructions that a helper appends. -/
def Helper.after (h : Helper) (env : Env) (c : A64Ctx) (σ : State) : State :=
  execAll env ((h.emit c).2.code.drop c.code.length) σ

/-- An address that is counted from the stack pointer is near it. -/
def Helper.Near : Helper → Prop
  | .access _ base disp => base.val = a64Sp → -4095 ≤ disp.toInt ∧ disp.toInt ≤ 4095
  | _ => True

section Runs
variable {env : Env} {c : A64Ctx} {σ : State} {base : Base} {disp : BitVec 32}

/-- What is emitted does what is known of it. -/
theorem after_of_emits (env : Env) (c : A64Ctx) (σ : State) (h : Helper)
    {Post : Unit → A64Ctx → State → Prop}
    (hemits : Emits (target env false) (fun _ => True) h.emit c σ Post) :
    Post () (h.emit c).2 (h.after env c σ) := hemits.after trivial

theorem final_true : (target env false).Final fun _ => True := fun _ _ _ _ => trivial

theorem emits_emitSpAdjust (subtract : Bool) (amount : Nat) :
    Emits (target env false) (fun _ => True) (emitSpAdjust subtract amount) c σ fun _ _ σ' =>
      σ' = σ.setSp a64Sp (if subtract then σ.x a64Sp - BitVec.ofNat 64 amount
        else σ.x a64Sp + BitVec.ofNat 64 amount) := by
  induction amount using emitSpAdjust.induct generalizing c σ with
  | case1 amount hpos chunk =>
    rename_i ih
    rw [emitSpAdjust, dif_pos hpos]
    have hchunk : chunk ≤ 4095 ∧ chunk ≤ amount := by
      simp only [chunk]
      split <;> omega
    have himm : ((BitVec.ofNat 32 chunk).setWidth 12).setWidth 64 = BitVec.ofNat 64 chunk := by
      apply BitVec.eq_of_toNat_eq
      simp only [BitVec.toNat_setWidth, BitVec.toNat_ofNat]
      omega
    have hsum : BitVec.ofNat 64 amount =
        BitVec.ofNat 64 chunk + BitVec.ofNat 64 (amount - chunk) := by
      rw [← BitVec.ofNat_add, Nat.add_sub_cancel' hchunk.2]
    apply Emits.seq final_true (emits_emitU32 _)
    rintro _ c₁ σ₁ - ⟨-, hσ₁⟩
    change σ₁ = exec env ((if subtract then encSubImm else encAddImm) true a64Sp a64Sp
      (BitVec.ofNat 32 chunk)) σ at hσ₁
    apply ih.mono
    rintro _ c' σ' - rfl
    rw [hσ₁, hsum]
    cases subtract with
    | true =>
      simp only [if_true, encSubImm, exec, himm]
      simp [State.setSp, State.getSp, atWidth, addSub, sub_sub]
    | false =>
      simp only [Bool.false_eq_true, if_false, encAddImm, exec, himm]
      simp [State.setSp, State.getSp, atWidth, addSub, BitVec.add_assoc]
  | case2 amount hzero =>
    rw [emitSpAdjust, dif_neg hzero]
    apply Emits.pure
    obtain rfl : amount = 0 := by omega
    simp [State.setSp]

theorem accessSize_width (size : Width) : accessSize size = size := by
  obtain ⟨n, rfl | rfl | rfl | rfl⟩ := size <;> rfl

theorem fpAccessSize_fpSize (isDouble : Bool) : fpAccessSize (fpSize isDouble) = fpSize isDouble := by
  cases isDouble <;> rfl

/-- Every access is right for the address it counts out. -/
theorem access_right (env : Env) (c : A64Ctx) (σ : State) (base : Base) (disp : BitVec 32)
    (a : Access) :
    a.Right (based σ base disp + disp.signExtend 64) σ
      ((Helper.access a base disp).after env c σ) := by
  cases a with
  | addr rd =>
    exact (after_of_emits env c σ (.access (.addr rd) base disp)
      (emits_emitAddr final_true rd.2 disp base.2)).2
  | load rt size =>
    have h := after_of_emits env c σ (.access (.load rt size) base disp)
      (emits_emitLoad final_true rt.2 disp size base.2)
    rw [accessSize_width] at h
    exact h.2
  | store rt size =>
    have h := after_of_emits env c σ (.access (.store rt size) base disp)
      (emits_emitStore final_true rt.2 disp size base.2)
    rw [accessSize_width] at h
    exact h.2
  | fpLoad ft isDouble =>
    obtain ⟨-, τ, rn, imm, hkeep, hmem, haddr, hσ⟩ :=
      after_of_emits env c σ (.access (.fpLoad ft isDouble) base disp)
        (emits_emitAccess final_true (encFpLdur (fpSize isDouble) ft) disp base.2)
    rw [hσ, encFpLdur, exec, State.getSp, haddr, hmem, fpAccessSize_fpSize]
    refine ⟨fun r hr => hkeep.x r (by simpa using hr), hkeep.flags, hmem, ?_⟩
    rw [State.setD, hkeep.d]
  | fpStore ft isDouble =>
    have h := after_of_emits env c σ (.access (.fpStore ft isDouble) base disp)
      (emits_emitFpStore final_true disp (fpSize isDouble) base.2)
    rw [fpAccessSize_fpSize] at h
    exact h.2

/-- Registers of zero but for SP, and memory of zero but for one byte. -/
def farState (a : BitVec 64) : State where
  x r := if r = 31 then 8 else 0
  d _ := 0
  flags := ⟨false, false, false, false⟩
  mem b := if b = a then 1 else 0

theorem load_low (mem : Mem) (a : BitVec 64) {n : Nat} (hn : 0 < n) :
    (A64.load mem a n).getLsbD 0 = (mem a).getLsbD 0 := by
  rw [getLsbD_load]
  simp [hn]

theorem load_far (a : BitVec 64) {n : Nat} (hn : 0 < n) :
    A64.load (farState a).mem a n ≠ A64.load (farState a).mem (a + 8) n := by
  intro h
  have hlow : (farState a).mem a = (farState a).mem (a + 8) := by
    have hbit : ∀ b, (A64.load (farState a).mem b n).getLsbD 0 = decide (b = a) := by
      intro b
      rw [load_low _ _ hn, farState]
      by_cases hb : b = a <;> simp [hb]
    have := hbit a
    rw [h, hbit] at this
    simp at this
  simp [farState] at hlow

theorem store_far (a : BitVec 64) {n : Nat} (hn : 0 < n) (hle : n ≤ 8) :
    A64.store (farState a).mem a n 0 ≠ A64.store (farState a).mem (a + 8) n 0 := by
  intro h
  have hat := congrFun h a
  have hfar : ¬ (a - (a + 8)).toNat < n := by
    bv_omega
  have hzero : (a - a).toNat = 0 := by simp
  rw [A64.store, A64.store, if_neg hfar, hzero, if_pos hn] at hat
  simp [farState] at hat

theorem width_bounds (size : Width) : 0 < size.val ∧ size.val ≤ 8 := by
  obtain ⟨n, rfl | rfl | rfl | rfl⟩ := size <;> decide

theorem fpSize_bounds (isDouble : Bool) : 0 < fpSize isDouble ∧ fpSize isDouble ≤ 8 := by
  cases isDouble <;> decide

/-- No access is right for two addresses. -/
theorem not_right_twice {a : Access} {at₁ : BitVec 64} {σ' : State}
    (h : a.Right at₁ (farState at₁) σ') : ¬ a.Right (at₁ + 8) (farState at₁) σ' := by
  intro h'
  cases a with
  | addr rd => simpa using h.2.2.symm.trans h'.2.2
  | load rt size => exact load_far _ (width_bounds size).1 (h.2.2.symm.trans h'.2.2)
  | store rt size =>
    have hzero : (farState at₁).x rt = 0 := if_neg rt.2.1
    have hsame := h.2.symm.trans h'.2
    rw [hzero] at hsame
    exact store_far _ (width_bounds size).1 (width_bounds size).2 hsame
  | fpLoad ft isDouble =>
    have hsame := congrFun (h.2.2.2.symm.trans h'.2.2.2) ft
    simp only [Function.update_self] at hsame
    exact load_far _ (fpSize_bounds isDouble).1 hsame
  | fpStore ft isDouble =>
    exact store_far _ (fpSize_bounds isDouble).1 (fpSize_bounds isDouble).2 (h.2.symm.trans h'.2)

def zeroEnv : Env := ⟨fun _ _ => 0, fun _ σ => σ.flags⟩

def emptyCtx : A64Ctx where
  mod := { builtin := lrModuleCreateTypes 0, nextAddr := 11 }
  retType := .scalar 0 .void

theorem right_iff_near (h : Helper) : (∀ env c σ, h.Right σ (h.after env c σ)) ↔ h.Near := by
  cases h with
  | moveImm rd imm is64 =>
    refine ⟨fun _ => trivial, fun _ env c σ => ?_⟩
    exact (after_of_emits env c σ (.moveImm rd imm is64)
      (emits_emitMoveImm final_true rd.2 imm is64)).2
  | spAdjust subtract amount =>
    refine ⟨fun _ => trivial, fun _ env c σ => ?_⟩
    have hrun := after_of_emits env c σ (.spAdjust subtract amount)
      (emits_emitSpAdjust subtract amount.toNat)
    rwa [BitVec.ofNat_toNat] at hrun
  | access a base disp =>
    constructor
    · intro h hsp
      by_contra hfar
      have hbased : based (farState (disp.signExtend 64)) base disp = 0 := by
        rw [based, if_neg hfar, hsp]
        rfl
      have hreal := access_right zeroEnv emptyCtx (farState (disp.signExtend 64)) base disp a
      rw [hbased, zero_add] at hreal
      have hspec := h zeroEnv emptyCtx (farState (disp.signExtend 64))
      have hbase : (farState (disp.signExtend 64)).x base = 8 := if_pos hsp
      rw [Helper.Right, hbase, BitVec.add_comm] at hspec
      exact not_right_twice hreal hspec
    · intro hnear env c σ
      have hbased : based σ base disp = σ.x base := by
        apply based_of
        by_cases hsp : base.val = 31
        · exact Or.inr (hnear hsp)
        · exact Or.inl hsp
      have hright := access_right env c σ base disp a
      rwa [hbased] at hright

end Runs

/-- The word 4096 bytes above the stack pointer is not the one that is loaded. -/
theorem load_far_from_sp :
    ¬ (Helper.access (.load ⟨9, by decide⟩ ⟨8, by decide⟩) ⟨a64Sp, by decide⟩ 4096).Right
      (farState 4096) ((Helper.access (.load ⟨9, by decide⟩ ⟨8, by decide⟩)
        ⟨a64Sp, by decide⟩ 4096).after zeroEnv emptyCtx (farState 4096)) := by
  rintro ⟨-, -, h⟩
  revert h
  decide +kernel

end Liric.Guarantees.Aarch64Helpers
