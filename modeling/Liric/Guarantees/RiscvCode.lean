import Liric.Guarantees.RiscvMachine
import Liric.Lib.SequentialMoves
import Liric.Lib.StateTriple

/-!
# The code of RISC-V instructions

What each function of the target appends to the code: the sequences for operands, for
the arguments of a call, and for the other instructions, with the registers they write.
Registers that have been given to values and that a callee saves are never written again.
-/
namespace Liric.Guarantees.RiscvCode
open Source.Ir Source.Riscv64 List Function
open Source.Ll (floatOfDouble)
open Source.Object (lrObjEnsureSymbol)
open RiscvMachine Lib

variable {a : Unit} {p : Prop} {xs ld code : List RvInst} {inst : RvInst} {rd iarg r farg : Reg}
  {l : Loc} {c' : RvDirectCtx} {remap : CStr → CStr}

def withCode (c : RvDirectCtx) (code : List RvInst) : RvDirectCtx :=
  { c with code := c.code ++ code }

theorem withCode_withCode (c : RvDirectCtx) (xs ys : List RvInst) :
    withCode (withCode c xs) ys = withCode c (xs ++ ys) := by
  simp [withCode]

theorem withCode_nil (c : RvDirectCtx) : withCode c [] = c := by
  simp [withCode]

/-- `x` appends instructions of which `Q` says what they are. -/
def Appends {α : Type} (c₀ : RvDirectCtx) (x : RvM α) (Q : α → List RvInst → Prop) : Prop :=
  ∀ code, Partial (fun c => c = withCode c₀ code) x fun a c =>
    ∃ more, c = withCode c₀ (code ++ more) ∧ Q a more

section Rules
variable {α β : Type} {c₀ : RvDirectCtx}

theorem Appends.pure {a : α} {Q : α → List RvInst → Prop} (h : Q a []) :
    Appends c₀ (Pure.pure a) Q := by
  intro code
  refine Partial.pure fun c hc => ⟨[], ?_, h⟩
  rw [hc, append_nil]

theorem Appends.bind {x : RvM α} {f : α → RvM β} {Q : α → List RvInst → Prop}
    {R : β → List RvInst → Prop} (hx : Appends c₀ x Q)
    (hf : ∀ a more, Q a more → Appends c₀ (f a) fun b code => R b (more ++ code)) :
    Appends c₀ (x >>= f) R := by
  intro code s b s' hs hrun
  obtain ⟨a, t, hfirst, hrest⟩ := run_bind_inv hrun
  obtain ⟨more, ht, hq⟩ := hx code s a t hs hfirst
  obtain ⟨more', hs', hr⟩ := hf a more hq (code ++ more) t b s' ht hrest
  exact ⟨more ++ more', by rw [hs', append_assoc], hr⟩

theorem Appends.weaken {x : RvM α} {Q Q' : α → List RvInst → Prop} (h : Appends c₀ x Q)
    (hq : ∀ a code, Q a code → Q' a code) : Appends c₀ x Q' := by
  intro code s a s' hs hrun
  obtain ⟨more, hmore, hqa⟩ := h code s a s' hs hrun
  exact ⟨more, hmore, hq a more hqa⟩

theorem Appends.ite [Decidable p] {x y : RvM α} {Q : α → List RvInst → Prop}
    (hx : p → Appends c₀ x Q) (hy : ¬ p → Appends c₀ y Q) :
    Appends c₀ (if p then x else y) Q := by
  by_cases h : p
  · rw [if_pos h]
    exact hx h
  · rw [if_neg h]
    exact hy h

theorem appends_refuse {Q : α → List RvInst → Prop} : Appends c₀ (refuse : RvM α) Q := by
  intro code s a s' _ hrun
  cases hrun

theorem appends_require [Decidable p] :
    Appends c₀ (require p) fun _ code => p ∧ code = [] :=
  Appends.ite (fun h => Appends.pure ⟨h, rfl⟩) fun _ => appends_refuse

theorem appends_emit (insn : RvInst) :
    Appends c₀ (rvEmit32 insn) fun _ code => code = [insn] := by
  intro code s a s' hs hrun
  unfold rvEmit32 at hrun
  obtain ⟨-, hrun⟩ := Option.ite_none_left_eq_some.1 hrun
  cases hrun
  exact ⟨[insn], by rw [hs]; exact withCode_withCode c₀ code [insn], rfl⟩

/-- Reading what emission does not change. -/
theorem appends_read {γ : Type} (read : RvDirectCtx → γ)
    (h : ∀ c code, read (withCode c code) = read c) {f : γ → RvM β}
    {R : β → List RvInst → Prop} (hf : Appends c₀ (f (read c₀)) R) :
    Appends c₀ (MonadState.get >>= fun c => f (read c)) R := by
  intro code s b s' hs hrun
  obtain ⟨a, t, hfirst, hrest⟩ := run_bind_inv hrun
  cases hfirst
  rw [hs, h] at hrest
  exact hf code _ b s' rfl hrest

/-- Two steps without a result. -/
theorem Appends.seq {x : RvM Unit} {y : RvM α} {Q : α → List RvInst → Prop}
    (hx : Appends c₀ x fun _ code => code = xs) (hy : Appends c₀ y fun a code => Q a (xs ++ code)) :
    Appends c₀ (x >>= fun _ => y) Q :=
  Appends.bind hx fun _ more hmore => by rw [hmore]; exact hy

/-- The code of a branch is the branch of the code. -/
theorem Appends.ite_code [Decidable p] {x y : RvM Unit} {ys : List RvInst}
    (hx : Appends c₀ x fun _ code => code = xs) (hy : ¬ p → Appends c₀ y fun _ code => code = ys) :
    Appends c₀ (if p then x else y) fun _ code => code = if p then xs else ys := by
  refine Appends.ite (fun h => ?_) fun h => ?_
  · rw [if_pos h]
    exact hx
  · rw [if_neg h]
    exact hy h

end Rules

section Operands
variable {c₀ : RvDirectCtx}

theorem appends_li32 (rd : Reg) (imm : BitVec 32) :
    Appends c₀ (rvEmitLi32 rd imm) fun _ code => code = li32Code rd imm := by
  unfold rvEmitLi32 li32Code
  refine Appends.ite_code (appends_emit _) fun _ => Appends.seq (appends_emit _)
    ((appends_emit _).weaken fun _ code hcode => ?_)
  rw [hcode]
  rfl

theorem appends_li64 (rd scratch : Reg) (imm : BitVec 64) :
    Appends c₀ (rvEmitLi64 rd scratch imm) fun _ code => code = li64Code rd scratch imm := by
  unfold rvEmitLi64 li64Code
  refine Appends.ite_code (appends_li32 _ _) fun _ =>
    Appends.bind appends_require fun _ more hmore => ?_
  rw [hmore.2]
  refine Appends.seq (appends_li32 _ _) (Appends.seq (appends_emit _)
    (Appends.seq (appends_li32 _ _) (Appends.seq (appends_emit _)
      (Appends.seq (appends_emit _) ((appends_emit _).weaken fun _ code hcode => ?_)))))
  rw [hcode]
  simp [shiftInst]

/-- A move unless the value is there. -/
def gprMoveCode (rd rs : Reg) : List RvInst := if rs ≠ rd then [mvInst rd rs] else []

def fprMoveCode (rd rs : Reg) (isDouble : Bool) : List RvInst :=
  if rs ≠ rd then [rvEncR (if isDouble then 0x11 else 0x10) rs rs 0 rd rvOpcodeOpfp] else []

theorem appends_moveGpr (rd rs : Reg) :
    Appends c₀ (moveGpr rd rs) fun _ code => code = gprMoveCode rd rs :=
  Appends.ite_code (appends_emit _) fun _ => Appends.pure rfl

theorem appends_moveFpr (rd rs : Reg) (isDouble : Bool) :
    Appends c₀ (moveFpr rd rs isDouble) fun _ code => code = fprMoveCode rd rs isDouble :=
  Appends.ite_code (appends_emit _) fun _ => Appends.pure rfl

/-- The code that puts an integer operand into a register. -/
inductive GprLoad (vmap : List (Nat × RvVregMap)) (op : LrOperand) (scratch1 scratch2 : Reg) :
    Reg → List RvInst → Prop
  | vreg {v : Nat} {r : Reg} (hop : op.value = .vreg v) (hmap : vmap.lookup v = some ⟨.gpr, r⟩) :
      GprLoad vmap op scratch1 scratch2 r []
  | imm {imm : BitVec 64} (hop : op.value = .immI64 imm) :
      GprLoad vmap op scratch1 scratch2 scratch1 (li64Code scratch1 scratch2 imm)

theorem appends_mappedReg (cls : RegClass) (v : Nat) :
    Appends c₀ (mappedReg cls v) fun r code =>
      c₀.vmap.lookup v = some ⟨cls, r⟩ ∧ code = [] := by
  intro code s r s' hs hrun
  unfold mappedReg at hrun
  split at hrun
  · next m hm =>
    split at hrun
    · next hcls =>
      cases hrun
      refine ⟨[], by rw [hs, append_nil], ?_, rfl⟩
      rw [hs] at hm
      rw [← hcls]
      exact hm
    · cases hrun
  · cases hrun

theorem appends_operandGpr (op : LrOperand) (scratch1 scratch2 : Reg) :
    Appends c₀ (rvOperandGpr op scratch1 scratch2) fun r code =>
      GprLoad c₀.vmap op scratch1 scratch2 r code := by
  unfold rvOperandGpr
  cases hop : op.value with
  | vreg v =>
    exact (appends_mappedReg .gpr v).weaken fun r code h => by
      rw [h.2]
      exact .vreg hop h.1
  | immI64 imm =>
    exact Appends.seq (appends_li64 _ _ _) (Appends.pure (by rw [append_nil]; exact .imm hop))
  | _ => exact appends_refuse

/-- The bits that a floating point constant is loaded from, and the move. -/
def fpImmCode (gprS1 gprS2 fprS : Reg) (isDouble : Bool) (bits : BitVec 64) : List RvInst :=
  if isDouble then li64Code gprS1 gprS2 bits ++ [rvEncR 0x79 0 gprS1 0 fprS rvOpcodeOpfp]
  else li64Code gprS1 gprS2 ((floatOfDouble bits).signExtend 64) ++
    [rvEncR 0x78 0 gprS1 0 fprS rvOpcodeOpfp]

inductive FprLoad (vmap : List (Nat × RvVregMap)) (op : LrOperand) (gprS1 gprS2 fprS : Reg) :
    Reg → List RvInst → Prop
  | vreg {v : Nat} {r : Reg} (hop : op.value = .vreg v) (hmap : vmap.lookup v = some ⟨.fpr, r⟩) :
      FprLoad vmap op gprS1 gprS2 fprS r []
  | imm {bits : BitVec 64} (hop : op.value = .immF64 bits) :
      FprLoad vmap op gprS1 gprS2 fprS fprS
        (fpImmCode gprS1 gprS2 fprS (isDouble op.type) bits)

theorem isDouble_of_isFloat {type : Option LrType} (h : isFloat type = true) :
    isDouble type = false := by
  unfold isFloat at h
  split at h
  · rfl
  · cases h

theorem appends_operandFpr (op : LrOperand) (gprS1 gprS2 fprS : Reg) :
    Appends c₀ (rvOperandFpr op gprS1 gprS2 fprS) fun r code =>
      FprLoad c₀.vmap op gprS1 gprS2 fprS r code := by
  unfold rvOperandFpr
  refine appends_read (fun c => c.feat) (fun _ _ => rfl)
    (f := fun feat => require (feat.extF = true) >>= fun _ => _) ?_
  refine Appends.bind appends_require fun _ more hmore => ?_
  rw [hmore.2]
  simp only [nil_append]
  cases hop : op.value with
  | vreg v =>
    exact (appends_mappedReg .fpr v).weaken fun r code h => by
      rw [h.2]
      exact .vreg hop h.1
  | immF64 bits =>
    have h : FprLoad c₀.vmap op gprS1 gprS2 fprS fprS
      (fpImmCode gprS1 gprS2 fprS (isDouble op.type) bits) := .imm hop
    refine Appends.ite (fun hfloat => ?_) fun _ => Appends.ite (fun hdouble => ?_) fun _ =>
      appends_refuse
    · refine Appends.seq (appends_li64 _ _ _) (Appends.seq (appends_emit _) (Appends.pure ?_))
      rw [isDouble_of_isFloat hfloat] at h
      rw [append_nil]
      exact h
    · refine appends_read (fun c => c.feat) (fun _ _ => rfl)
        (f := fun feat => require (feat.extD = true) >>= fun _ => _) ?_
      refine Appends.bind appends_require fun _ more hmore => ?_
      rw [hmore.2]
      refine Appends.seq (appends_li64 _ _ _) (Appends.seq (appends_emit _) (Appends.pure ?_))
      rw [hdouble] at h
      rw [append_nil]
      exact h
  | _ => exact appends_refuse

end Operands

def homeLoc (m : RvVregMap) : Loc :=
  match m.cls with
  | .gpr => .x m.reg
  | .fpr => .f m.reg

/-- The register that a value lives in. -/
def homeOf (vmap : List (Nat × RvVregMap)) (v : Nat) : Loc :=
  ((vmap.lookup v).map homeLoc).getD (.x 0)

/-- Registers that values live in: no link, stack or scratch register. -/
def Home : Loc → Prop
  | .x reg => 10 ≤ reg
  | .f _ => True

instance : DecidablePred Home
  | .x reg => inferInstanceAs (Decidable (10 ≤ reg))
  | .f _ => inferInstanceAs (Decidable True)

def HomesOk (vmap : List (Nat × RvVregMap)) : Prop :=
  ∀ v m, vmap.lookup v = some m → Home (homeLoc m)

/-- The arguments and where the convention wants them. -/
def argPlaces : Reg → Reg → List LrOperand → List (LrOperand × Loc)
  | _, _, [] => []
  | iarg, farg, op :: rest =>
    if rvTypeIsFp op.type then (op, .f farg) :: argPlaces iarg (farg + 1) rest
    else (op, .x iarg) :: argPlaces (iarg + 1) farg rest

/-- What a value of the type becomes when it is moved. -/
def convOf (type : Option LrType) : BitVec 64 → BitVec 64 :=
  if rvTypeIsFp type then moveFp (isDouble type) else id

/-- The value of an operand: what its register holds, or the constant. -/
def operandValue (vmap : List (Nat × RvVregMap)) (σ : RvState) (op : LrOperand) : BitVec 64 :=
  match op.value with
  | .vreg v => σ (homeOf vmap v)
  | .immI64 imm => imm
  | .immF64 bits => if isDouble op.type then bits else boxSingle (floatOfDouble bits)
  | _ => 0

/-- The move of an argument, if constants are loaded by `load`. -/
def argMove (load : BitVec 64 → BitVec 64) (vmap : List (Nat × RvVregMap))
    (p : LrOperand × Loc) : SeqMove Loc (BitVec 64) where
  dst := p.2
  src :=
    match p.1.value with
    | .vreg v => .inl (homeOf vmap v)
    | .immI64 imm => .inr (load imm)
    | .immF64 bits =>
      .inr (if isDouble p.1.type then load bits else boxSingle (floatOfDouble bits))
    | _ => .inr 0
  conv := convOf p.1.type
  via := if rvTypeIsFp p.1.type then some (.f rvFt0) else none

/-- Instructions that leave alone what a callee saves, but for s1. -/
def Sparing (code : List RvInst) : Prop :=
  ∀ inst ∈ code, RvInst.isCall inst = false ∧
    ∀ l, calleeSaved l = true → l ≠ .x rvS1 → instDest inst ≠ some l

theorem Sparing.append {ys : List RvInst} (h : Sparing xs) (h' : Sparing ys) :
    Sparing (xs ++ ys) := by
  intro inst hinst
  obtain hinst | hinst := mem_append.1 hinst
  · exact h inst hinst
  · exact h' inst hinst

theorem sparing_nil : Sparing [] := fun _ h => absurd h not_mem_nil

/-- One instruction that writes a register of which nobody saves the content. -/
theorem sparing_single (hcall : RvInst.isCall inst = false)
    (h : ∀ l, instDest inst = some l → calleeSaved l = false ∨ l = .x rvS1) : Sparing [inst] := by
  intro i hi
  obtain rfl := mem_singleton.1 hi
  refine ⟨hcall, fun l hsaved hs1 hdest => ?_⟩
  obtain hno | heq := h l hdest
  · rw [hsaved] at hno
    cases hno
  · exact hs1 heq

theorem sparing_dest (hcall : RvInst.isCall inst = false) (hdest : instDest inst = some l)
    (h : calleeSaved l = false) : Sparing [inst] := by
  refine sparing_single hcall fun k hk => .inl ?_
  rw [← Option.some.inj (hdest.symm.trans hk)]
  exact h

theorem sparing_li32 (h : calleeSaved (.x rd) = false) (imm : BitVec 32) :
    Sparing (li32Code rd imm) := by
  unfold li32Code
  split
  · exact sparing_dest rfl rfl h
  · exact (sparing_dest rfl rfl h).append (sparing_dest rfl rfl h)

theorem sparing_li64 {scratch : Reg} (h : calleeSaved (.x rd) = false)
    (h' : calleeSaved (.x scratch) = false) (imm : BitVec 64) :
    Sparing (li64Code rd scratch imm) := by
  unfold li64Code
  split
  · exact sparing_li32 h _
  · exact (((sparing_li32 h _).append (sparing_dest rfl rfl h)).append (sparing_li32 h' _)).append
      ((sparing_dest rfl rfl h').append ((sparing_dest rfl rfl h').append
        (sparing_dest rfl rfl h)))

theorem sparing_fpImm {fprS : Reg} (h : calleeSaved (.f fprS) = false) (isDouble : Bool)
    (bits : BitVec 64) : Sparing (fpImmCode rvT1 rvT2 fprS isDouble bits) := by
  unfold fpImmCode
  split
  · exact (sparing_li64 rfl rfl _).append (sparing_dest rfl rfl h)
  · exact (sparing_li64 rfl rfl _).append (sparing_dest rfl rfl h)

theorem sparing_gprMove (h : calleeSaved (.x rd) = false) : Sparing (gprMoveCode rd r) := by
  unfold gprMoveCode
  split
  · exact sparing_dest rfl rfl h
  · exact sparing_nil

theorem sparing_fprMove (h : calleeSaved (.f rd) = false) (isDouble : Bool) :
    Sparing (fprMoveCode rd r isDouble) := by
  unfold fprMoveCode
  split
  · exact sparing_dest rfl (by cases isDouble <;> rfl) h
  · exact sparing_nil

theorem sparing_gprLoad {vmap : List (Nat × RvVregMap)} {op : LrOperand} {s1 s2 : Reg}
    (h : GprLoad vmap op s1 s2 r code) (h1 : calleeSaved (.x s1) = false)
    (h2 : calleeSaved (.x s2) = false) : Sparing code := by
  cases h with
  | vreg _ _ => exact sparing_nil
  | imm _ => exact sparing_li64 h1 h2 _

theorem sparing_fprLoad {vmap : List (Nat × RvVregMap)} {op : LrOperand} {fprS : Reg}
    (h : FprLoad vmap op rvT1 rvT2 fprS r code) (hf : calleeSaved (.f fprS) = false) :
    Sparing code := by
  cases h with
  | vreg _ _ => exact sparing_nil
  | imm _ => exact sparing_fpImm hf _ _

section ArgumentCode
variable {arith : RvArith} {σ : RvState} {vmap : List (Nat × RvVregMap)} {op : LrOperand}

theorem homeOf_of_lookup {v : Nat} {m : RvVregMap} (h : vmap.lookup v = some m) :
    homeOf vmap v = homeLoc m := by
  rw [homeOf, h]
  rfl

theorem li64Value_low (imm : BitVec 64) : (li64Value imm).setWidth 32 = imm.setWidth 32 := by
  unfold li64Value
  split
  · apply BitVec.eq_of_toNat_eq
    rw [BitVec.toNat_setWidth, li32Value_low]
  · rfl

/-- A floating point constant in its register. -/
def fpImmValue (isDouble : Bool) (bits : BitVec 64) : BitVec 64 :=
  if isDouble then li64Value bits else boxSingle (floatOfDouble bits)

theorem execInst_fmvD (fd rs : Reg) (hrs : rs ≠ 0) :
    execInst arith (rvEncR 0x79 0 rs 0 fd rvOpcodeOpfp) σ =
      update σ (.f fd) (σ (.x rs)) := by
  have hexec : execInst arith (rvEncR 0x79 0 rs 0 fd rvOpcodeOpfp) σ =
      update σ (.f fd) (getX σ rs) := rfl
  rw [hexec, getX_of_ne hrs]

theorem execInst_fmvW (fd rs : Reg) (hrs : rs ≠ 0) :
    execInst arith (rvEncR 0x78 0 rs 0 fd rvOpcodeOpfp) σ =
      update σ (.f fd) (boxSingle ((σ (.x rs)).setWidth 32)) := by
  have hexec : execInst arith (rvEncR 0x78 0 rs 0 fd rvOpcodeOpfp) σ =
      update σ (.f fd) (boxSingle ((getX σ rs).setWidth 32)) := rfl
  rw [hexec, getX_of_ne hrs]

theorem execInst_fpMove (rd rs : Reg) (isDouble : Bool) :
    execInst arith (rvEncR (if isDouble then 0x11 else 0x10) rs rs 0 rd rvOpcodeOpfp) σ =
      update σ (.f rd) (moveFp isDouble (σ (.f rs))) := by
  cases isDouble with
  | true =>
    change update σ (.f rd) (if (_ ∨ _) ∧ _ ∧ rs = rs then _ else _) = _
    rw [if_pos ⟨.inr rfl, rfl, rfl⟩]
    rfl
  | false =>
    change update σ (.f rd) (if (_ ∨ _) ∧ _ ∧ rs = rs then _ else _) = _
    rw [if_pos ⟨.inl rfl, rfl, rfl⟩]
    rfl

variable (arith σ) in
theorem execAll_fpImm (fprS : Reg) (isDouble : Bool) (bits : BitVec 64) :
    execAll arith (fpImmCode rvT1 rvT2 fprS isDouble bits) σ (.f fprS) =
        fpImmValue isDouble bits ∧
      ∀ l, l ≠ .x rvT1 → l ≠ .x rvT2 → l ≠ .f fprS →
        execAll arith (fpImmCode rvT1 rvT2 fprS isDouble bits) σ l = σ l := by
  cases isDouble with
  | true =>
    obtain ⟨hvalue, hothers⟩ := execAll_li64 arith σ bits
      (show rvT1 ≠ 0 by decide) (show rvT2 ≠ 0 by decide) (by decide)
    have hcode : fpImmCode rvT1 rvT2 fprS true bits =
        li64Code rvT1 rvT2 bits ++ [rvEncR 0x79 0 rvT1 0 fprS rvOpcodeOpfp] := rfl
    rw [hcode, execAll_append, execAll, execAll, execInst_fmvD _ _ (by decide), hvalue]
    exact ⟨update_self _ _ _, fun l h1 h2 hf =>
      (update_of_ne hf _ _).trans (hothers l h1 h2)⟩
  | false =>
    obtain ⟨hvalue, hothers⟩ := execAll_li64 arith σ
      ((floatOfDouble bits).signExtend 64) (show rvT1 ≠ 0 by decide) (show rvT2 ≠ 0 by decide)
      (by decide)
    have hcode : fpImmCode rvT1 rvT2 fprS false bits =
        li64Code rvT1 rvT2 ((floatOfDouble bits).signExtend 64) ++
          [rvEncR 0x78 0 rvT1 0 fprS rvOpcodeOpfp] := rfl
    have hlow : ((floatOfDouble bits).signExtend 64).setWidth 32 = floatOfDouble bits := by
      ext i hi
      simp only [BitVec.getElem_setWidth, BitVec.getLsbD_signExtend, hi, if_true]
      simp [show i < 64 by omega, BitVec.getLsbD_eq_getElem hi]
    rw [hcode, execAll_append, execAll, execAll, execInst_fmvW _ _ (by decide), hvalue,
      li64Value_low, hlow]
    exact ⟨update_self _ _ _, fun l h1 h2 hf =>
      (update_of_ne hf _ _).trans (hothers l h1 h2)⟩

theorem Home.ne_scratch (h : Home l) :
    l ≠ .x rvT0 ∧ l ≠ .x rvT1 ∧ l ≠ .x rvT2 := by
  refine ⟨?_, ?_, ?_⟩ <;> rintro rfl <;> exact absurd h (by decide)

/-- An integer argument: the code does what the move says. -/
theorem execAll_gprArg (hhomes : HomesOk vmap) (hload : GprLoad vmap op rvT1 rvT0 r ld)
    (hty : rvTypeIsFp op.type = false) (hiarg : 10 ≤ iarg) (hl : Home l) :
    execAll arith (ld ++ gprMoveCode iarg r) σ l =
      (argMove li64Value vmap (op, .x iarg)).run σ l := by
  have hzero : iarg ≠ 0 := by
    rintro rfl
    exact absurd hiarg (by decide)
  have hconv : convOf op.type = id := by rw [convOf, hty]; rfl
  cases hload with
  | @vreg v r hop hmap =>
    have hr : Home (.x r) := hhomes v _ hmap
    have hrzero : r ≠ 0 := by
      rintro rfl
      exact absurd hr (by decide)
    have hhome : homeOf vmap v = .x r := homeOf_of_lookup hmap
    have hwrites : (argMove li64Value vmap (op, .x iarg)).writes σ =
        if Loc.x r = .x iarg then [] else [(.x iarg, σ (.x r))] := by
      simp only [SeqMove.writes, argMove, hop, hhome, hconv, id]
    rw [nil_append, gprMoveCode, SeqMove.run, hwrites]
    by_cases heq : r = iarg
    · rw [if_neg (not_not.2 heq), if_pos (congrArg Loc.x heq)]
      rfl
    · rw [if_pos heq, if_neg fun h => heq (Loc.x.inj h), execAll, execAll,
        execInst_mv r hzero hrzero]
      rfl
  | @imm imm hop =>
    obtain ⟨-, ht1, -⟩ := hl.ne_scratch
    have hne : rvT1 ≠ iarg := by
      rintro rfl
      exact absurd hiarg (by decide)
    have hwrites : (argMove li64Value vmap (op, .x iarg)).writes σ =
        [(.x iarg, li64Value imm)] := by
      simp only [SeqMove.writes, argMove, hop, hconv, hty]
      rfl
    obtain ⟨hvalue, hothers⟩ := execAll_li64 arith σ imm
      (show rvT1 ≠ 0 by decide) (show rvT0 ≠ 0 by decide) (by decide)
    have hrun : (argMove li64Value vmap (op, .x iarg)).run σ =
        update σ (.x iarg) (li64Value imm) := by
      rw [SeqMove.run, hwrites]
      rfl
    rw [gprMoveCode, if_pos hne, execAll_append, execAll, execAll, execInst_mv rvT1 hzero (by decide),
      hvalue, hrun]
    by_cases heq : l = .x iarg
    · rw [heq, update_self, update_self]
    · rw [update_of_ne heq, update_of_ne heq]
      exact hothers l ht1 hl.ne_scratch.1

/-- A floating point argument. -/
theorem execAll_fprArg (hload : FprLoad vmap op rvT1 rvT2 rvFt0 r ld)
    (hty : rvTypeIsFp op.type = true) (hfarg : 10 ≤ farg) (hl : Home l) :
    execAll arith (ld ++ fprMoveCode farg r (isDouble op.type)) σ l =
      (argMove li64Value vmap (op, .f farg)).run σ l := by
  have hconv : convOf op.type = moveFp (isDouble op.type) := by rw [convOf, hty]; rfl
  cases hload with
  | @vreg v r hop hmap =>
    have hhome : homeOf vmap v = .f r := homeOf_of_lookup hmap
    have hwrites : (argMove li64Value vmap (op, .f farg)).writes σ =
        if Loc.f r = .f farg then [] else [(.f farg, moveFp (isDouble op.type) (σ (.f r)))] := by
      simp only [SeqMove.writes, argMove, hop, hhome, hconv]
    rw [nil_append, fprMoveCode, SeqMove.run, hwrites]
    by_cases heq : r = farg
    · rw [if_neg (not_not.2 heq), if_pos (congrArg Loc.f heq)]
      rfl
    · rw [if_pos heq, if_neg fun h => heq (Loc.f.inj h), execAll, execAll, execInst_fpMove]
      rfl
  | @imm bits hop =>
    obtain ⟨-, ht1, ht2⟩ := hl.ne_scratch
    have hne : rvFt0 ≠ farg := by
      rintro rfl
      exact absurd hfarg (by decide)
    have hwrites : (argMove li64Value vmap (op, .f farg)).writes σ =
        [(.f rvFt0, fpImmValue (isDouble op.type) bits),
          (.f farg, moveFp (isDouble op.type) (fpImmValue (isDouble op.type) bits))] := by
      simp only [SeqMove.writes, argMove, hop, hconv, hty]
      rfl
    obtain ⟨hvalue, hothers⟩ := execAll_fpImm arith σ rvFt0
      (isDouble op.type) bits
    have hrun : (argMove li64Value vmap (op, .f farg)).run σ =
        update (update σ (.f rvFt0) (fpImmValue (isDouble op.type) bits))
          (.f farg) (moveFp (isDouble op.type) (fpImmValue (isDouble op.type) bits)) := by
      rw [SeqMove.run, hwrites]
      rfl
    rw [fprMoveCode, if_pos hne, execAll_append, execAll, execAll, execInst_fpMove, hvalue, hrun]
    by_cases heq : l = .f farg
    · rw [heq, update_self, update_self]
    · rw [update_of_ne heq, update_of_ne heq]
      by_cases hft0 : l = .f rvFt0
      · rw [hft0, update_self, hvalue]
      · rw [update_of_ne hft0]
        exact hothers l ht1 ht2 hft0

/-- The moves of the arguments, with constants as the code loads them. -/
def codeMoves (vmap : List (Nat × RvVregMap)) (iarg farg : Reg) (args : List LrOperand) :
    List (SeqMove Loc (BitVec 64)) :=
  (argPlaces iarg farg args).map (argMove li64Value vmap)

/-- The places are argument registers from the given ones on. -/
def PlacesFrom (iarg farg : Reg) (ps : List (LrOperand × Loc)) : Prop :=
  ∀ p ∈ ps, (∃ r, p.2 = .x r ∧ iarg ≤ r ∧ r ≤ rvA7) ∨ ∃ r, p.2 = .f r ∧ farg ≤ r ∧ r ≤ rvFa7

theorem PlacesFrom.weaken {iarg' farg' : Reg} {ps : List (LrOperand × Loc)}
    (h : PlacesFrom iarg' farg' ps) (hi : iarg ≤ iarg') (hf : farg ≤ farg') :
    PlacesFrom iarg farg ps := by
  intro p hp
  obtain ⟨r, hr, hle, hmax⟩ | ⟨r, hr, hle, hmax⟩ := h p hp
  · exact .inl ⟨r, hr, hi.trans hle, hmax⟩
  · exact .inr ⟨r, hr, hf.trans hle, hmax⟩

theorem lt_succ_place : ∀ r : Reg, r ≤ 17 → r < r + 1 ∧ r ≤ r + 1 := by decide

theorem run_argMove_congr (hhomes : HomesOk vmap) {p : LrOperand × Loc} {τ : RvState}
    (hmapped : ∀ v, p.1.value = .vreg v → ∃ m, vmap.lookup v = some m) (h : ∀ l, Home l → σ l = τ l)
    (hl : Home l) :
    (argMove li64Value vmap p).run σ l = (argMove li64Value vmap p).run τ l := by
  refine SeqMove.run_congr (T := Home) ?_ h l hl
  intro r hr
  unfold argMove at hr
  simp only at hr
  split at hr
  · next v hv =>
    obtain ⟨m, hm⟩ := hmapped v hv
    obtain rfl : homeOf vmap v = r := Sum.inl.inj hr
    rw [homeOf_of_lookup hm]
    exact hhomes v m hm
  all_goals cases hr

/-- The operands of the arguments have registers. -/
def ArgsMapped (vmap : List (Nat × RvVregMap)) (args : List LrOperand) : Prop :=
  ∀ op ∈ args, ∀ v, op.value = .vreg v → ∃ m, vmap.lookup v = some m

theorem mem_argPlaces {args : List LrOperand} {p : LrOperand × Loc}
    (h : p ∈ argPlaces iarg farg args) : p.1 ∈ args := by
  induction args generalizing iarg farg with
  | nil => cases h
  | cons op rest ih =>
    unfold argPlaces at h
    split at h
    · obtain rfl | h := mem_cons.1 h
      · exact mem_cons_self
      · exact mem_cons_of_mem op (ih h)
    · obtain rfl | h := mem_cons.1 h
      · exact mem_cons_self
      · exact mem_cons_of_mem op (ih h)

theorem runAll_congr (hhomes : HomesOk vmap) {args : List LrOperand} {τ : RvState}
    (hmapped : ArgsMapped vmap args) (h : ∀ l, Home l → σ l = τ l) :
    ∀ l, Home l → SeqMove.runAll (codeMoves vmap iarg farg args) σ l =
      SeqMove.runAll (codeMoves vmap iarg farg args) τ l := by
  have hplaces : ∀ p ∈ argPlaces iarg farg args, ∀ v, p.1.value = .vreg v →
      ∃ m, vmap.lookup v = some m := fun p hp => hmapped p.1 (mem_argPlaces hp)
  unfold codeMoves
  generalize argPlaces iarg farg args = ps at hplaces
  induction ps generalizing σ τ with
  | nil => exact h
  | cons p ps ih =>
    exact ih (fun l hl => run_argMove_congr hhomes (hplaces p mem_cons_self) h hl)
      fun q hq => hplaces q (mem_cons_of_mem p hq)

/-- What the code of the arguments is. -/
structure ArgCode (vmap : List (Nat × RvVregMap)) (iarg farg : Reg)
    (args : List LrOperand) (code : List RvInst) : Prop where
  sparing : Sparing code
  mapped : ArgsMapped vmap args
  typed : ∀ op ∈ args, ∀ imm, op.value = .immI64 imm → rvTypeIsFp op.type = false
  places : PlacesFrom iarg farg (argPlaces iarg farg args)
  distinct : ((argPlaces iarg farg args).map Prod.snd).Nodup
  moves : ∀ (arith : RvArith) σ l, Home l →
    execAll arith code σ l = SeqMove.runAll (codeMoves vmap iarg farg args) σ l

/-- An argument whose code does the move to a place of its own, before the others. -/
theorem ArgCode.cons (hhomes : HomesOk vmap) {iarg' farg' : Reg} {rest : List LrOperand}
    {own : List RvInst}
    (hplaces : argPlaces iarg farg (op :: rest) = (op, l) :: argPlaces iarg' farg' rest)
    (hle : iarg ≤ iarg') (hle' : farg ≤ farg') (hfirst : PlacesFrom iarg farg [(op, l)])
    (hnew : ∀ p ∈ argPlaces iarg' farg' rest, p.2 ≠ l) (hsparing : Sparing own)
    (hmapped : ∀ v, op.value = .vreg v → ∃ m, vmap.lookup v = some m)
    (htyped : ∀ imm, op.value = .immI64 imm → rvTypeIsFp op.type = false)
    (hown : ∀ arith σ k, Home k → execAll arith own σ k = (argMove li64Value vmap (op, l)).run σ k)
    (hrest : ArgCode vmap iarg' farg' rest code) :
    ArgCode vmap iarg farg (op :: rest) (own ++ code) := by
  constructor
  · exact hsparing.append hrest.sparing
  · intro o ho
    obtain rfl | ho := mem_cons.1 ho
    · exact hmapped
    · exact hrest.mapped o ho
  · intro o ho
    obtain rfl | ho := mem_cons.1 ho
    · exact htyped
    · exact hrest.typed o ho
  · rw [hplaces]
    intro p hp
    obtain rfl | hp := mem_cons.1 hp
    · exact hfirst _ mem_cons_self
    · exact hrest.places.weaken hle hle' p hp
  · rw [hplaces, map_cons, nodup_cons]
    refine ⟨fun hmem => ?_, hrest.distinct⟩
    obtain ⟨p, hp, heq⟩ := mem_map.1 hmem
    exact hnew p hp heq
  · intro arith σ k hk
    rw [execAll_append, hrest.moves arith _ k hk]
    unfold codeMoves
    rw [hplaces, map_cons]
    exact runAll_congr hhomes hrest.mapped (hown arith σ) k hk

theorem ArgCode.cons_gpr (hhomes : HomesOk vmap) {rest : List LrOperand}
    (hty : rvTypeIsFp op.type = false) (hiarg : 10 ≤ iarg) (hmax : iarg ≤ rvA7)
    (hload : GprLoad vmap op rvT1 rvT0 r ld) (hrest : ArgCode vmap (iarg + 1) farg rest code) :
    ArgCode vmap iarg farg (op :: rest)
      (ld ++ gprMoveCode iarg r ++ code) := by
  have hplaces : argPlaces iarg farg (op :: rest) =
      (op, .x iarg) :: argPlaces (iarg + 1) farg rest := by
    rw [argPlaces, hty]
    rfl
  have hargs : ∀ r : Reg, 10 ≤ r → r ≤ 17 → calleeSaved (.x r) = false := by decide
  refine ArgCode.cons hhomes hplaces (lt_succ_place iarg hmax).2 le_rfl ?first ?new
    ((sparing_gprLoad hload rfl rfl).append (sparing_gprMove (hargs iarg hiarg hmax))) ?mapped
    (fun _ _ => hty) (fun _ _ _ hk => execAll_gprArg hhomes hload hty hiarg hk) hrest
  case first =>
    intro p hp
    obtain rfl := mem_singleton.1 hp
    exact .inl ⟨iarg, rfl, le_rfl, hmax⟩
  case new =>
    intro p hp heq
    obtain ⟨r, hr, hle, -⟩ | ⟨r, hr, -⟩ := hrest.places p hp
    · obtain rfl := Loc.x.inj (heq.symm.trans hr)
      exact absurd (lt_succ_place iarg hmax).1 (not_lt.2 hle)
    · rw [hr] at heq
      cases heq
  case mapped =>
    intro v hv
    cases hload with
    | vreg hop hmap =>
      obtain rfl := OperandValue.vreg.inj (hop.symm.trans hv)
      exact ⟨_, hmap⟩
    | imm hop =>
      rw [hop] at hv
      cases hv

theorem ArgCode.cons_fpr (hhomes : HomesOk vmap) {rest : List LrOperand}
    (hty : rvTypeIsFp op.type = true) (hfarg : 10 ≤ farg) (hmax : farg ≤ rvFa7)
    (hload : FprLoad vmap op rvT1 rvT2 rvFt0 r ld)
    (hrest : ArgCode vmap iarg (farg + 1) rest code) :
    ArgCode vmap iarg farg (op :: rest)
      (ld ++ fprMoveCode farg r (isDouble op.type) ++ code) := by
  have hplaces : argPlaces iarg farg (op :: rest) =
      (op, .f farg) :: argPlaces iarg (farg + 1) rest := by
    rw [argPlaces, hty]
    rfl
  have hargs : ∀ r : Reg, 10 ≤ r → r ≤ 17 → calleeSaved (.f r) = false := by decide
  refine ArgCode.cons hhomes hplaces le_rfl (lt_succ_place farg hmax).2 ?first ?new
    ((sparing_fprLoad hload rfl).append (sparing_fprMove (hargs farg hfarg hmax) _)) ?mapped
    ?typed (fun _ _ _ hk => execAll_fprArg hload hty hfarg hk) hrest
  case first =>
    intro p hp
    obtain rfl := mem_singleton.1 hp
    exact .inr ⟨farg, rfl, le_rfl, hmax⟩
  case new =>
    intro p hp heq
    obtain ⟨r, hr, -⟩ | ⟨r, hr, hle, -⟩ := hrest.places p hp
    · rw [hr] at heq
      cases heq
    · obtain rfl := Loc.f.inj (heq.symm.trans hr)
      exact absurd (lt_succ_place farg hmax).1 (not_lt.2 hle)
  case mapped =>
    intro v hv
    cases hload with
    | vreg hop hmap =>
      obtain rfl := OperandValue.vreg.inj (hop.symm.trans hv)
      exact ⟨_, hmap⟩
    | imm hop =>
      rw [hop] at hv
      cases hv
  case typed =>
    intro imm himm
    cases hload with
    | vreg hop _ | imm hop =>
      rw [hop] at himm
      cases himm

/-- The arguments of a call. -/
theorem appends_callArgs {c₀ : RvDirectCtx} (hhomes : HomesOk c₀.vmap) :
    ∀ (args : List LrOperand) (iarg farg : Reg) (i : Nat), 10 ≤ iarg → 10 ≤ farg →
      Appends c₀ (callArgs iarg farg i args) fun _ code =>
        ArgCode c₀.vmap iarg farg args code
  | [], iarg, farg, i, _, _ =>
    Appends.pure
      { sparing := sparing_nil
        mapped := fun _ h => absurd h not_mem_nil
        typed := fun _ h => absurd h not_mem_nil
        places := fun _ h => absurd h not_mem_nil
        distinct := nodup_nil
        moves := fun _ _ _ _ => rfl }
  | op :: rest, iarg, farg, i, hiarg, hfarg => by
    unfold callArgs
    refine Appends.ite (fun _ => appends_refuse) fun _ => Appends.ite (fun hty => ?_) fun hty => ?_
    · refine Appends.bind appends_require fun _ more hmore => ?_
      obtain ⟨hmax, rfl⟩ := hmore
      refine Appends.bind (appends_operandFpr op _ _ _) fun r ld hload => ?_
      refine Appends.seq (appends_moveFpr _ _ _) ((appends_callArgs hhomes rest iarg (farg + 1) (i + 1) hiarg
        (hfarg.trans (lt_succ_place farg hmax).2)).weaken fun _ code hcode => ?_)
      rw [nil_append, ← append_assoc]
      exact ArgCode.cons_fpr hhomes hty hfarg hmax hload hcode
    · rw [Bool.not_eq_true] at hty
      refine Appends.bind appends_require fun _ more hmore => ?_
      obtain ⟨hmax, rfl⟩ := hmore
      refine Appends.bind (appends_operandGpr op _ _) fun r ld hload => ?_
      refine Appends.seq (appends_moveGpr _ _) ((appends_callArgs hhomes rest (iarg + 1) farg (i + 1)
        (hiarg.trans (lt_succ_place iarg hmax).2) hfarg).weaken fun _ code hcode => ?_)
      rw [nil_append, ← append_assoc]
      exact ArgCode.cons_gpr hhomes hty hiarg hmax hload hcode

end ArgumentCode

/-- Registers that a callee saves and that have been given to values. -/
def Kept (c : RvDirectCtx) (l : Loc) : Prop :=
  calleeSaved l = true ∧
    ((∃ r ∈ rvGprTmpPool.take c.gprNext, l = .x r) ∨ ∃ r ∈ rvFprTmpPool.take c.fprNext, l = .f r)

def SafeCode (c : RvDirectCtx) (code : List RvInst) : Prop :=
  ∀ inst ∈ code, RvInst.isCall inst = false ∧ ∀ l, Kept c l → instDest inst ≠ some l

theorem SafeCode.append {c : RvDirectCtx} {ys : List RvInst} (h : SafeCode c xs)
    (h' : SafeCode c ys) : SafeCode c (xs ++ ys) := by
  intro inst hinst
  obtain hinst | hinst := mem_append.1 hinst
  · exact h inst hinst
  · exact h' inst hinst

theorem Kept.ne_s1 {c : RvDirectCtx} (h : Kept c l) : l ≠ .x rvS1 := by
  rintro rfl
  obtain ⟨-, ⟨r, hr, heq⟩ | ⟨r, hr, heq⟩⟩ := h
  · have hr' := mem_of_mem_take hr
    rw [← Loc.x.inj heq] at hr'
    revert hr'
    decide
  · cases heq

theorem Sparing.safe {c : RvDirectCtx} (h : Sparing code) : SafeCode c code :=
  fun inst hinst => ⟨(h inst hinst).1, fun l hl => (h inst hinst).2 l hl.1 hl.ne_s1⟩

theorem safeCode_single {c : RvDirectCtx} (hcall : RvInst.isCall inst = false)
    (h : ∀ l, instDest inst = some l → ¬ Kept c l) : SafeCode c [inst] := by
  intro i hi
  obtain rfl := mem_singleton.1 hi
  exact ⟨hcall, fun l hl hdest => h l hdest hl⟩

theorem notMem_take_of_getElem? {pool : List Reg} {n : Nat} (hnodup : pool.Nodup)
    (h : pool[n]? = some r) : r ∉ pool.take n := by
  intro hr
  obtain ⟨i, hi, hget⟩ := mem_take_iff_getElem.1 hr
  obtain ⟨hlt, hget'⟩ := List.getElem?_eq_some_iff.1 h
  have hsame := hnodup.getElem_inj_iff.1 (hget.trans hget'.symm)
  omega

/-- The next register of the pool is not in use. -/
theorem not_kept_gpr {c : RvDirectCtx} (h : rvGprTmpPool[c.gprNext]? = some rd) :
    ¬ Kept c (.x rd) := by
  rintro ⟨-, ⟨r, hr, heq⟩ | ⟨r, hr, heq⟩⟩
  · obtain rfl := Loc.x.inj heq
    exact notMem_take_of_getElem? (by decide) h hr
  · cases heq

theorem not_kept_fpr {c : RvDirectCtx} (h : rvFprTmpPool[c.fprNext]? = some rd) :
    ¬ Kept c (.f rd) := by
  rintro ⟨-, ⟨r, hr, heq⟩ | ⟨r, hr, heq⟩⟩
  · cases heq
  · obtain rfl := Loc.f.inj heq
    exact notMem_take_of_getElem? (by decide) h hr

/-- The register that the result of an instruction gets, if it gets one. -/
inductive NewHome (c c' : RvDirectCtx) (dest : Nat) : Prop
  | none (hmap : c'.vmap = c.vmap) (hg : c'.gprNext = c.gprNext) (hf : c'.fprNext = c.fprNext)
  | gpr {r : Reg} (hr : rvGprTmpPool[c.gprNext]? = some r)
      (hmap : c'.vmap = (dest, ⟨.gpr, r⟩) :: c.vmap) (hg : c'.gprNext = c.gprNext + 1)
      (hf : c'.fprNext = c.fprNext)
  | fpr {r : Reg} (hr : rvFprTmpPool[c.fprNext]? = some r)
      (hmap : c'.vmap = (dest, ⟨.fpr, r⟩) :: c.vmap) (hg : c'.gprNext = c.gprNext)
      (hf : c'.fprNext = c.fprNext + 1)
  | result {cls : RegClass} (hmap : c'.vmap = (dest, ⟨cls, 10⟩) :: c.vmap)
      (hg : c'.gprNext = c.gprNext) (hf : c'.fprNext = c.fprNext)

/-- `x` appends instructions and may change the rest of the context: `Q` relates the
changed context, still without the instructions, to them. -/
def Ends (c₀ : RvDirectCtx) (x : RvM Unit) (Q : RvDirectCtx → List RvInst → Prop) : Prop :=
  ∀ code a c', x (withCode c₀ code) = some (a, c') →
    ∃ base more, c' = withCode base (code ++ more) ∧ base.code = c₀.code ∧ Q base more

section EndRules
variable {α : Type} {c₀ : RvDirectCtx} {Q : RvDirectCtx → List RvInst → Prop}

theorem Appends.ends {x : RvM Unit} (h : Appends c₀ x fun _ code => Q c₀ code) :
    Ends c₀ x Q := by
  intro code a c' hrun
  obtain ⟨more, hmore, hq⟩ := h code _ a c' rfl hrun
  exact ⟨c₀, more, hmore, rfl, hq⟩

theorem Ends.bind {x : RvM α} {f : α → RvM Unit} {R : α → List RvInst → Prop}
    (hx : Appends c₀ x R) (hf : ∀ a more, R a more →
      Ends c₀ (f a) fun base code => Q base (more ++ code)) : Ends c₀ (x >>= f) Q := by
  intro code b s' hrun
  obtain ⟨a, t, hfirst, hrest⟩ := run_bind_inv hrun
  obtain ⟨more, ht, hr⟩ := hx code _ a t rfl hfirst
  rw [ht] at hrest
  obtain ⟨base, more', hs', hbase, hq⟩ := hf a more hr (code ++ more) b s' hrest
  exact ⟨base, more ++ more', by rw [hs', append_assoc], hbase, hq⟩

theorem Ends.require [Decidable p] {y : RvM Unit} (h : Ends c₀ y Q) :
    Ends c₀ (require p >>= fun _ => y) Q :=
  Ends.bind appends_require fun _ more hmore => by rw [hmore.2]; exact h

theorem Ends.read {γ : Type} (read : RvDirectCtx → γ)
    (h : ∀ c code, read (withCode c code) = read c) {f : γ → RvM Unit}
    (hf : Ends c₀ (f (read c₀)) Q) :
    Ends c₀ (MonadState.get >>= fun c => f (read c)) Q := by
  intro code b s' hrun
  obtain ⟨a, t, hfirst, hrest⟩ := run_bind_inv hrun
  cases hfirst
  rw [h] at hrest
  exact hf code b s' hrest

theorem Ends.weaken {x : RvM Unit} {Q' : RvDirectCtx → List RvInst → Prop} (h : Ends c₀ x Q')
    (hq : ∀ base code, Q' base code → Q base code) : Ends c₀ x Q := by
  intro code a c' hrun
  obtain ⟨base, more, hc', hbase, hq'⟩ := h code a c' hrun
  exact ⟨base, more, hc', hbase, hq base more hq'⟩

theorem ends_refuse : Ends c₀ refuse Q := by
  intro code a c' hrun
  cases hrun

/-- The next register of the pool. -/
theorem Ends.nextGpr {f : Reg → RvM Unit}
    (hf : ∀ rd, rvGprTmpPool[c₀.gprNext]? = some rd →
      Ends { c₀ with gprNext := c₀.gprNext + 1 } (f rd) Q) : Ends c₀ (nextGpr >>= f) Q := by
  intro code b s' hrun
  obtain ⟨rd, t, hfirst, hrest⟩ := run_bind_inv hrun
  obtain ⟨r, hr, heq⟩ := Option.map_eq_some_iff.1 hfirst
  obtain ⟨rfl, rfl⟩ := Prod.mk.inj heq
  exact hf r hr code b s' hrest

theorem Ends.nextFpr {f : Reg → RvM Unit}
    (hf : ∀ rd, rvFprTmpPool[c₀.fprNext]? = some rd →
      Ends { c₀ with fprNext := c₀.fprNext + 1 } (f rd) Q) : Ends c₀ (nextFpr >>= f) Q := by
  intro code b s' hrun
  obtain ⟨rd, t, hfirst, hrest⟩ := run_bind_inv hrun
  obtain ⟨r, hr, heq⟩ := Option.map_eq_some_iff.1 hfirst
  obtain ⟨rfl, rfl⟩ := Prod.mk.inj heq
  exact hf r hr code b s' hrest

theorem ends_mapVreg (v : Nat) (cls : RegClass) (reg : Reg)
    (h : Q { c₀ with vmap := (v, ⟨cls, reg⟩) :: c₀.vmap } []) :
    Ends c₀ (mapVreg v cls reg) Q := by
  intro code a c' hrun
  cases hrun
  exact ⟨{ c₀ with vmap := (v, ⟨cls, reg⟩) :: c₀.vmap }, [], by rw [append_nil]; rfl, rfl, h⟩

end EndRules

/-- An instruction other than a call. -/
def PlainInst (c : RvDirectCtx) (dest : Nat) (base : RvDirectCtx) (code : List RvInst) : Prop :=
  SafeCode c code ∧ NewHome c base dest

section Plain
variable {c : RvDirectCtx} (desc : LrInst)

theorem safe_intResult (hrd : rvGprTmpPool[c.gprNext]? = some rd)
    (hcall : RvInst.isCall inst = false) (hdest : instDest inst = some (.x rd)) :
    SafeCode c [inst] := by
  refine safeCode_single hcall fun l hl => ?_
  rw [hdest] at hl
  cases hl
  exact not_kept_gpr hrd

/-- The result of an integer instruction gets the next register of the pool. -/
def withGpr (c : RvDirectCtx) (dest : Nat) (rd : Reg) : RvDirectCtx :=
  { c with gprNext := c.gprNext + 1, vmap := (dest, ⟨.gpr, rd⟩) :: c.vmap }

/-- The code of two operands, and an instruction on their registers. -/
inductive BinopCode (c : RvDirectCtx) (funct : BitVec 7 × BitVec 3) :
    RvDirectCtx → List RvInst → Prop
  | intro {a b : LrOperand} {rd rs1 rs2 : Reg} {ld1 ld2 : List RvInst}
      (hops : desc.operands = [a, b]) (hrd : rvGprTmpPool[c.gprNext]? = some rd)
      (h1 : GprLoad c.vmap a rvT1 rvT0 rs1 ld1) (h2 : GprLoad c.vmap b rvT2 rvT0 rs2 ld2) :
      BinopCode c funct (withGpr c desc.dest rd)
        (ld1 ++ (ld2 ++ [rvEncR funct.1 rs2 rs1 funct.2 rd rvOpcodeOp]))

theorem ends_binopCode (funct : BitVec 7 × BitVec 3) :
    Ends c (emitIntBinop desc funct) (BinopCode desc c funct) := by
  unfold emitIntBinop
  split
  · next hops =>
    refine Ends.require (Ends.read (fun c => c.feat) (fun _ _ => rfl)
      (f := fun feat => require (needsM desc.op = true → feat.extM = true) >>= fun _ => _)
      (Ends.require (Ends.nextGpr fun rd hrd => ?_)))
    refine Ends.bind (appends_operandGpr _ _ _) fun rs1 ld1 h1 =>
      Ends.bind (appends_operandGpr _ _ _) fun rs2 ld2 h2 =>
        Ends.bind (appends_emit _) fun _ more hmore => ends_mapVreg _ _ _ ?_
    rw [hmore, append_nil]
    exact .intro hops hrd h1 h2
  · exact ends_refuse

theorem ends_intBinop (funct : BitVec 7 × BitVec 3) :
    Ends c (emitIntBinop desc funct) (PlainInst c desc.dest) := by
  refine (ends_binopCode desc funct).weaken fun base code h => ?_
  obtain ⟨hops, hrd, h1, h2⟩ := h
  exact ⟨(sparing_gprLoad h1 rfl rfl).safe.append ((sparing_gprLoad h2 rfl rfl).safe.append
    (safe_intResult hrd rfl rfl)), .gpr hrd rfl rfl rfl⟩

variable {desc} in
theorem Ends.after {x : RvM Unit} {c₁ : RvDirectCtx} (h : Ends c₁ x (PlainInst c desc.dest))
    (hld : Sparing ld) : Ends c₁ x fun base code => PlainInst c desc.dest base (ld ++ code) :=
  h.weaken fun _ _ hplain => ⟨hld.safe.append hplain.1, hplain.2⟩

/-- The last instruction writes the register that the result gets. -/
theorem ends_fpResult (hrd : rvFprTmpPool[c.fprNext]? = some rd)
    (hcall : RvInst.isCall inst = false) (hdest : instDest inst = some (.f rd)) :
    Ends { c with fprNext := c.fprNext + 1 }
      (rvEmit32 inst >>= fun _ => mapVreg desc.dest .fpr rd) (PlainInst c desc.dest) := by
  refine Ends.bind (appends_emit _) fun _ more hmore => ends_mapVreg _ _ _ ⟨?_, .fpr hrd rfl rfl rfl⟩
  rw [hmore]
  refine safeCode_single hcall fun l hl => ?_
  rw [hdest] at hl
  cases hl
  exact not_kept_fpr hrd

theorem ends_requireFp (type : Option LrType) {y : RvM Unit}
    {Q : RvDirectCtx → List RvInst → Prop} (h : Ends c y Q) :
    Ends c (requireFp type >>= fun _ => y) Q := by
  refine Ends.bind (Appends.weaken (Q := fun _ code => code = []) ?_ fun _ _ hcode => hcode)
    fun _ more hmore => by rw [hmore]; exact h
  exact appends_read (fun c => c.feat) (fun _ _ => rfl) (f := fun feat => require (fpSupported feat type = true))
    (appends_require.weaken fun _ _ hcode => hcode.2)

theorem ends_fneg : Ends c (emitFneg desc) (PlainInst c desc.dest) := by
  unfold emitFneg
  refine ends_requireFp _ (Ends.nextFpr fun rd hrd => ?_)
  split
  · refine Ends.bind (appends_operandFpr _ _ _ _) fun rs1 ld hld =>
      (ends_fpResult desc hrd rfl ?_).after (sparing_fprLoad hld rfl)
    cases isDouble desc.type <;> rfl
  · exact ends_refuse

theorem ends_fpBinop : Ends c (emitFpBinop desc) (PlainInst c desc.dest) := by
  unfold emitFpBinop
  refine ends_requireFp _ (Ends.nextFpr fun rd hrd => ?_)
  split
  · refine Ends.bind (appends_operandFpr _ _ _ _) fun rs1 ld1 h1 =>
      (Ends.bind (appends_operandFpr _ _ _ _) fun rs2 ld2 h2 =>
        (ends_fpResult desc hrd rfl ?_).after (sparing_fprLoad h2 rfl)).after
          (sparing_fprLoad h1 rfl)
    cases desc.op <;> cases isDouble desc.type <;> rfl
  · exact ends_refuse

theorem ends_sitofp : Ends c (emitSitofp desc) (PlainInst c desc.dest) := by
  unfold emitSitofp
  split
  · refine ends_requireFp _ (Ends.read (fun c => c.fprNext) (fun _ _ => rfl)
      (f := fun n => require (n < rvFprTmpPool.length) >>= fun _ => _) (Ends.require ?_))
    refine Ends.bind (appends_operandGpr _ _ _) fun rs1 ld hld => Ends.nextFpr fun rd hrd =>
      (ends_fpResult desc hrd rfl ?_).after (sparing_gprLoad hld rfl rfl)
    cases isDouble desc.type <;> rfl
  · exact ends_refuse

theorem ends_fptosi : Ends c (emitFptosi desc) (PlainInst c desc.dest) := by
  unfold emitFptosi
  split
  · refine Ends.read (fun c => c.gprNext) (fun _ _ => rfl)
      (f := fun n => require (_ ∧ n < rvGprTmpPool.length) >>= fun _ => _)
      (Ends.require (ends_requireFp _ ?_))
    refine Ends.bind (appends_operandFpr _ _ _ _) fun frs ld hld => Ends.nextGpr fun rd hrd =>
      Ends.bind (appends_emit _) fun _ more hmore => ends_mapVreg _ _ _ ⟨?_, ?_⟩
    · rw [hmore, append_nil]
      refine (sparing_fprLoad hld rfl).safe.append (safe_intResult hrd rfl ?_)
      split <;> rfl
    · exact .gpr hrd rfl rfl rfl
  · exact ends_refuse

theorem ends_fpConvert (toDouble : Bool) :
    Ends c (emitFpConvert desc toDouble) (PlainInst c desc.dest) := by
  unfold emitFpConvert
  split
  · refine Ends.read (fun c => (c.fprNext, c.feat)) (fun _ _ => rfl)
      (f := fun r => require (r.1 < rvFprTmpPool.length ∧ r.2.extD = true) >>= fun _ => _)
      (Ends.require (Ends.require ?_))
    refine Ends.bind (appends_operandFpr _ _ _ _) fun frs ld hld => Ends.nextFpr fun rd hrd =>
      (ends_fpResult desc hrd rfl ?_).after (sparing_fprLoad hld rfl)
    cases toDouble <;> rfl
  · exact ends_refuse

/-- The code of an operand, and a move of its register. -/
inductive CastCode (c : RvDirectCtx) : RvDirectCtx → List RvInst → Prop
  | intro {a : LrOperand} {rd rs : Reg} {ld : List RvInst} (hops : desc.operands = [a])
      (hrd : rvGprTmpPool[c.gprNext]? = some rd) (h : GprLoad c.vmap a rvT1 rvT2 rs ld) :
      CastCode c (withGpr c desc.dest rd) (ld ++ [mvInst rd rs])

theorem ends_castCode : Ends c (emitIntCast desc) (CastCode desc c) := by
  unfold emitIntCast
  split
  · next hops =>
    refine Ends.require (Ends.bind (appends_operandGpr _ _ _) fun rs ld hld =>
      Ends.nextGpr fun rd hrd => Ends.bind (appends_emit _) fun _ more hmore =>
        ends_mapVreg _ _ _ ?_)
    rw [hmore, append_nil]
    exact .intro hops hrd hld
  · exact ends_refuse

theorem ends_intCast : Ends c (emitIntCast desc) (PlainInst c desc.dest) := by
  refine (ends_castCode desc).weaken fun base code h => ?_
  obtain ⟨hops, hrd, hld⟩ := h
  exact ⟨(sparing_gprLoad hld rfl rfl).safe.append (safe_intResult hrd rfl rfl),
    .gpr hrd rfl rfl rfl⟩

theorem appends_return : Appends c emitReturn fun _ code => Sparing code := by
  have hrestore : Appends c restoreRa fun _ code => Sparing code := by
    unfold restoreRa
    refine appends_read (fun c => c.raSaved) (fun _ _ => rfl)
      (f := fun saved => if saved = true then _ else _) ?_
    refine Appends.ite (fun _ => ?_) fun _ => Appends.pure sparing_nil
    refine (appends_emit _).weaken fun _ code hcode => ?_
    rw [hcode]
    exact sparing_dest rfl rfl rfl
  refine Appends.bind hrestore fun _ more hmore => (appends_emit _).weaken fun _ code hcode => ?_
  rw [hcode]
  refine hmore.append (sparing_single rfl fun l hl => ?_)
  cases hl

theorem appends_ret : Appends c (emitRet desc) fun _ code => Sparing code := by
  have hvalue : ∀ a, Appends c (retValue a) fun _ code => Sparing code := by
    intro a
    unfold retValue
    refine Appends.ite (fun _ => ?_) fun _ => ?_
    · refine Appends.bind (appends_operandFpr _ _ _ _) fun r ld hld =>
        (appends_moveFpr _ _ _).weaken fun _ code hcode => ?_
      rw [hcode]
      exact (sparing_fprLoad hld rfl).append (sparing_fprMove rfl _)
    · refine Appends.bind (appends_operandGpr _ _ _) fun r ld hld =>
        (appends_moveGpr _ _).weaken fun _ code hcode => ?_
      rw [hcode]
      exact (sparing_gprLoad hld rfl rfl).append (sparing_gprMove rfl)
  unfold emitRet
  split
  · exact Appends.bind (hvalue _) fun _ more hmore =>
      appends_return.weaken fun _ code hcode => hmore.append hcode
  · exact appends_refuse

/-- All instructions but calls: no register in use that a callee saves is written, and the
result gets a register of its own. -/
theorem ends_plain (remap : CStr → CStr) (hop : desc.op ≠ .call) :
    Ends c (rvCompileEmit remap desc) (PlainInst c desc.dest) := by
  have hkeep : ∀ x : RvM Unit, Appends c x (fun _ code => Sparing code) →
      Ends c x (PlainInst c desc.dest) := fun x hx =>
    Appends.ends (hx.weaken fun _ code hcode => ⟨hcode.safe, .none rfl rfl rfl⟩)
  unfold rvCompileEmit
  refine Ends.read (fun c => c.hasCurrentBlock) (fun _ _ => rfl)
    (f := fun b => require (b = true) >>= fun _ => _) (Ends.require ?_)
  split
  · next h => exact absurd h hop
  all_goals first
    | exact ends_refuse
    | exact ends_fpBinop desc
    | exact ends_fneg desc
    | exact ends_sitofp desc
    | exact ends_fptosi desc
    | exact ends_fpConvert desc _
    | exact ends_intCast desc
    | exact hkeep _ (appends_ret desc)
    | exact hkeep _ appends_return
    | exact hkeep _ (Appends.pure sparing_nil)
    | (split
       · exact ends_intBinop desc _
       · exact ends_refuse)

end Plain

/-- What a call is compiled to: the arguments are put into their places, and then the
function is called. -/
structure CallCode (c c' : RvDirectCtx) (desc : LrInst) (pre : List RvInst) : Prop where
  code : c'.code = c.code ++ (pre ++ [.j rvRa rvOpcodeJal])
  args : ArgCode c.vmap rvA0 rvFa0 desc.operands.tail pre
  home : NewHome c c' desc.dest

theorem saveRa_run {c : RvDirectCtx} (h : saveRa c = some (a, c')) :
    ∃ pre saved, c' = { withCode c pre with raSaved := saved } ∧
      (pre = [] ∨ pre = [mvInst rvS1 rvRa]) := by
  unfold saveRa at h
  obtain ⟨c₁, t, hget, h⟩ := run_bind_inv h
  obtain ⟨rfl, rfl⟩ := Prod.mk.inj (Option.some.inj hget)
  split at h
  · obtain ⟨-, rfl⟩ := Prod.mk.inj (Option.some.inj h)
    exact ⟨[], c.raSaved, by rw [withCode_nil], .inl rfl⟩
  · obtain ⟨b, t, hemit, h⟩ := run_bind_inv h
    obtain ⟨-, rfl⟩ := Prod.mk.inj (Option.some.inj h)
    have hcode : Appends c (rvEmitMv rvS1 rvRa) _ := appends_emit (mvInst rvS1 rvRa)
    obtain ⟨more, ht, hmore⟩ := hcode [] _ b t (withCode_nil c).symm hemit
    refine ⟨more, true, ?_, .inr hmore⟩
    rw [ht, nil_append]

theorem emitJal_run {name : CStr} {c : RvDirectCtx} (h : emitJal remap name c = some (a, c')) :
    ∃ obj, c' = { withCode c [.j rvRa rvOpcodeJal] with obj := obj } := by
  unfold emitJal at h
  obtain ⟨oc, -, h⟩ := Option.bind_eq_some_iff.1 h
  obtain ⟨r, hemit, heq⟩ := Option.map_eq_some_iff.1 h
  obtain ⟨-, rfl⟩ := Prod.mk.inj heq
  have hcode : Appends { c with obj := some (lrObjEnsureSymbol remap oc name false 0 0).1 }
      (rvEmit32 (rvEncJ rvRa rvOpcodeJal)) _ := appends_emit _
  obtain ⟨more, ht, hmore⟩ := hcode [] _ r.1 r.2 (withCode_nil _).symm hemit
  rw [ht, hmore]
  exact ⟨_, rfl⟩

theorem mapResult_run {desc : LrInst} {c : RvDirectCtx} (h : mapResult desc c = some (a, c')) :
    c'.code = c.code ∧ NewHome c c' desc.dest := by
  have hcases : c' = c ∨ ∃ cls, c' = { c with vmap := (desc.dest, ⟨cls, 10⟩) :: c.vmap } := by
    unfold mapResult at h
    generalize desc.type = type at h
    have hmapped : (if rvTypeIsFp type = true then mapVreg desc.dest .fpr rvFa0
        else mapVreg desc.dest .gpr rvA0) c = some (a, c') →
        ∃ cls, c' = { c with vmap := (desc.dest, ⟨cls, 10⟩) :: c.vmap } := by
      intro h
      split at h
      · exact ⟨_, (Prod.mk.inj (Option.some.inj h)).2.symm⟩
      · exact ⟨_, (Prod.mk.inj (Option.some.inj h)).2.symm⟩
    cases type with
    | none => exact .inl (Prod.mk.inj (Option.some.inj h)).2.symm
    | some type =>
      cases type with
      | scalar addr kind =>
        cases kind <;> first
          | exact .inl (Prod.mk.inj (Option.some.inj h)).2.symm
          | exact .inr (hmapped h)
      | _ => exact .inr (hmapped h)
  obtain rfl | ⟨cls, rfl⟩ := hcases
  · exact ⟨rfl, .none rfl rfl rfl⟩
  · exact ⟨rfl, .result rfl rfl rfl⟩

/-- A call that is accepted calls a function by its name. -/
theorem emitCall_parts {desc : LrInst} {c : RvDirectCtx}
    (h : emitCall remap desc c = some (a, c')) :
    ∃ name c₁ c₂ c₃, saveRa c = some ((), c₁) ∧
      callArgs rvA0 rvFa0 0 desc.operands.tail c₁ = some ((), c₂) ∧
      emitJal remap name c₂ = some ((), c₃) ∧ mapResult desc c₃ = some (a, c') := by
  unfold emitCall at h
  cases hops : desc.operands with
  | nil =>
    rw [hops] at h
    cases h
  | cons callee args =>
    obtain ⟨value, type, off⟩ := callee
    rw [hops] at h
    cases value with
    | global id =>
      obtain ⟨c₁, t, hget, h⟩ := run_bind_inv h
      cases hget
      cases hname : lrModuleSymbolName c.symbols id with
      | none =>
        rw [hname] at h
        cases h
      | some name =>
        rw [hname] at h
        simp only at h
        obtain ⟨_, t, hreq, hrest⟩ := run_bind_inv h
        obtain rfl : t = c := by
          unfold require at hreq
          split at hreq
          · exact (Prod.mk.inj (Option.some.inj hreq)).2.symm
          · cases hreq
        obtain ⟨_, c₁, hsave, hrest⟩ := run_bind_inv hrest
        obtain ⟨_, c₂, hargs, hrest⟩ := run_bind_inv hrest
        obtain ⟨_, c₃, hjal, hresult⟩ := run_bind_inv hrest
        exact ⟨name, c₁, c₂, c₃, hsave, hargs, hjal, hresult⟩
    | _ => cases h

theorem NewHome.of_eq {c c₁ : RvDirectCtx} {dest : Nat} (h : NewHome c₁ c' dest)
    (hmap : c₁.vmap = c.vmap) (hg : c₁.gprNext = c.gprNext) (hf : c₁.fprNext = c.fprNext) :
    NewHome c c' dest := by
  cases h with
  | none h1 h2 h3 => exact .none (h1.trans hmap) (h2.trans hg) (h3.trans hf)
  | gpr hr h1 h2 h3 => exact .gpr (hg ▸ hr) (by rw [h1, hmap]) (by rw [h2, hg]) (h3.trans hf)
  | fpr hr h1 h2 h3 => exact .fpr (hf ▸ hr) (by rw [h1, hmap]) (h2.trans hg) (by rw [h3, hf])
  | result h1 h2 h3 => exact .result (by rw [h1, hmap]) (h2.trans hg) (h3.trans hf)

theorem emitCall_run {desc : LrInst} {c : RvDirectCtx} (hhomes : HomesOk c.vmap)
    (h : emitCall remap desc c = some (a, c')) :
    ∃ pre, CallCode c c' desc pre := by
  obtain ⟨name, c₁, c₂, c₃, hsave, hargs, hjal, hresult⟩ := emitCall_parts h
  obtain ⟨pre, saved, rfl, hpre⟩ := saveRa_run hsave
  have hargsCode : Appends { withCode c pre with raSaved := saved }
      (callArgs rvA0 rvFa0 0 desc.operands.tail) _ :=
    appends_callArgs (show HomesOk { withCode c pre with raSaved := saved }.vmap from hhomes)
      desc.operands.tail rvA0 rvFa0 0 (by decide) (by decide)
  obtain ⟨code, rfl, hcode⟩ := hargsCode [] _ _ c₂ (withCode_nil _).symm hargs
  obtain ⟨obj, rfl⟩ := emitJal_run hjal
  obtain ⟨hcode', hhome⟩ := mapResult_run hresult
  refine ⟨pre ++ code, ?_, ⟨Sparing.append ?_ hcode.sparing, hcode.mapped, hcode.typed,
    hcode.places, hcode.distinct, ?_⟩, hhome.of_eq rfl rfl rfl⟩
  · rw [hcode']
    simp [withCode]
  · obtain rfl | rfl := hpre
    · exact sparing_nil
    · exact sparing_single rfl fun l hl => .inr (Option.some.inj hl).symm
  · intro arith σ l hl
    rw [execAll_append, hcode.moves arith _ l hl]
    refine runAll_congr hhomes hcode.mapped (fun k hk => ?_) l hl
    obtain rfl | rfl := hpre
    · rfl
    · refine execAll_of_ne arith σ fun inst hinst hdest => ?_
      obtain rfl := mem_singleton.1 hinst
      obtain rfl : Loc.x rvS1 = k := Option.some.inj hdest
      exact absurd hk (by decide)

end Liric.Guarantees.RiscvCode
