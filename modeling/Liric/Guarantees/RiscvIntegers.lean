import Liric.Guarantees.IntegerWidths
import Liric.Guarantees.RiscvCalls

/-!
# RISC-V integers

A constant that is not close to the largest 32-bit integer is loaded as it is. Integers
of all widths are in registers of 64 bits, and the instructions work on all of them.
For each instruction on integers and each set of constants: whether its code computes
the result of LLVM from the low bits of its operands, whatever is above them.
-/
namespace Liric.Guarantees.RiscvIntegers
open Source.Ir Source.Riscv64 RiscvMachine RiscvCode RiscvCalls BitVec List
open IntegerWidths (IntTy BinOp IntInst bits_le sampleInst sampleOp)
open Lib

variable {c c' : RvDirectCtx} {remap : CStr → CStr} {desc : LrInst} {op : LrOperand}
  {fp : RvArith} {σ : RvState} {r : Reg}

/-- The constants that are put together in two registers. -/
def Wide (imm : BitVec 64) : Prop := ¬ (-2 ^ 31 ≤ imm.toInt ∧ imm.toInt < 2 ^ 31)

instance (imm : BitVec 64) : Decidable (Wide imm) :=
  inferInstanceAs (Decidable (¬ (-2 ^ 31 ≤ imm.toInt ∧ imm.toInt < 2 ^ 31)))

variable {imm : BitVec 64} {rd : Reg}

theorem registers_differ {scratch : Reg} (hwide : Wide imm)
    (hrun : rvEmitLi64 rd scratch imm c = some ((), c')) : rd ≠ scratch := by
  rw [rvEmitLi64, if_neg hwide] at hrun
  obtain ⟨_, _, hreq, -⟩ := run_bind_inv hrun
  unfold require at hreq
  split at hreq
  · assumption
  · cases hreq

/-- The code of a constant loads it, and changes no other register but the scratch
register, which only a wide constant needs. -/
theorem li64_exact (arith : RvArith) {rd scratch : Reg} {imm : BitVec 64} (hrd : rd ≠ 0)
    (hscratch : Wide imm → scratch ≠ 0) (hrun : rvEmitLi64 rd scratch imm c = some ((), c')) :
    ∃ code, c' = withCode c code ∧ ∀ σ,
      (Loadable imm → execAll arith code σ (.x rd) = imm) ∧
      ∀ l, l ≠ .x rd → ¬ (Wide imm ∧ l = .x scratch) → execAll arith code σ l = σ l := by
  obtain ⟨code, hcode, rfl⟩ := appends_li64 rd scratch imm [] c () c' (withCode_nil c).symm hrun
  rw [nil_append] at hcode
  refine ⟨_, hcode, fun σ => ?_⟩
  by_cases hwide : Wide imm
  · obtain ⟨hvalue, hkept⟩ :=
      execAll_li64 arith σ imm hrd (hscratch hwide) (registers_differ hwide hrun)
    exact ⟨fun hload => hvalue.trans ((li64Value_eq_iff imm).2 hload),
      fun l hl hl' => hkept l hl fun heq => hl' ⟨hwide, heq⟩⟩
  · have hsmall := Decidable.not_not.1 hwide
    rw [li64Code, if_pos hsmall, execAll_li32 _ hrd]
    refine ⟨fun hload => ?_, fun l hl _ => Function.update_of_ne hl _ _⟩
    have hvalue := (li64Value_eq_iff imm).2 hload
    rw [li64Value, if_pos hsmall] at hvalue
    rw [Function.update_self, hvalue]

theorem li64_exact_wide :
    ∃ code, withCode twoParams (li64Code rvT1 rvT0 0x10000000000) = withCode twoParams code ∧
      ∀ σ, (Loadable 0x10000000000 → execAll noArith code σ (.x rvT1) = 0x10000000000) ∧
      ∀ l, l ≠ .x rvT1 → ¬ (Wide 0x10000000000 ∧ l = .x rvT0) → execAll noArith code σ l = σ l :=
  li64_exact noArith (by decide) (fun _ => by decide) (by decide)

/-- A wide constant takes the scratch register. -/
theorem li64_takes_scratch :
    ¬ ∀ (c c' : RvDirectCtx) (rd scratch : Reg) (imm : BitVec 64), rd ≠ 0 →
      rvEmitLi64 rd scratch imm c = some ((), c') → ∃ code, c' = withCode c code ∧ ∀ σ,
        execAll noArith code σ (.x rd) = imm ∧
        ∀ l, l ≠ .x rd → execAll noArith code σ l = σ l := by
  intro h
  obtain ⟨code, hcode, hrun⟩ := h twoParams
    (withCode twoParams (li64Code rvT1 rvT0 0x10000000000)) rvT1 rvT0 0x10000000000 (by decide)
    (by decide)
  obtain rfl : li64Code rvT1 rvT0 0x10000000000 = code := congrArg RvDirectCtx.code hcode
  exact absurd ((hrun fun _ => 1).2 (.x rvT0) (by decide)) (by decide)

/-- The results of the instructions that work on two integer registers. -/
def aluResult (funct7 : BitVec 7) (funct3 : BitVec 3) (x y other : BitVec 64) : BitVec 64 :=
  match funct7.toNat, funct3.toNat with
  | 0, 0 => x + y
  | 0, 1 => x <<< (y.toNat % 64)
  | 0, 4 => x ^^^ y
  | 0, 5 => x >>> (y.toNat % 64)
  | 0, 6 => x ||| y
  | 0, 7 => x &&& y
  | 32, 0 => x - y
  | 32, 5 => x.sshiftRight (y.toNat % 64)
  | 1, 0 => x * y
  | 1, 4 => if y = 0 then -1 else x.sdiv y
  | 1, 5 => if y = 0 then -1 else x / y
  | 1, 6 => if y = 0 then x else x.srem y
  | 1, 7 => if y = 0 then x else x % y
  | _, _ => other

/-- RV64IM; the instructions on floating point registers are a parameter. -/
def rv64 (fp : RvArith) : RvArith := fun inst σ =>
  match inst with
  | .r funct7 rs2 rs1 funct3 _ opcode =>
    if opcode = rvOpcodeOp then aluResult funct7 funct3 (getX σ rs1) (getX σ rs2) (fp inst σ)
    else fp inst σ
  | _ => fp inst σ

/-- Instructions from integers to an integer. -/
inductive IntOp where
  | binary (op : BinOp) (t : IntTy)
  | icmp (pred : IcmpPred) (t : IntTy)
  | zext (src dst : IntTy)
  | sext (src dst : IntTy)
  | trunc (src dst : IntTy)
  | bitcast (t : IntTy)
  deriving DecidableEq

def IntOp.opcode : IntOp → Opcode
  | binary op _ => op.opcode
  | icmp .. => .icmp
  | zext .. => .zext
  | sext .. => .sext
  | trunc .. => .trunc
  | bitcast _ => .bitcast

def IntOp.operandTypes : IntOp → List IntTy
  | binary _ t | icmp _ t => [t, t]
  | zext src _ | sext src _ | trunc src _ => [src]
  | bitcast t => [t]

def IntOp.resultType : IntOp → IntTy
  | binary _ t => t
  | icmp .. => .i1
  | zext _ dst | sext _ dst | trunc _ dst => dst
  | bitcast t => t

/-- The result in LLVM of operands that are the low bits of these. -/
def IntOp.meaning : IntOp → List (BitVec 64) → Option (BitVec 64)
  | binary op t, values => (IntInst.binary op t).meaning values
  | icmp pred t, values => (IntInst.icmp pred t).meaning values
  | zext src dst, values => (IntInst.zext src dst).meaning values
  | sext src dst, values => (IntInst.sext src dst).meaning values
  | trunc src dst, values => (IntInst.trunc src dst).meaning values
  | bitcast _, values => values.head?

def IntOp.Encodes (k : IntOp) (desc : LrInst) : Prop :=
  desc.op = k.opcode ∧ k.resultType.Is desc.type ∧
    List.Forall₂ (fun t op => IntTy.Is t op.type) k.operandTypes desc.operands

/-- The code of the instruction leaves the result of LLVM in the low bits of the register of
its destination, whatever is above the operands, if `P` holds of its constants. -/
def Right (k : IntOp) (P : BitVec 64 → Prop) : Prop :=
  ∀ (remap : CStr → CStr) (fp : RvArith) (c c' : RvDirectCtx) (desc : LrInst), MapOk c →
    k.Encodes desc → (∀ op ∈ desc.operands, ∀ imm, op.value = .immI64 imm → P imm) →
    rvCompileEmit remap desc c = some ((), c') →
    ∃ code, c'.code = c.code ++ code ∧ ∀ σ r,
      k.meaning (desc.operands.map (operandValue c.vmap σ)) = some r →
      (execAll (rv64 fp) code σ (homeOf c'.vmap desc.dest)).setWidth k.resultType.bits =
        r.setWidth k.resultType.bits

/-- The instructions whose code is right if their constants are. -/
def IntOp.sound : IntOp → Bool
  | binary op t =>
    match op with
    | .add | .sub | .mul | .and | .or | .xor => true
    | .shl => t != .i1
    | .lshr | .ashr | .sdiv | .srem | .udiv | .urem => t == .i64
  | icmp .. | trunc .. | bitcast _ => true
  | zext src dst | sext src dst => !decide (src.bits < dst.bits)

/-- The instructions whose results depend on all bits of a constant. -/
def IntOp.wide : IntOp → Bool
  | binary _ t | bitcast t => t == .i64
  | icmp .. | zext .. | sext .. | trunc .. => false

/-- The value of an operand, or of the constant that is loaded for it. -/
def loadedValue (vmap : List (Nat × RvVregMap)) (σ : RvState) (op : LrOperand) : BitVec 64 :=
  match op.value with
  | .immI64 imm => li64Value imm
  | _ => operandValue vmap σ op

variable {vmap : List (Nat × RvVregMap)}

theorem run_gprLoad (fp : RvArith) {s1 s2 : Reg} {ld : List RvInst}
    (hhomes : HomesOk vmap) (h : GprLoad vmap op s1 s2 r ld) (h1 : s1 ≠ 0) (h2 : s2 ≠ 0)
    (hne : s1 ≠ s2) : (r = s1 ∨ 10 ≤ r) ∧ ∀ σ,
      execAll fp ld σ (.x r) = loadedValue vmap σ op ∧
        ∀ l, l ≠ .x s1 → l ≠ .x s2 → execAll fp ld σ l = σ l := by
  unfold loadedValue
  cases h with
  | vreg hop hmap =>
    refine ⟨.inr (hhomes _ _ hmap), fun σ => ⟨?_, fun l _ _ => rfl⟩⟩
    rw [hop, operandValue, hop]
    simp only [homeOf_of_lookup hmap]
    rfl
  | imm hop =>
    refine ⟨.inl rfl, fun σ => ?_⟩
    rw [hop]
    exact execAll_li64 fp σ _ h1 h2 hne

theorem loadedValue_congr {s1 s2 : Reg} {ld : List RvInst} {τ : RvState} (hhomes : HomesOk vmap)
    (hgpr : GprLoad vmap op s1 s2 r ld) (h : ∀ l, Home l → τ l = σ l) :
    loadedValue vmap τ op = loadedValue vmap σ op := by
  unfold loadedValue
  cases hgpr with
  | vreg hop hmap =>
    rw [hop, operandValue, operandValue, hop]
    simp only [homeOf_of_lookup hmap]
    exact h _ (hhomes _ _ hmap)
  | imm hop => rw [hop]

theorem execInst_alu (fp : RvArith) (σ : RvState) (funct : BitVec 7 × BitVec 3) {rs1 rs2 : Reg}
    (hrd : rd ≠ 0)
    (h1 : rs1 ≠ 0) (h2 : rs2 ≠ 0) : ∃ other,
    execInst (rv64 fp) (rvEncR funct.1 rs2 rs1 funct.2 rd rvOpcodeOp) σ (.x rd) =
      aluResult funct.1 funct.2 (σ (.x rs1)) (σ (.x rs2)) other := by
  refine ⟨fp (rvEncR funct.1 rs2 rs1 funct.2 rd rvOpcodeOp) σ, ?_⟩
  rw [rvEncR, execInst, if_pos rfl, setX_self hrd, getX_of_ne h1, getX_of_ne h2]
  split
  · next hadd =>
    rw [hadd.1, hadd.2]
    rfl
  · rw [rv64, if_pos rfl, getX_of_ne h1, getX_of_ne h2]

theorem ne_zero_of_place {s : Reg} (hs : s ≠ 0) (h : r = s ∨ 10 ≤ r) : r ≠ 0 := by
  rintro rfl
  obtain rfl | h := h
  · exact hs rfl
  · exact absurd h (by decide)

theorem homeOf_withGpr (dest : Nat) (rd : Reg) : homeOf (withGpr c dest rd).vmap dest = .x rd := by
  refine homeOf_of_lookup (m := ⟨.gpr, rd⟩) ?_
  change lookup dest ((dest, _) :: c.vmap) = _
  rw [lookup_cons, beq_self_eq_true]

variable {base : RvDirectCtx} {code : List RvInst}

/-- The result of two operands is that of their loaded values. -/
theorem binop_run {funct : BitVec 7 × BitVec 3}
    (hhomes : HomesOk c.vmap) (h : BinopCode desc c funct base code) :
    ∃ a b, desc.operands = [a, b] ∧ ∀ fp σ, ∃ other,
      execAll (rv64 fp) code σ (homeOf base.vmap desc.dest) =
        aluResult funct.1 funct.2 (loadedValue c.vmap σ a) (loadedValue c.vmap σ b) other := by
  obtain @⟨a, b, rd, rs1, rs2, ld1, ld2, hops, hrd, h1, h2⟩ := h
  refine ⟨a, b, hops, fun fp σ => ?_⟩
  obtain ⟨hr1, hrun1⟩ := run_gprLoad (rv64 fp) hhomes h1 (by decide) (by decide) (by decide)
  obtain ⟨hr2, hrun2⟩ := run_gprLoad (rv64 fp) hhomes h2 (by decide) (by decide) (by decide)
  have hpool : ∀ r ∈ rvGprTmpPool, r ≠ 0 := by decide
  have hkept : ∀ l, Home l → execAll (rv64 fp) ld1 σ l = σ l := fun l hl =>
    (hrun1 σ).2 l hl.ne_scratch.2.1 hl.ne_scratch.1
  obtain ⟨hvalue2, hframe2⟩ := hrun2 (execAll (rv64 fp) ld1 σ)
  have hfirst : execAll (rv64 fp) ld2 (execAll (rv64 fp) ld1 σ) (.x rs1) =
      loadedValue c.vmap σ a := by
    rw [← (hrun1 σ).1]
    refine hframe2 _ ?_ ?_ <;> rintro heq <;> obtain rfl := Loc.x.inj heq <;>
      exact absurd hr1 (by decide)
  obtain ⟨other, hexec⟩ := execInst_alu fp
    (execAll (rv64 fp) ld2 (execAll (rv64 fp) ld1 σ)) funct
    (hpool rd (mem_of_getElem? hrd)) (ne_zero_of_place (by decide) hr1)
    (ne_zero_of_place (by decide) hr2)
  refine ⟨other, ?_⟩
  rw [homeOf_withGpr, execAll_append, execAll_append, execAll, execAll, hexec, hfirst, hvalue2,
    loadedValue_congr hhomes h2 hkept]

theorem cast_run (hhomes : HomesOk c.vmap)
    (h : CastCode desc c base code) : ∃ a, desc.operands = [a] ∧ ∀ fp σ,
      execAll (rv64 fp) code σ (homeOf base.vmap desc.dest) = loadedValue c.vmap σ a := by
  obtain @⟨a, rd, rs, ld, hops, hrd, hld⟩ := h
  refine ⟨a, hops, fun fp σ => ?_⟩
  obtain ⟨hr, hrun⟩ := run_gprLoad (rv64 fp) hhomes hld (by decide) (by decide) (by decide)
  have hpool : ∀ r ∈ rvGprTmpPool, r ≠ 0 := by decide
  rw [homeOf_withGpr, execAll_append, execAll, execAll, execInst_mv rs
    (hpool rd (mem_of_getElem? hrd)) (ne_zero_of_place (by decide) hr),
    Function.update_self, (hrun σ).1]

theorem low_loadedValue {w : Nat} (h : w ≤ 32 ∨ ∀ imm, op.value = .immI64 imm → Loadable imm) :
    (loadedValue vmap σ op).setWidth w = (operandValue vmap σ op).setWidth w := by
  unfold loadedValue
  split
  · next imm hop =>
    rw [operandValue, hop]
    simp only
    obtain hw | hload := h
    · rw [← setWidth_setWidth_of_le _ hw, li64Value_low, setWidth_setWidth_of_le _ hw]
    · rw [(li64Value_eq_iff imm).2 (hload imm hop)]
  · rfl

section Alu
variable {o : BinOp} {t : IntTy} {funct : BitVec 7 × BitVec 3} {x y other : BitVec 64}

theorem alu_exact {r : BitVec 64} (hfunct : intFunct o.opcode = some funct)
    (hr : o.meaning x y = some r) : aluResult funct.1 funct.2 x y other = r := by
  cases o <;> cases hfunct
  case lshr | shl | ashr =>
    obtain ⟨hb, hr⟩ := Option.ite_none_right_eq_some.1 hr
    cases hr
    simp only [aluResult, Nat.mod_eq_of_lt hb]
    rfl
  case sdiv | srem =>
    obtain ⟨hb, hr⟩ := Option.ite_none_left_eq_some.1 hr
    cases hr
    exact if_neg fun h => hb (.inl h)
  case udiv | urem =>
    obtain ⟨hb, hr⟩ := Option.ite_none_left_eq_some.1 hr
    cases hr
    exact if_neg hb
  all_goals exact Option.some.inj hr

/-- What the instruction of a sound operation computes is right in the low bits. -/
theorem alu_sound {r : BitVec t.bits} (h : (IntOp.binary o t).sound = true)
    (hfunct : intFunct o.opcode = some funct)
    (hr : o.meaning (x.setWidth t.bits) (y.setWidth t.bits) = some r) :
    (aluResult funct.1 funct.2 x y other).setWidth t.bits = r := by
  have hle := bits_le t
  by_cases ht : t = .i64
  · subst ht
    have hid : ∀ z : BitVec 64, z.setWidth IntTy.i64.bits = z := setWidth_eq
    rw [hid, hid] at hr
    exact (hid _).trans (alu_exact hfunct hr)
  cases o with
  | add | sub | mul | and | or | xor =>
    cases hfunct
    cases hr
    first
      | exact setWidth_add x y hle
      | exact setWidth_sub x y hle
      | exact setWidth_mul x y hle
      | exact setWidth_and
      | exact setWidth_or
      | exact setWidth_xor
  | shl =>
    cases hfunct
    obtain ⟨hb, hr⟩ := Option.ite_none_right_eq_some.1 hr
    cases hr
    have hamount : y.toNat % 64 = (y.setWidth t.bits).toNat := by
      apply low_amount rfl
      · cases t <;> first | decide | exact absurd h (by decide)
      · omega
    change (x <<< (y.toNat % 64)).setWidth t.bits = _
    rw [hamount]
    exact setWidth_shiftLeft_of_le hle
  | lshr | ashr | sdiv | srem | udiv | urem => exact absurd (eq_of_beq h) ht

theorem aluResult_other (hfunct : intFunct o.opcode = some funct) :
    aluResult funct.1 funct.2 x y other = aluResult funct.1 funct.2 x y 0 := by
  cases o <;> cases hfunct <;> rfl

/-- Operands of an operation that is not sound, and their result in LLVM. -/
def wrongOperands (o : BinOp) (t : IntTy) : BitVec 64 × BitVec 64 × BitVec 64 :=
  match o with
  | .shl => (1, 2, 1)
  | .lshr | .ashr => if t = .i1 then (4, 2, 0) else (1 <<< t.bits, 1, 0)
  | _ => (3 <<< t.bits, (2 <<< t.bits) + 1, 0)

theorem alu_unsound (h : (IntOp.binary o t).sound = false)
    (hfunct : intFunct o.opcode = some funct) :
    let w := wrongOperands o t
    (IntOp.binary o t).meaning [w.1, w.2.1] = some w.2.2 ∧
      (aluResult funct.1 funct.2 w.1 w.2.1 0).setWidth t.bits ≠ w.2.2.setWidth t.bits := by
  cases o <;> cases hfunct <;> cases t <;>
    first
      | exact absurd h (by decide)
      | decide

end Alu

theorem code_of_ends {x : RvM Unit} {Q : RvDirectCtx → List RvInst → Prop} (h : Ends c x Q)
    (hrun : x c = some ((), c')) :
    ∃ base code, Q base code ∧ c'.code = c.code ++ code ∧ c'.vmap = base.vmap := by
  rw [← withCode_nil c] at hrun
  obtain ⟨base, code, rfl, hbase, hcode⟩ := h [] () c' hrun
  exact ⟨base, code, hcode, congrArg (· ++ code) hbase, rfl⟩

theorem binary_run {o : BinOp} {funct : BitVec 7 × BitVec 3} (hok : MapOk c)
    (hop : desc.op = o.opcode) (hfunct : intFunct o.opcode = some funct)
    (hrun : rvCompileEmit remap desc c = some ((), c')) :
    ∃ code a b, c'.code = c.code ++ code ∧ desc.operands = [a, b] ∧ ∀ fp σ, ∃ other,
      execAll (rv64 fp) code σ (homeOf c'.vmap desc.dest) =
        aluResult funct.1 funct.2 (loadedValue c.vmap σ a) (loadedValue c.vmap σ b) other := by
  have hemit : emitIntBinop desc funct c = some ((), c') := by
    have hemit := of_inBlock hrun
    rw [hop] at hemit
    cases o <;> cases hfunct <;> exact hemit
  obtain ⟨base, code, hbin, hcode, hmap⟩ := code_of_ends (ends_binopCode desc funct) hemit
  obtain ⟨a, b, hops, hexec⟩ := binop_run hok.homes hbin
  rw [hmap]
  exact ⟨code, a, b, hcode, hops, hexec⟩

theorem move_run (hok : MapOk c) (hop : desc.op ∈ [Opcode.trunc, .zext, .sext, .bitcast])
    (hrun : rvCompileEmit remap desc c = some ((), c')) :
    ∃ code a, c'.code = c.code ++ code ∧ desc.operands = [a] ∧ ∀ fp σ,
      execAll (rv64 fp) code σ (homeOf c'.vmap desc.dest) = loadedValue c.vmap σ a := by
  have hemit : emitIntCast desc c = some ((), c') := by
    have hemit := of_inBlock hrun
    simp only [mem_cons, not_mem_nil, or_false] at hop
    obtain hop | hop | hop | hop := hop <;> rw [hop] at hemit <;> exact hemit
  obtain ⟨base, code, hcast, hcode, hmap⟩ := code_of_ends (ends_castCode desc) hemit
  obtain ⟨a, hops, hexec⟩ := cast_run hok.homes hcast
  rw [hmap]
  exact ⟨code, a, hcode, hops, hexec⟩

section Right
variable {k : IntOp} {P : BitVec 64 → Prop} {o : BinOp} {t : IntTy}

theorem right_of_sound (h : k.sound = true)
    (hP : k.wide = true → ∀ imm, P imm → Loadable imm) : Right k P := by
  intro remap fp c c' desc hok hdesc hconst hrun
  have hop := hdesc.1
  have hlow : ∀ t : IntTy, (t = .i64 → ∀ imm, P imm → Loadable imm) →
      ∀ op ∈ desc.operands, ∀ σ, (loadedValue c.vmap σ op).setWidth t.bits =
        (operandValue c.vmap σ op).setWidth t.bits := by
    intro t ht op hmem σ
    refine low_loadedValue ?_
    by_cases hfull : t = .i64
    · exact .inr fun imm himm => ht hfull imm (hconst op hmem imm himm)
    · exact .inl (by cases t <;> first | decide | exact absurd rfl hfull)
  cases k with
  | binary o t =>
    obtain ⟨funct, hfunct⟩ : ∃ funct, intFunct o.opcode = some funct := by
      cases o <;> exact ⟨_, rfl⟩
    obtain ⟨code, a, b, hcode, hops, hexec⟩ := binary_run hok hop hfunct hrun
    refine ⟨code, hcode, fun σ r hr => ?_⟩
    have hlow' := hlow t fun ht => hP (beq_iff_eq.2 ht)
    rw [hops] at hr hlow'
    obtain ⟨r', hr', rfl⟩ : ∃ r', o.meaning ((operandValue c.vmap σ a).setWidth t.bits)
        ((operandValue c.vmap σ b).setWidth t.bits) = some r' ∧ r'.setWidth 64 = r :=
      Option.map_eq_some_iff.1 hr
    obtain ⟨other, hvalue⟩ := hexec fp σ
    rw [← hlow' a (by simp) σ, ← hlow' b (by simp) σ] at hr'
    rw [hvalue]
    exact (alu_sound h hfunct hr').trans (setWidth_zeroExtend_self r' (bits_le t)).symm
  | icmp pred t =>
    have hemit := of_inBlock hrun
    rw [hop] at hemit
    cases hemit
  | zext src dst | sext src dst =>
    obtain ⟨code, a, hcode, hops, -⟩ := move_run hok (by simp [hop, IntOp.opcode]) hrun
    refine ⟨code, hcode, fun σ r hr => ?_⟩
    rw [hops] at hr
    obtain ⟨hlt, -⟩ := Option.ite_none_right_eq_some.1 hr
    exact absurd h (by simp [IntOp.sound, hlt])
  | trunc src dst =>
    obtain ⟨code, a, hcode, hops, hexec⟩ := move_run hok (by simp [hop, IntOp.opcode]) hrun
    refine ⟨code, hcode, fun σ r hr => ?_⟩
    rw [hops] at hr
    obtain ⟨hlt, hr⟩ := Option.ite_none_right_eq_some.1 hr
    cases hr
    rw [hexec]
    refine hlow dst (fun hfull => ?_) a (by simp [hops]) σ
    have hle := bits_le src
    rw [hfull] at hlt
    exact absurd hlt (Nat.not_lt.2 hle)
  | bitcast t =>
    obtain ⟨code, a, hcode, hops, hexec⟩ := move_run hok (by simp [hop, IntOp.opcode]) hrun
    refine ⟨code, hcode, fun σ r hr => ?_⟩
    rw [hops] at hr
    cases hr
    rw [hexec]
    exact hlow t (fun ht => hP (beq_iff_eq.2 ht)) a (by simp [hops]) σ

theorem twoParams_mapOk : MapOk twoParams :=
  have hbegin : rvCompileBegin rvFeatGc twoParamsFunc twoParams.symbols twoParams.obj 64 =
      some twoParams := by decide
  rvCompileBegin_mapOk hbegin

/-- The value that right code of an operation on two operands leaves. -/
theorem binary_of_right {funct : BitVec 7 × BitVec 3} {a b : LrOperand} {r : BitVec 64}
    (hright : Right (.binary o t) P) (hfunct : intFunct o.opcode = some funct)
    (ha : t.Is a.type) (hb : t.Is b.type)
    (hconst : ∀ op ∈ [a, b], ∀ imm, op.value = .immI64 imm → P imm)
    (hrun : rvCompileEmit id (sampleInst o.opcode t.kind [a, b]) twoParams = some ((), c'))
    (σ : RvState) (hr : (IntOp.binary o t).meaning
      [operandValue twoParams.vmap σ a, operandValue twoParams.vmap σ b] = some r) :
    (aluResult funct.1 funct.2 (loadedValue twoParams.vmap σ a)
      (loadedValue twoParams.vmap σ b) 0).setWidth t.bits = r.setWidth t.bits := by
  have hdesc : (IntOp.binary o t).Encodes (sampleInst o.opcode t.kind [a, b]) :=
    ⟨rfl, ⟨0, rfl⟩, .cons ha (.cons hb .nil)⟩
  obtain ⟨code, hcode, hexec⟩ := hright id noArith _ _ _ twoParams_mapOk hdesc hconst hrun
  obtain ⟨code', a', b', hcode', hops, hvalue⟩ := binary_run twoParams_mapOk rfl hfunct hrun
  cases hops
  obtain rfl : code = code' := append_cancel_left (hcode.symm.trans hcode')
  obtain ⟨other, hvalue⟩ := hvalue noArith σ
  rw [aluResult_other hfunct] at hvalue
  rw [← hvalue]
  exact hexec σ r hr

theorem move_of_right {a : LrOperand} {r : BitVec 64} (hright : Right k P)
    (hop : k.opcode ∈ [Opcode.trunc, .zext, .sext, .bitcast])
    (htypes : List.Forall₂ (fun t op => IntTy.Is t op.type) k.operandTypes [a])
    (hconst : ∀ op ∈ [a], ∀ imm, op.value = .immI64 imm → P imm)
    (hrun : rvCompileEmit id (sampleInst k.opcode k.resultType.kind [a]) twoParams = some ((), c'))
    (σ : RvState) (hr : k.meaning [operandValue twoParams.vmap σ a] = some r) :
    (loadedValue twoParams.vmap σ a).setWidth k.resultType.bits = r.setWidth k.resultType.bits := by
  obtain ⟨code, hcode, hexec⟩ := hright id noArith _ _ _ twoParams_mapOk
    ⟨rfl, ⟨0, rfl⟩, htypes⟩ hconst hrun
  obtain ⟨code', a', hcode', hops, hvalue⟩ := move_run twoParams_mapOk hop hrun
  cases hops
  obtain rfl : code = code' := append_cancel_left (hcode.symm.trans hcode')
  rw [← hexec σ r hr, hvalue noArith σ]

/-- What is above the operand becomes a part of the result. -/
theorem not_right_extension {src dst : IntTy} (hk : k = .zext src dst ∨ k = .sext src dst)
    (hlt : src.bits < dst.bits) : ¬ Right k P := by
  intro hright
  have hop : k.opcode ∈ [Opcode.trunc, .zext, .sext, .bitcast] := by
    obtain rfl | rfl := hk <;> simp [IntOp.opcode]
  obtain ⟨c', hrun⟩ : ∃ c', rvCompileEmit id
      (sampleInst k.opcode k.resultType.kind [sampleOp 1 src]) twoParams = some ((), c') := by
    obtain rfl | rfl := hk <;> cases src <;> cases dst <;> exact ⟨_, rfl⟩
  have h := move_of_right (r := 0) hright hop
    (by obtain rfl | rfl := hk <;> exact .cons ⟨0, rfl⟩ .nil) (by simp [sampleOp]) hrun
    (fun _ => 1 <<< src.bits)
    (by obtain rfl | rfl := hk <;> cases src <;> cases dst <;>
      first | exact absurd hlt (by decide) | decide)
  revert h
  obtain rfl | rfl := hk <;> cases src <;> cases dst <;>
    first | exact absurd hlt (by decide) | decide

theorem sound_of_right (hright : Right k P) : k.sound = true := by
  by_contra hno
  have hunsound : k.sound = false := Bool.eq_false_of_not_eq_true hno
  cases k with
  | binary o t =>
    obtain ⟨funct, hfunct⟩ : ∃ funct, intFunct o.opcode = some funct := by
      cases o <;> exact ⟨_, rfl⟩
    obtain ⟨c', hrun⟩ : ∃ c', rvCompileEmit id
        (sampleInst o.opcode t.kind [sampleOp 1 t, sampleOp 2 t]) twoParams = some ((), c') := by
      cases o <;> cases t <;> exact ⟨_, rfl⟩
    obtain ⟨hr, hwrong⟩ := alu_unsound hunsound hfunct
    exact hwrong (binary_of_right hright hfunct ⟨0, rfl⟩ ⟨0, rfl⟩ (by simp [sampleOp]) hrun
      (fun l => if l = .x 10 then (wrongOperands o t).1 else (wrongOperands o t).2.1) hr)
  | icmp pred t => cases hunsound
  | zext src dst =>
    exact not_right_extension (.inl rfl) (by simpa [IntOp.sound] using hunsound) hright
  | sext src dst =>
    exact not_right_extension (.inr rfl) (by simpa [IntOp.sound] using hunsound) hright
  | trunc src dst => cases hunsound
  | bitcast t => cases hunsound

theorem runs_bind {α β : Type} {x : RvM α} {f : α → RvM β} {a : α} {z : β × RvDirectCtx}
    (hx : x c = some (a, c')) (hf : f a c' = some z) : (x >>= f) c = some z := by
  change (x c).bind _ = some z
  rw [hx]
  exact hf

theorem emit_runs {inst : RvInst} (h : 4 * c.code.length + 4 ≤ c.buflen) :
    rvEmit32 inst c = some ((), withCode c [inst]) := if_neg (Nat.not_lt.2 h)

theorem li64_runs {scratch : Reg} (h : ¬ Loadable imm) (hroom : 4 * c.code.length + 8 ≤ c.buflen) :
    ∃ i j, rvEmitLi64 rd scratch imm c = some ((), withCode c [i, j]) := by
  have hband := Decidable.not_not.1 h
  have hsmall : -2 ^ 31 ≤ imm.toInt ∧ imm.toInt < 2 ^ 31 := by omega
  have hbig : ¬ (-2048 ≤ (imm.setWidth 32).toInt ∧ (imm.setWidth 32).toInt ≤ 2047) := by
    rw [toInt_setWidth_32 hsmall]
    omega
  rw [rvEmitLi64, if_pos hsmall, rvEmitLi32, if_neg hbig]
  have hsecond : ∀ i j, rvEmit32 j (withCode c [i]) = some ((), withCode c [i, j]) := by
    intro i j
    have hlen : (withCode c [i]).code.length = c.code.length + 1 := length_append
    have hbuf : (withCode c [i]).buflen = c.buflen := rfl
    rw [emit_runs (by omega), withCode_withCode]
    rfl
  exact ⟨_, _, runs_bind (emit_runs (by omega)) (hsecond _ _)⟩

/-- An operand that leaves the other one as it is. -/
def neutral : BinOp → BitVec 64
  | .add | .sub | .or | .xor | .shl | .lshr | .ashr => 0
  | .and | .urem => -1
  | .mul | .sdiv | .udiv => 1
  | .srem => BitVec.intMin 64

theorem meaning_neutral (o : BinOp) {x : BitVec 64} (hmin : x ≠ BitVec.intMin 64)
    (hones : x ≠ -1) : o.meaning x (neutral o) = some x := by
  cases o with
  | srem =>
    have hov : ¬ (neutral .srem = 0 ∨ x = BitVec.intMin 64 ∧ neutral .srem = -1) := by
      rintro (h | h)
      · exact absurd h (by decide)
      · exact hmin h.1
    refine (if_neg hov).trans (congrArg some (eq_of_toInt_eq ?_))
    have hlow : x.toInt ≠ -2 ^ 63 := fun h => hmin (eq_of_toInt_eq h)
    have hmod : (neutral .srem).toInt = -2 ^ 63 := rfl
    have hge := x.le_toInt
    have hlt := x.toInt_lt
    rw [toInt_srem, hmod, Int.tmod_neg]
    obtain hneg | hpos := Int.lt_or_le x.toInt 0
    · rw [← Int.neg_neg x.toInt, Int.neg_tmod, Int.tmod_eq_of_lt (by omega) (by omega)]
    · exact Int.tmod_eq_of_lt hpos hlt
  | urem =>
    refine congrArg some (umod_eq_of_lt (?_ : x < neutral .urem))
    change x < BitVec.allOnes 64
    exact lt_allOnes_iff.2 hones
  | and => exact congrArg some and_allOnes
  | _ => simp [BinOp.meaning, neutral]

def constOp (imm : BitVec 64) : LrOperand := ⟨.immI64 imm, some (.scalar 0 .i64), 0⟩

theorem constOp_runs (c : RvDirectCtx) (s1 s2 : Reg) (h : ¬ Loadable imm)
    (hroom : 4 * c.code.length + 8 ≤ c.buflen) :
    ∃ i j, rvOperandGpr (constOp imm) s1 s2 c = some (s1, withCode c [i, j]) := by
  obtain ⟨i, j, hrun⟩ := li64_runs h hroom
  exact ⟨i, j, runs_bind hrun rfl⟩

theorem binary_compiles {o : BinOp} (h : ¬ Loadable imm) :
    ∃ c', rvCompileEmit id (sampleInst o.opcode .i64 [constOp imm, sampleOp 2 .i64]) twoParams =
      some ((), c') := by
  obtain ⟨i, j, hrun⟩ := constOp_runs { twoParams with gprNext := 1 } rvT1 rvT0 h (by decide)
  cases o <;>
    exact ⟨_, runs_bind rfl (runs_bind rfl (runs_bind rfl (runs_bind rfl (runs_bind rfl
      (runs_bind rfl (runs_bind hrun rfl))))))⟩

theorem bitcast_compiles (h : ¬ Loadable imm) :
    ∃ c', rvCompileEmit id (sampleInst .bitcast .i64 [constOp imm]) twoParams = some ((), c') := by
  obtain ⟨i, j, hrun⟩ := constOp_runs twoParams rvT1 rvT2 h (by decide)
  exact ⟨_, runs_bind rfl (runs_bind rfl (runs_bind rfl (runs_bind hrun rfl)))⟩

theorem not_right_const (hwide : k.wide = true) (h : ¬ Loadable imm)
    (himm : P imm) : ¬ Right k P := by
  intro hright
  obtain ⟨hlow, hhigh⟩ := Decidable.not_not.1 h
  refine h ((li64Value_eq_iff imm).1 ?_)
  cases k with
  | binary o t =>
    obtain rfl := eq_of_beq hwide
    obtain ⟨funct, hfunct⟩ : ∃ funct, intFunct o.opcode = some funct := by
      cases o <;> exact ⟨_, rfl⟩
    obtain ⟨c', hrun⟩ := binary_compiles (o := o) h
    have hsame : ∀ x : BitVec 64, x.toNat % 2 ^ 32 = imm.toNat % 2 ^ 32 →
        o.meaning x (neutral o) = some x := by
      intro v hv
      rw [toInt_eq_toNat_cond] at hlow hhigh
      refine meaning_neutral o ?_ ?_ <;> rintro rfl
      · have hmin : (BitVec.intMin 64).toNat = 2 ^ 63 := rfl
        split at hlow <;> omega
      · have hmin : (-1 : BitVec 64).toNat = 2 ^ 64 - 1 := rfl
        split at hlow <;> omega
    have hid : ∀ x : BitVec 64, x.setWidth IntTy.i64.bits = x := setWidth_eq
    have hr : (IntOp.binary o .i64).meaning [imm, neutral o] = some imm := by
      change (o.meaning (imm.setWidth IntTy.i64.bits)
        ((neutral o).setWidth IntTy.i64.bits)).map _ = _
      rw [hid, hid]
      exact (congrArg _ (hsame imm rfl)).trans (congrArg some (hid imm))
    have hvalue := binary_of_right (a := constOp imm) (b := sampleOp 2 .i64) hright hfunct
      ⟨0, rfl⟩ ⟨0, rfl⟩ (by simp [sampleOp, constOp, himm]) hrun (fun _ => neutral o) hr
    rw [hid, hid] at hvalue
    refine (alu_exact hfunct (hsame (li64Value imm) ?_)).symm.trans hvalue
    simpa using congrArg BitVec.toNat (li64Value_low imm)
  | bitcast t =>
    obtain rfl := eq_of_beq hwide
    obtain ⟨c', hrun⟩ := bitcast_compiles h
    exact move_of_right (r := imm) hright (by simp [IntOp.opcode]) (.cons ⟨0, rfl⟩ .nil)
      (by simp [constOp, himm]) hrun (fun _ => 0) rfl
  | icmp _ _ | zext _ _ | sext _ _ | trunc _ _ => cases hwide

end Right

/-- The code of an operation is right exactly if the operation is sound and, if its result
depends on all bits of a constant, all constants are loaded as they are. -/
theorem right_iff (k : IntOp) (P : BitVec 64 → Prop) :
    Right k P ↔ k.sound = true ∧ (k.wide = true → ∀ imm, P imm → Loadable imm) :=
  ⟨fun h => ⟨sound_of_right h, fun hwide _ himm =>
      by_contra fun hno => not_right_const hwide hno himm h⟩,
    fun h => right_of_sound h.1 h.2⟩

def sampleShift : LrInst := sampleInst .lshr .i8 [sampleOp 1 .i8, sampleOp 2 .i8]

def sampleState : RvState := fun l => if l = .x 10 then 0x180 else 1

/-- `lshr i8` of 0x80 by 1, with the bit above the byte set: the bit is shifted in. -/
theorem lshr_shifts_bit_in :
    let vmap := (4, ⟨.gpr, 28⟩) :: twoParams.vmap
    let c' := { twoParams with
      code := [rvEncR 0 11 10 5 28 rvOpcodeOp], gprNext := 1, vmap := vmap }
    (IntOp.binary .lshr .i8).Encodes sampleShift ∧
      rvCompileEmit id sampleShift twoParams = some ((), c') ∧
      (IntOp.binary .lshr .i8).meaning
        (sampleShift.operands.map (operandValue twoParams.vmap sampleState)) = some 0x40 ∧
      (execAll (rv64 noArith) c'.code sampleState (homeOf c'.vmap sampleShift.dest)).setWidth 8 =
        (0xC0 : BitVec 8) ∧
      ¬ ∀ k, Right k fun _ => True :=
  ⟨⟨rfl, ⟨0, rfl⟩, .cons ⟨0, rfl⟩ (.cons ⟨0, rfl⟩ .nil)⟩, by decide, by decide,
    by decide, fun h => absurd (sound_of_right (h (.binary .lshr .i8))) (by decide)⟩

end Liric.Guarantees.RiscvIntegers
