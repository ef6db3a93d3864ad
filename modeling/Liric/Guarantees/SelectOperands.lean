import Liric.Guarantees.X8664Values

/-!
# SELECT on x86_64

The operands of a SELECT are loaded between the test and the conditional move that reads
its flag. What the move leaves is one word of eight bytes, so a longer value is selected if
it is held by a pointer.
-/
namespace Liric.Guarantees.SelectOperands
open Source.Ir Source.X8664 Lib Lib.X64 List
open Lib.A64 (load store load_store_word)
open X8664Code X8664Values

structure Selection where
  host : X86Host
  address : RelocRef → BitVec 64
  op0 : LrOperand
  op1 : LrOperand
  op2 : LrOperand
  dest : Nat
  /-- The size of the type. -/
  size : Nat

namespace Selection
variable (s : Selection) (c : X86Ctx)

/-- The context behind the test of the condition. -/
def tested : X86Ctx :=
  ((do emitLoadOperand s.host true s.op0 x86Rax; emitInst (.testByte x86Rax x86Rax) : X86M Unit)
    c).2

/-- The instructions between the test and the conditional move. -/
def between : List X86Inst :=
  (selectOperands s.host s.op1 s.op2 (s.tested c)).2.code.drop (s.tested c).code.length

def compiled : X86Ctx := (emitSelect s.host s.op0 s.op1 s.op2 s.dest c).2

/-- The state behind the code of the SELECT. -/
def after (σ : State) : State := run s.address ((s.compiled c).code.drop c.code.length) σ

/-- The operand that the condition chooses: the second if its byte is 0. -/
def chosen (σ : State) : LrOperand :=
  if (operandWord s.host s.address (s.compiled c) σ s.op0).setWidth 8 = 0 then s.op2 else s.op1

/-- The bytes of the operands that are in memory do not lie in the slot of the result. -/
def DataApart (σ : State) : Prop :=
  8 < s.size → ∀ op ∈ [s.op1, s.op2], ∀ v, op.value = .vreg v → ∀ i < s.size, ∀ j < 8,
    dataPlace (s.compiled c) σ v + BitVec.ofNat 64 i ≠
      place σ x86Rbp ((s.compiled c).frame.slot s.dest).off + BitVec.ofNat 64 j

/-- The destination has every byte of the operand that the condition chooses, and the flags
of the test reach the conditional move. -/
structure Exact : Prop where
  flags : ∀ inst ∈ s.between c, inst.changesFlags = false
  bytes : ∀ σ, Agrees c (s.compiled c) σ → s.DataApart c σ → ∀ i < s.size,
    vregByte (s.compiled c) (s.after c σ) s.size s.dest i =
      operandByte s.host s.address (s.compiled c) σ s.size (s.chosen c σ) i

/-- The operand is a vreg whose word is the address of its bytes. -/
def HeldByPointer (op : LrOperand) : Prop :=
  ∃ v, op.value = .vreg v ∧ (c.frame.lookupStaticAllocaOffset v ≠ 0 ∨ c.frame.vregSlotSize v = 8)

/-- No constant is added to an address behind the test. -/
def KeepsFlags : Prop := ¬ Adds s.host s.op1 ∧ ¬ Adds s.host s.op2

/-- A constant condition chooses one operand, a vreg may choose either. -/
def MayChoose (op : LrOperand) : Prop :=
  match s.op0.value with
  | .vreg _ => op ∈ [s.op1, s.op2]
  | _ => op = if (operandWord s.host s.address {} ⟨0, false, 0⟩ s.op0).setWidth 8 = 0 then s.op2
      else s.op1

/-- The result has only room for a pointer, and the values that the condition may choose are
held by one. -/
def ByPointer : Prop :=
  c.frame.vregSlotSize s.dest = 8 ∧ ∀ op, s.MayChoose op → HeldByPointer c op

/-- What the callers of the target see to: operands of the kinds that there are, a result
that is no static alloca, and a frame of less than 2 GiB. -/
structure WellFormed : Prop where
  op0 : IsOperand s.host s.op0
  op1 : IsOperand s.host s.op1
  op2 : IsOperand s.host s.op2
  dest : c.frame.lookupStaticAllocaOffset s.dest = 0
  frame : c.frame.stackSize.toNat < 2 ^ 31

end Selection

section Select
variable {host : X86Host} {address : RelocRef → BitVec 64} {slot : Nat → StackSlot}
  {keep : Nat → Bool} {strict : Bool} {n : Nat} {c : X86Ctx} {σ : State} {op0 op1 op2 : LrOperand}
  {a0 a1 a2 : BitVec 64} {dest : Nat}

instance appends_selectOperands [Loads strict true host op1] [Loads strict true host op2] :
    Appends (target address keep strict) (selectOperands host op1 op2) := Appends.bind

theorem emits_selectOperands (hadds : ¬ Adds host op1 ∧ ¬ Adds host op2)
    (h1 : Holds host address slot keep (n + 2) c σ op1 a1)
    (h2 : Holds host address slot keep (n + 2) c σ op2 a2) :
    Emits (target address keep true) (Fits slot keep) (selectOperands host op1 op2) c σ
      fun _ c' σ' => (σ'.reg x86Rax = a2 ∧ σ'.reg x86Rcx = a1 ∧ σ'.reg x86Rbp = σ.reg x86Rbp ∧
        σ'.mem = σ.mem ∧ ∀ v, Ready (n + 2) c v → Ready n c' v) ∧ σ'.zf = σ.zf := by
  have hload₁ : Loads true true host op1 := ⟨fun _ => hadds.1⟩
  have hload₂ : Loads true true host op2 := ⟨fun _ => hadds.2⟩
  apply Emits.withZf
  apply Emits.seq fits_final
  · exact emits_emitLoadOperand (by decide) op2 ⟨_, h2⟩
  intro _ c₁ σ₁ _ hload₂
  have h1' := hload₂.holds op1 a1 h1
  apply (emits_emitLoadOperand (by decide) op1 ⟨_, h1'⟩).mono
  intro _ c₂ σ₂ _ hload₁
  refine ⟨?_, hload₁.value a1 h1', ?_, hload₁.mem.trans hload₂.mem,
    fun v hv => hload₁.ready v (hload₂.ready v hv)⟩
  · rw [hload₁.regs.reg x86Rax (by decide)]
    exact hload₂.value a2 h2
  · rw [hload₁.regs.reg x86Rbp (by decide), hload₂.regs.reg x86Rbp (by decide)]

instance appends_emitSelect :
    Appends (target address keep false) (emitSelect host op0 op1 op2 dest) :=
  Appends.bind

/-- The word of the chosen operand goes to the slot of the result. -/
theorem emits_emitSelect (hadds : ¬ Adds host op1 ∧ ¬ Adds host op2)
    (h0 : Holds host address slot keep (n + 4) c σ op0 a0)
    (h1 : Holds host address slot keep (n + 4) c σ op1 a1)
    (h2 : Holds host address slot keep (n + 4) c σ op2 a2) (hdest : Ready (n + 4) c dest) :
    Emits (target address keep false) (Fits slot keep) (emitSelect host op0 op1 op2 dest) c σ
      fun _ c' σ' => σ'.reg x86Rbp = σ.reg x86Rbp ∧ Slotted c' dest ∧
        σ'.mem = store σ.mem (place σ x86Rbp (c'.frame.slot dest).off) 8
          (if a0.setWidth 8 = 0 then a2 else a1) := by
  apply Emits.seq fits_final
  · exact emits_emitLoadOperand (by decide) op0 ⟨_, h0⟩
  intro _ c₁ σ₁ _ hload
  apply Emits.seq fits_final
  · exact emits_emitInst _
  rintro _ c₂ σ₂ - ⟨hc₂, rfl⟩
  have hframe₂ : c₂.frame = c₁.frame := by
    rw [SameBut] at hc₂
    rw [hc₂]
  have hzf : (exec address σ₁ (.testByte x86Rax x86Rax)).zf = decide (a0.setWidth 8 = 0) := by
    simp only [exec, hload.value a0 h0, BitVec.and_self]
  generalize hσ₂ : exec address σ₁ (.testByte x86Rax x86Rax) = σ₂ at hzf ⊢
  have hreg₂ : σ₂.reg = σ₁.reg := by rw [← hσ₂]; rfl
  have hmem₂ : σ₂.mem = σ₁.mem := by rw [← hσ₂]; rfl
  have h1' := Holds.of_sameBut (hload.holds op1 a1 h1) hc₂ hreg₂ hmem₂
  have h2' := Holds.of_sameBut (hload.holds op2 a2 h2) hc₂ hreg₂ hmem₂
  apply Emits.seq fits_final (Emits.forget (emits_selectOperands hadds h1' h2'))
  rintro _ c₃ σ₃ - ⟨⟨hrax, hrcx, hrbp, hmem, hready⟩, hzf₃⟩
  apply Emits.seq fits_final
  · exact emits_emitInst _
  rintro _ c₄ σ₄ - ⟨hc₄, rfl⟩
  have hresult : (exec address σ₃ (.cmovne x86Rax x86Rcx)).reg x86Rax =
      (if a0.setWidth 8 = 0 then a2 else a1) ∧
      (exec address σ₃ (.cmovne x86Rax x86Rcx)).reg x86Rbp = σ₃.reg x86Rbp ∧
      (exec address σ₃ (.cmovne x86Rax x86Rcx)).mem = σ₃.mem := by
    simp only [exec, hzf₃, hzf, decide_eq_true_eq]
    split
    · exact ⟨hrax, rfl, rfl⟩
    · exact ⟨(set_reg_self ..).trans hrcx, set_reg_of_ne _ _ (by decide), rfl⟩
  generalize exec address σ₃ (.cmovne x86Rax x86Rcx) = σ₄ at hresult ⊢
  obtain ⟨hword, hbase, hmem₄⟩ := hresult
  apply Emits.seq fits_final
  · exact emits_setCachedRegVreg x86Rax uint32Max
  rintro _ c₅ σ₅ - ⟨htag, rfl⟩
  have hready₅ : Ready 1 c₅ dest := by
    have hframe₅ : c₅.frame = c₃.frame := by
      rw [SameBut] at hc₄
      rw [htag.frame, hc₄]
    rw [ready_congr hframe₅]
    refine ready_one (hready dest ?_)
    rw [ready_congr hframe₂]
    exact hload.ready dest hdest
  apply (emits_emitStoreSlot fits_final dest).mono
  rintro _ c' σ' - ⟨hreg, hstore, hslotted⟩
  have hplace : ∀ disp, place σ₅ x86Rbp disp = place σ x86Rbp disp := by
    intro disp
    rw [place, place, hbase, hrbp, hreg₂, hload.regs.reg x86Rbp (by decide)]
  refine ⟨?_, hslotted hready₅, ?_⟩
  · rw [hreg, hbase, hrbp, hreg₂, hload.regs.reg x86Rbp (by decide)]
  · rw [hstore, hplace, hword, hmem₄, hmem, hmem₂, hload.mem]

/-- The addition behind an address changes the flags. -/
theorem mem_emitAddImm {imm : BitVec 64} (himm : imm ≠ 0) (c : X86Ctx) (dst : Reg) :
    ∃ insts, ((do emitAddImm dst imm; invalidateCachedReg dst : X86M Unit) c).2.code =
      c.code ++ insts ∧ ∃ inst ∈ insts, inst.changesFlags = true := by
  have hcode : ∀ (reg : Reg) (t : Nat) (c : X86Ctx), (setCachedRegVreg reg t c).2.code = c.code := by
    intro reg t c
    rw [setCachedRegVreg_snd]
  by_cases hwide : imm.toInt > 2 ^ 31 - 1 ∨ imm.toInt < -2 ^ 31
  · refine ⟨[if imm = 0 ∧ false = false then .clear x86R11 else .movImm x86R11 imm,
      .addReg dst x86R11], ?_, .addReg dst x86R11, by simp, rfl⟩
    rw [emitAddImm, if_neg himm, if_pos hwide]
    change (setCachedRegVreg dst uint32Max (setCachedRegVreg dst uint32Max _).2).2.code = _
    rw [hcode, hcode]
    change (setCachedRegVreg x86R11 uint32Max _).2.code ++ _ = _
    rw [hcode]
    exact append_assoc ..
  · refine ⟨[if 0 ≤ imm.toInt then .addImm dst (imm.setWidth 32)
      else .subImm dst ((-imm).setWidth 32)], ?_, _, mem_singleton_self _, ?_⟩
    · rw [emitAddImm, if_neg himm, if_neg hwide]
      change (setCachedRegVreg dst uint32Max (setCachedRegVreg dst uint32Max _).2).2.code = _
      rw [hcode, hcode]
    · split <;> rfl

theorem mem_emitLoadOperand {op : LrOperand} (h : Adds host op) (c : X86Ctx) (reg : Reg) :
    ∃ insts, (emitLoadOperand host true op reg c).2.code = c.code ++ insts ∧
      ∃ inst ∈ insts, inst.changesFlags = true := by
  obtain ⟨hobj, hoffset, id, hid, hname⟩ := h
  obtain ⟨symName, hsym⟩ := Option.isSome_iff_exists.1 hname
  have hjit : ¬ (host.jit && !host.obj) = true := by simp [hobj]
  obtain ⟨insts, hcode, inst, hmem, hflags⟩ := mem_emitAddImm hoffset
    (emitInst (.address reg ⟨host.remap symName, addressReloc host id symName⟩) c).2 reg
  refine ⟨.address reg ⟨host.remap symName, addressReloc host id symName⟩ :: insts, ?_, inst,
    mem_cons_of_mem _ hmem, hflags⟩
  have hload : emitLoadOperand host true op reg = (do
      emitInst (.address reg ⟨host.remap symName, addressReloc host id symName⟩)
      emitAddImm reg op.globalOffset
      invalidateCachedReg reg) := by
    unfold emitLoadOperand emitLoadGlobal
    rw [hid]
    simp only [if_neg hjit, if_pos hobj, hsym]
  rw [hload, append_cons]
  exact hcode

theorem not_adds_of_code {op : LrOperand} {d : X86Ctx} {reg : Reg}
    (h : ∀ inst ∈ (emitLoadOperand host true op reg d).2.code.drop d.code.length,
      inst.changesFlags = false) : ¬ Adds host op := by
  intro hadds
  obtain ⟨insts, hcode, inst, hmem, hflags⟩ := mem_emitLoadOperand hadds d reg
  rw [hcode, drop_left] at h
  rw [h inst hmem] at hflags
  cases hflags

/-- The flags reach the move unless a constant is added to the address of a global. -/
theorem flags_iff (c : X86Ctx) :
    (∀ inst ∈ (selectOperands host op1 op2 c).2.code.drop c.code.length,
      inst.changesFlags = false) ↔ ¬ Adds host op1 ∧ ¬ Adds host op2 := by
  constructor
  · intro h
    obtain ⟨d, hd⟩ : ∃ d, d = (emitLoadOperand host true op2 x86Rax c).2 := ⟨_, rfl⟩
    have hfirst : (target (fun _ => 0) (fun _ => true) false).Extends c d :=
      hd ▸ (appends_emitLoadOperand x86Rax).step c
    have hsecond : (target (fun _ => 0) (fun _ => true) false).Extends d
        (emitLoadOperand host true op1 x86Rcx d).2 :=
      (appends_emitLoadOperand x86Rcx).step d
    have hsplit : (selectOperands host op1 op2 c).2.code.drop c.code.length =
        d.code.drop c.code.length ++
          (emitLoadOperand host true op1 x86Rcx d).2.code.drop d.code.length := by
      have hwhole : (selectOperands host op1 op2 c).2 = (emitLoadOperand host true op1 x86Rcx d).2 := by
        rw [hd]
        rfl
      rw [hwhole]
      exact hfirst.newCode_trans hsecond
    rw [hsplit] at h
    refine ⟨not_adds_of_code fun inst hmem => h inst (mem_append_right _ hmem), ?_⟩
    have hload : ∀ inst ∈ (emitLoadOperand host true op2 x86Rax c).2.code.drop c.code.length,
        inst.changesFlags = false := fun inst hmem => h inst (mem_append_left _ (hd ▸ hmem))
    exact not_adds_of_code hload
  · intro hadds inst hmem
    have hload₁ : Loads true true host op1 := ⟨fun _ => hadds.1⟩
    have hload₂ : Loads true true host op2 := ⟨fun _ => hadds.2⟩
    have hstep : (target (fun _ => 0) (fun _ => true) true).Extends c
        (selectOperands host op1 op2 c).2 := appends_selectOperands.step c
    simpa [target] using hstep.plain inst hmem

end Select

section Exact
variable {s : Selection} {c : X86Ctx} {σ : State}

theorem Selection.grows (s : Selection) (c : X86Ctx) :
    Grows (fun _ => true) c (s.compiled c) := by
  have happ : Appends (target s.address (fun _ => true) false)
      (emitSelect s.host s.op0 s.op1 s.op2 s.dest) := appends_emitSelect
  exact (happ.step c).1

/-- The word of the chosen operand is in the slot of the result, and no other byte of memory
has changed. -/
theorem select_word (h : s.WellFormed c) (hadds : ¬ Adds s.host s.op1 ∧ ¬ Adds s.host s.op2)
    (hag : Agrees c (s.compiled c) σ) :
    (s.after c σ).reg x86Rbp = σ.reg x86Rbp ∧
      (s.after c σ).mem = store σ.mem (place σ x86Rbp ((s.compiled c).frame.slot s.dest).off) 8
        (operandWord s.host s.address (s.compiled c) σ (s.chosen c σ)) := by
  have hgrows := s.grows c
  have hroom : Room 4 c := by
    have hframe := h.frame
    unfold Room
    omega
  have hfinal : Fits (s.compiled c).frame.slot (fun _ => true) (s.compiled c) := fun _ _ _ => rfl
  have hselect : Emits (target s.address (fun _ => true) false)
      (Fits (s.compiled c).frame.slot fun _ => true) (emitSelect s.host s.op0 s.op1 s.op2 s.dest)
      c σ _ :=
    emits_emitSelect (n := 0) hadds (holds_of_isOperand h.op0 (fun _ _ => rfl) hgrows.statics hag hroom)
      (holds_of_isOperand h.op1 (fun _ _ => rfl) hgrows.statics hag hroom)
      (holds_of_isOperand h.op2 (fun _ _ => rfl) hgrows.statics hag hroom) (.inr hroom)
  have hrun := hselect.after hfinal
  obtain ⟨hbase, -, hmem⟩ := hrun
  refine ⟨hbase, hmem.trans ?_⟩
  rw [loadedWord_byte, loadedWord_eq hadds.1, loadedWord_eq hadds.2, Selection.chosen]
  change store _ _ 8 (if _ then _ else _) = store _ _ 8 _
  split <;> rfl

/-- The word that a vreg has is where its bytes are, if it is held by a pointer. -/
theorem dataPlace_held {d : X86Ctx} (hgrows : Grows (fun _ => true) c d) {v : Nat}
    (h : c.frame.lookupStaticAllocaOffset v ≠ 0 ∨ c.frame.vregSlotSize v = 8) :
    dataPlace d σ v = freshValue d d.frame.slot σ v := by
  refine if_pos ?_
  rw [lookup_congr hgrows.statics]
  exact h.imp_right (vregSlotSize_grows hgrows rfl)

theorem chosen_mem (s : Selection) (c : X86Ctx) (σ : State) : s.chosen c σ ∈ [s.op1, s.op2] := by
  rw [Selection.chosen]
  split
  · simp
  · simp

theorem mayChoose_chosen (s : Selection) (c : X86Ctx) (σ : State) : s.MayChoose (s.chosen c σ) := by
  unfold Selection.MayChoose
  split
  · exact chosen_mem s c σ
  · next hno =>
    have hsame : operandWord s.host s.address (s.compiled c) σ s.op0 =
        operandWord s.host s.address {} ⟨0, false, 0⟩ s.op0 := by
      unfold operandWord
      split
      · next v hv => exact absurd hv (hno v)
      · rfl
    rw [Selection.chosen, hsame]

/-- A result of at most eight bytes is the word, one that is longer is where it points. -/
theorem exact_bytes (h : s.WellFormed c) (hflags : s.KeepsFlags)
    (hsize : s.size ≤ 8 ∨ s.ByPointer c) (hag : Agrees c (s.compiled c) σ)
    (hapart : s.DataApart c σ) {i : Nat} (hi : i < s.size) :
    vregByte (s.compiled c) (s.after c σ) s.size s.dest i =
      operandByte s.host s.address (s.compiled c) σ s.size (s.chosen c σ) i := by
  have hgrows := s.grows c
  obtain ⟨hbase, hmem⟩ := select_word h hflags hag
  have hplace : place (s.after c σ) x86Rbp ((s.compiled c).frame.slot s.dest).off =
      place σ x86Rbp ((s.compiled c).frame.slot s.dest).off := by
    rw [place, place, hbase]
  have hresult : freshValue (s.compiled c) (s.compiled c).frame.slot (s.after c σ) s.dest =
      operandWord s.host s.address (s.compiled c) σ (s.chosen c σ) := by
    have hdest : (s.compiled c).frame.lookupStaticAllocaOffset s.dest = 0 := by
      rw [lookup_congr hgrows.statics, h.dest]
    rw [freshValue, if_neg (not_not.2 hdest), hplace, hmem, load_store_word]
  by_cases hshort : s.size ≤ 8
  · rw [vregByte, if_pos hshort, hresult, operandByte_word hshort]
  · obtain ⟨hdest, hheld⟩ := hsize.resolve_left hshort
    have hmember := chosen_mem s c σ
    obtain ⟨v, hv, hheld⟩ := hheld _ (mayChoose_chosen s c σ)
    have hword : operandWord s.host s.address (s.compiled c) σ (s.chosen c σ) =
        dataPlace (s.compiled c) σ v := by
      rw [dataPlace_held hgrows hheld, operandWord, hv]
    have hbyte : operandByte s.host s.address (s.compiled c) σ s.size (s.chosen c σ) i =
        σ.mem (dataPlace (s.compiled c) σ v + BitVec.ofNat 64 i) := by
      rw [operandByte, hv]
      exact if_neg hshort
    rw [vregByte, if_neg hshort, dataPlace_held hgrows (.inr hdest), hresult, hword, hbyte, hmem]
    exact store_of_apart _ _ (hapart (by omega) _ hmember v hv i hi)

/-- The flags of the test reach the conditional move exactly if no constant is added to an
address behind it. Then a type of at most eight bytes is selected, and a longer one whose
values are held by pointers. -/
theorem select_exact_iff (s : Selection) (c : X86Ctx) (h : s.WellFormed c) :
    (s.size ≤ 8 → (s.Exact c ↔ s.KeepsFlags)) ∧
      (s.Exact c → s.KeepsFlags) ∧ (s.KeepsFlags → s.ByPointer c → s.Exact c) := by
  have honly : s.Exact c → s.KeepsFlags := fun hexact => (flags_iff (s.tested c)).1 hexact.flags
  have hflags : s.KeepsFlags → ∀ inst ∈ s.between c, inst.changesFlags = false := fun hkeeps =>
    (flags_iff (s.tested c)).2 hkeeps
  refine ⟨fun hshort => ⟨honly, fun hkeeps => ⟨hflags hkeeps, ?_⟩⟩, honly, fun hkeeps hheld =>
    ⟨hflags hkeeps, ?_⟩⟩
  · intro σ hag hapart i hi
    exact exact_bytes h hkeeps (.inl hshort) hag hapart hi
  · intro σ hag hapart i hi
    exact exact_bytes h hkeeps (.inr hheld) hag hapart hi

/-- Object mode for a module with a global. -/
def objectHost : X86Host where
  mod :=
    { symbols := ⟨[[103]], [symbolHash [103]], 64, []⟩
      builtin := lrModuleCreateTypes 0
      nextAddr := 11 }
  obj := true
  jit := false

/-- The second operand is the global's byte `globalOffset`. -/
def globalOrFive (globalOffset : BitVec 64) : Selection where
  host := objectHost
  address _ := 4096
  op0 := lrOpVreg 7 none
  op1 := { value := .immI64 5, type := none }
  op2 := { value := .global 0, type := none, globalOffset := globalOffset }
  dest := 3
  size := 8

theorem globalOrFive_wellFormed (globalOffset : BitVec 64) :
    (globalOrFive globalOffset).WellFormed {} where
  op0 := by
    change 7 < uint32Max
    decide
  op1 := trivial
  op2 := .inr rfl
  dest := rfl
  frame := by decide

/-- The address of the global itself is not added to. -/
theorem global_selected :
    (globalOrFive 0).WellFormed {} ∧ (globalOrFive 0).Exact {} :=
  ⟨globalOrFive_wellFormed 0,
    ((select_exact_iff (globalOrFive 0) {} (globalOrFive_wellFormed 0)).1 (by decide)).2
      ⟨fun h => by simpa [globalOrFive] using h.2.1, fun h => by simpa [globalOrFive] using h.2.1⟩⟩

/-- A memory of zeros, where the condition is false. -/
def zeroState : State := ⟨fun _ => 8192, false, fun _ => 0⟩

/-- Eight bytes behind the global are addressed with an addition, and its ZF chooses 5. -/
theorem offset_not_selected :
    (globalOrFive 8).WellFormed {} ∧
      (∃ inst ∈ (globalOrFive 8).between {}, inst.changesFlags = true) ∧
      Agrees {} ((globalOrFive 8).compiled {}) zeroState ∧
      (globalOrFive 8).DataApart {} zeroState ∧
      (globalOrFive 8).chosen {} zeroState = (globalOrFive 8).op2 ∧
      vregByte ((globalOrFive 8).compiled {}) ((globalOrFive 8).after {} zeroState) 8 3 0 = 5 ∧
      operandByte objectHost (fun _ => 4096) ((globalOrFive 8).compiled {}) zeroState 8
        (globalOrFive 8).op2 0 = 8 ∧
      ¬ (globalOrFive 8).Exact {} := by
  have hagrees : Agrees {} ((globalOrFive 8).compiled {}) zeroState :=
    ⟨fun v hv h => absurd h (Nat.ne_of_gt hv), fun v hv h => absurd h (Nat.ne_of_gt hv)⟩
  have hadds : ∃ inst ∈ (globalOrFive 8).between {}, inst.changesFlags = true := by
    decide +kernel
  refine ⟨globalOrFive_wellFormed 8, hadds, hagrees, fun h => absurd h (by decide),
    by decide +kernel, by decide +kernel, by decide +kernel, fun hexact => ?_⟩
  obtain ⟨inst, hmem, hflags⟩ := hadds
  rw [hexact.flags inst hmem] at hflags
  cases hflags

end Exact

end Liric.Guarantees.SelectOperands
