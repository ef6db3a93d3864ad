import Liric.Lib.Staged
import Liric.Source.Target.Aarch64Emit

/-!
# Sequences of A64 code

What the sequences of the target for constants, memory and operands append to the code
and what that code does to the registers. An operand is found in its slot, or in a
register that the target believes to hold it.
-/
namespace Liric.Guarantees.Aarch64Code
open Source.Ir Source.Aarch64 Lib Lib.A64 BitVec

variable {d c' : A64Ctx} {v vreg : Nat} {rd rn : Reg} {op : LrOperand}

/-- Where the code finds the slot of a value. -/
def slotOff (c : A64Ctx) (vreg : Nat) : BitVec 32 :=
  if vreg > 100000 then -8 else (c.slot vreg).off

/-- The value has a slot, which the next access of eight bytes uses too. -/
def Slotted (c : A64Ctx) (vreg : Nat) : Prop :=
  vreg > 100000 ∨ ((c.slot vreg).off ≠ 0 ∧ 8 ≤ (c.slot vreg).size)

theorem slotOff_congr {c : A64Ctx} (h : d.stackSlots = c.stackSlots) (vreg : Nat) :
    slotOff d vreg = slotOff c vreg := by
  unfold slotOff A64Ctx.slot
  rw [h]

theorem slotted_congr {c : A64Ctx} (h : d.stackSlots = c.stackSlots) (vreg : Nat) :
    Slotted d vreg ↔ Slotted c vreg := by
  unfold Slotted A64Ctx.slot
  rw [h]

/-- The frame has room for `n` slots of eight bytes. -/
def Room (n : Nat) (c : A64Ctx) : Prop := c.stackSize.toNat + 16 * n < 2 ^ 32

/-- What sequences leave alone, with `keep` also the slots that there are. -/
structure Grows (keep : Bool) (c d : A64Ctx) : Prop where
  slots : keep = true → ∀ v, Slotted c v → Slotted d v ∧ slotOff d v = slotOff c v
  statics : d.staticAllocaOffsets = c.staticAllocaOffsets
  fixups : d.fixups = c.fixups
  blocks : d.blockOffsets = c.blockOffsets
  copies : d.phiCopies = c.phiCopies

theorem Grows.refl (keep : Bool) (c : A64Ctx) : Grows keep c c :=
  ⟨fun _ _ h => ⟨h, rfl⟩, rfl, rfl, rfl, rfl⟩

theorem Grows.trans {keep : Bool} {c e : A64Ctx} (h : Grows keep c d) (h' : Grows keep d e) :
    Grows keep c e where
  slots hkeep v hv := by
    have hd := h.slots hkeep v hv
    have he := h'.slots hkeep v hd.1
    exact ⟨he.1, he.2.trans hd.2⟩
  statics := h'.statics.trans h.statics
  fixups := h'.fixups.trans h.fixups
  blocks := h'.blocks.trans h.blocks
  copies := h'.copies.trans h.copies

/-- The generator of A64 code. -/
def target (env : Env) (keep : Bool) : Generator A64Ctx Inst State where
  code := A64Ctx.code
  exec := exec env
  plain inst := !inst.isControl
  frame := Grows keep
  frame_refl := Grows.refl keep
  frame_trans := Grows.trans

variable {env : Env} {keep : Bool}

/-- Steps that keep the slots are steps. -/
theorem Appends.forget {α : Type} {x : A64M α} (h : Appends (target env true) x) :
    Appends (target env keep) x := by
  constructor
  intro c
  obtain ⟨hframe, hcode⟩ := h.step c
  exact ⟨⟨fun _ => hframe.slots rfl, hframe.statics, hframe.fixups, hframe.blocks, hframe.copies⟩,
    hcode⟩

/-- The slots of the values are where they will be in the end. -/
def Fits (slot : Nat → BitVec 32) (c : A64Ctx) : Prop := ∀ v, Slotted c v → slot v = slotOff c v

theorem fits_final {slot : Nat → BitVec 32} : (target env true).Final (Fits slot) := by
  intro c d hframe hfits v hv
  have hd := hframe.slots rfl v hv
  rw [hfits v hd.1, hd.2]

/-- An instruction that the next one follows. -/
class Plain (insn : Inst) : Prop where
  plain : insn.isControl = false

instance : Plain (encAddImm is64 rd rn imm) := ⟨rfl⟩
instance : Plain (encSubImm is64 rd rn imm) := ⟨rfl⟩
instance : Plain (encAddReg is64 rd rn rm) := ⟨rfl⟩
instance : Plain (encSubReg is64 rd rn rm) := ⟨rfl⟩
instance : Plain (encLogicReg o is64 rd rn rm) := ⟨rfl⟩
instance : Plain (encSubsReg is64 rn rm) := ⟨rfl⟩
instance : Plain (encAndsReg is64 rn rm) := ⟨rfl⟩
instance : Plain (encMul is64 rd rn rm) := ⟨rfl⟩
instance : Plain (encSdiv is64 rd rn rm) := ⟨rfl⟩
instance : Plain (encUdiv is64 rd rn rm) := ⟨rfl⟩
instance : Plain (encMsub is64 rd rn rm ra) := ⟨rfl⟩
instance : Plain (encLslv is64 rd rn rm) := ⟨rfl⟩
instance : Plain (encLsrv is64 rd rn rm) := ⟨rfl⟩
instance : Plain (encAsrv is64 rd rn rm) := ⟨rfl⟩
instance : Plain (encCsel is64 rd rn rm cc) := ⟨rfl⟩
instance : Plain (encMovz is64 rd imm16 hw) := ⟨rfl⟩
instance : Plain (encMovk is64 rd imm16 hw) := ⟨rfl⟩
instance : Plain (encLdur size rt rn imm9) := ⟨rfl⟩
instance : Plain (encStur size rt rn imm9) := ⟨rfl⟩
instance : Plain (encFpLdur fsize ft rn imm9) := ⟨rfl⟩
instance : Plain (encFpStur fsize ft rn imm9) := ⟨rfl⟩
instance : Plain (encScvtf fsize fd xn) := ⟨rfl⟩
instance : Plain (encUcvtf fsize fd xn) := ⟨rfl⟩
instance : Plain (encFmovFromGpr fsize fd xn) := ⟨rfl⟩
instance : Plain (.cvtf signed isDouble fd xn) := ⟨rfl⟩
instance : Plain (.div signed is64 rd rn rm) := ⟨rfl⟩
instance : Plain (.sbfm rd rn imms) := ⟨rfl⟩
instance : Plain (.adrp rd) := ⟨rfl⟩
instance : Plain (.addLo rd rn) := ⟨rfl⟩
instance : Plain (.ldrLo rt rn) := ⟨rfl⟩

instance plain_ite {p : Prop} [Decidable p] {i j : Inst} [hi : Plain i] [hj : Plain j] :
    Plain (if p then i else j) := by
  split
  · exact hi
  · exact hj

/-- One of two encoders. -/
instance plain_choice {α β γ δ : Type} {p : Prop} [Decidable p] {f g : α → β → γ → δ → Inst}
    [hf : ∀ a b c d, Plain (f a b c d)] [hg : ∀ a b c d, Plain (g a b c d)] (a : α) (b : β) (c : γ)
    (d : δ) : Plain ((if p then f else g) a b c d) := by
  split
  · exact hf a b c d
  · exact hg a b c d

instance appends_emitU32 {insn : Inst} [h : Plain insn] :
    Appends (target env keep) (emitU32 insn) := by
  constructor
  intro c
  refine ⟨⟨fun _ _ hv => ⟨hv, rfl⟩, rfl, rfl, rfl, rfl⟩, [insn], rfl, ?_⟩
  intro inst hmem
  rw [List.mem_singleton.1 hmem]
  simp [target, h.plain]

instance appends_emitIf {p : Prop} [Decidable p] {x : A64M Unit}
    [h : Appends (target env keep) x] : Appends (target env keep) (emitIf p x) :=
  Appends.ite

instance appends_setCachedRegVreg (reg : Reg) (vreg : Nat) :
    Appends (target env keep) (setCachedRegVreg reg vreg) := by
  apply Appends.change
  · intro c
    split
    · exact ⟨fun _ _ hv => ⟨hv, rfl⟩, rfl, rfl, rfl, rfl⟩
    · split <;> exact ⟨fun _ _ hv => ⟨hv, rfl⟩, rfl, rfl, rfl, rfl⟩
  · intro c
    split
    · rfl
    · split <;> rfl

instance appends_invalidateCachedReg (reg : Reg) :
    Appends (target env keep) (invalidateCachedReg reg) := by
  apply Appends.change
  · intro c
    split
    · exact ⟨fun _ _ hv => ⟨hv, rfl⟩, rfl, rfl, rfl, rfl⟩
    · split <;> exact ⟨fun _ _ hv => ⟨hv, rfl⟩, rfl, rfl, rfl, rfl⟩
  · intro c
    split
    · rfl
    · split <;> rfl

instance appends_invalidateCachedGprs : Appends (target env keep) invalidateCachedGprs :=
  Appends.change (fun _ => ⟨fun _ _ hv => ⟨hv, rfl⟩, rfl, rfl, rfl, rfl⟩) fun _ => rfl

theorem slot_cons (c : A64Ctx) (vreg v : Nat) (s : StackSlot) (stackSize : BitVec 32) :
    A64Ctx.slot { c with stackSize := stackSize, stackSlots := (vreg, s) :: c.stackSlots } v =
      if v = vreg then s else c.slot v := by
  unfold A64Ctx.slot
  by_cases h : v = vreg
  · simp [h]
  · have hne : (v == vreg) = false := by simp [h]
    simp [h, List.lookup_cons, hne]

/-- An allocation of a slot changes only the slot. -/
theorem appends_allocSlot_any (vreg : Nat) (size : SizeT) :
    Appends (target env false) (allocSlot vreg size) := by
  constructor
  intro c
  refine ⟨⟨by simp, ?_, ?_, ?_, ?_⟩, [], ?_, by simp⟩ <;> unfold allocSlot <;> split <;>
    try split
  all_goals simp [target]

/-- Eight bytes never replace a slot. -/
theorem slotted_keeps {c : A64Ctx} (vreg : Nat) (hv : Slotted c v) :
    Slotted (allocSlot vreg 8 c).2 v ∧ slotOff (allocSlot vreg 8 c).2 v = slotOff c v := by
  unfold allocSlot
  split
  · exact ⟨hv, rfl⟩
  · rename_i hsmall
    split
    · exact ⟨hv, rfl⟩
    · rename_i hnew
      unfold Slotted slotOff at *
      simp only [slot_cons]
      by_cases hvreg : v = vreg
      · exfalso
        subst hvreg
        cases hv with
        | inl h => exact hsmall h
        | inr h => exact hnew ⟨h.1, h.2⟩
      · simp only [if_neg hvreg]
        exact ⟨hv, trivial⟩

instance appends_allocSlot (vreg : Nat) : Appends (target env keep) (allocSlot vreg 8) := by
  apply Appends.forget
  constructor
  intro c
  have hany : Appends (target env false) (allocSlot vreg 8) := appends_allocSlot_any vreg 8
  obtain ⟨hframe, hcode⟩ := hany.step c
  exact ⟨⟨fun _ _ hv => slotted_keeps vreg hv, hframe.statics, hframe.fixups, hframe.blocks,
    hframe.copies⟩, hcode⟩

instance appends_emitMovk (is64 : Bool) (rd : Reg) (v : BitVec 64) (s : Nat) :
    Appends (target env keep) (emitMovk is64 rd v s) := appends_emitIf

instance appends_emitMoveImm (rd : Reg) (imm : BitVec 64) (is64 : Bool) :
    Appends (target env keep) (emitMoveImm rd imm is64) := Appends.bind

instance appends_emitMoveImmCtx (rd : Reg) (imm : BitVec 64) (is64 : Bool) :
    Appends (target env keep) (emitMoveImmCtx rd imm is64) := Appends.bind

instance appends_emitAddr (rd base : Reg) (disp : BitVec 32) :
    Appends (target env keep) (emitAddr rd base disp) := Appends.ite

instance appends_emitAccess {enc : Reg → BitVec 32 → Inst} [∀ rn disp, Plain (enc rn disp)]
    (rn : Reg) (disp : BitVec 32) : Appends (target env keep) (emitAccess enc rn disp) :=
  Appends.ite

instance appends_emitLoad (rt rn : Reg) (disp : BitVec 32) (size : Nat) :
    Appends (target env keep) (emitLoad rt rn disp size) := appends_emitAccess rn disp

instance appends_emitStore (rt rn : Reg) (disp : BitVec 32) (size : Nat) :
    Appends (target env keep) (emitStore rt rn disp size) := appends_emitAccess rn disp

instance appends_emitFpLoad (ft rn : Reg) (disp : BitVec 32) (fsize : Nat) :
    Appends (target env keep) (emitFpLoad ft rn disp fsize) := appends_emitAccess rn disp

instance appends_emitFpStore (ft rn : Reg) (disp : BitVec 32) (fsize : Nat) :
    Appends (target env keep) (emitFpStore ft rn disp fsize) := appends_emitAccess rn disp

instance appends_emitMovReg (rd rm : Reg) (is64 : Bool) :
    Appends (target env keep) (emitMovReg rd rm is64) := appends_emitU32

instance appends_emitLoadSlot (vreg : Nat) (reg : Reg) :
    Appends (target env keep) (emitLoadSlot vreg reg) := Appends.bind

instance appends_emitStoreSlot (vreg : Nat) (reg : Reg) :
    Appends (target env keep) (emitStoreSlot vreg reg) := Appends.bind

instance appends_emitStoreFpSlot (vreg : Nat) (fpreg : Reg) (fsize : Nat) :
    Appends (target env keep) (emitStoreFpSlot vreg fpreg fsize) := Appends.bind

instance appends_emitSlotDataAddr (vreg : Nat) (logical : SizeT) (reg : Reg) :
    Appends (target env keep) (emitSlotDataAddr vreg logical reg) := Appends.bind

instance appends_emitLoadFpSlot (vreg : Nat) (fpreg : Reg) (fsize : Nat) :
    Appends (target env keep) (emitLoadFpSlot vreg fpreg fsize) := Appends.bind

instance appends_emitSetccCond (dst : Reg) (cond : BitVec 4) :
    Appends (target env keep) (emitSetccCond dst cond) := Appends.bind

instance appends_emitSetccIcmp (pred : IcmpPred) (dst : Reg) :
    Appends (target env keep) (emitSetccIcmp pred dst) := Appends.bind

section Host
variable (host : A64Host)

instance appends_emitLoadVreg (vreg : Nat) (reg : Reg) :
    Appends (target env keep) (emitLoadVreg host vreg reg) := by
  refine Appends.get (h := fun c => ?_)
  have hcached : Appends (target env keep)
      (match c.cachedScratch vreg reg with
      | some srcReg => do
        emitMovReg reg srcReg true
        setCachedRegVreg reg vreg
      | none => emitLoadSlot vreg reg) := by
    split <;> infer_instance
  exact Appends.ite

instance appends_emitWithReloc {insn : Inst} [Plain insn] (symIdx : Nat) (type : UInt8) :
    Appends (target env keep) (emitWithReloc insn symIdx type) := by
  have hreloc : ∀ pos, Appends (target env keep) (addReloc pos symIdx type) := fun pos =>
    Appends.change (fun _ => ⟨fun _ _ hv => ⟨hv, rfl⟩, rfl, rfl, rfl, rfl⟩) fun _ => rfl
  exact Appends.get

instance appends_ensureSymbol (name : CStr) :
    Appends (target env keep) (ensureSymbol host name) := by
  constructor
  intro c
  unfold ensureSymbol
  split
  · exact Generator.Extends.refl _ c
  · exact ⟨⟨fun _ _ hv => ⟨hv, rfl⟩, rfl, rfl, rfl, rfl⟩, [], (List.append_nil _).symm, by simp⟩

instance appends_emitSymbolAddr (symName : CStr) (defined : Bool) (reg : Reg) :
    Appends (target env keep) (emitSymbolAddr host symName defined reg) := Appends.bind

instance appends_emitGlobalOffset (globalOffset : BitVec 64) (reg : Reg) :
    Appends (target env keep) (emitGlobalOffset globalOffset reg) := appends_emitIf

instance appends_emitLoadGlobal (id : Nat) (globalOffset : BitVec 64) (reg : Reg) :
    Appends (target env keep) (emitLoadGlobal host id globalOffset reg) := by
  refine Appends.get (h := fun c => ?_)
  split
  · infer_instance
  · split <;> infer_instance

instance appends_emitLoadOperand (op : LrOperand) (reg : Reg) :
    Appends (target env keep) (emitLoadOperand host op reg) := by
  unfold emitLoadOperand
  split <;> infer_instance

instance appends_emitSpAdjust (subtract : Bool) (amount : Nat) :
    Appends (target env keep) (emitSpAdjust subtract amount) := by
  induction amount using emitSpAdjust.induct with
  | case1 amount h chunk ih =>
    rw [emitSpAdjust, dif_pos h]
    exact @Appends.bind _ _ _ _ _ _ _ _ _ fun _ => ih
  | case2 amount h =>
    rw [emitSpAdjust, dif_neg h]
    exact Appends.pure ()

instance appends_emitVregDataAddr (op : LrOperand) (reg : Reg) :
    Appends (target env keep) (emitVregDataAddr host op reg) := by
  unfold emitVregDataAddr
  split <;> infer_instance

instance appends_emitLoadFpOperand (op : LrOperand) (fpreg : Reg) (fsize : Nat) :
    Appends (target env keep) (emitLoadFpOperand host op fpreg fsize) := by
  unfold emitLoadFpOperand
  split <;> infer_instance

instance appends_emitArg (n : ArgCount) (op : LrOperand) :
    Appends (target env keep) (emitArg host n op) := by
  unfold emitArg
  dsimp only
  repeat' split
  all_goals infer_instance

instance appends_emitArgs (n : ArgCount) (ops : List LrOperand) :
    Appends (target env keep) (emitArgs host n ops) := by
  induction ops generalizing n with
  | nil => exact Appends.pure ()
  | cons op rest ih => exact Appends.bind

end Host

/-- The contexts differ in the code alone. -/
def SameBut (c d : A64Ctx) : Prop := d = { c with code := d.code }

theorem SameBut.trans {c e : A64Ctx} (h : SameBut c d) (h' : SameBut d e) : SameBut c e := by
  rw [SameBut] at *
  rw [h', h]

/-- All registers but some, and the flags, are kept. -/
structure KeepsRegs (rs : List Reg) (σ τ : State) : Prop where
  x : ∀ r, r ∉ rs → τ.x r = σ.x r
  d : τ.d = σ.d
  flags : τ.flags = σ.flags

theorem KeepsRegs.refl (rs : List Reg) (σ : State) : KeepsRegs rs σ σ := ⟨fun _ _ => rfl, rfl, rfl⟩

theorem KeepsRegs.trans {rs : List Reg} {σ τ υ : State} (h : KeepsRegs rs σ τ)
    (h' : KeepsRegs rs τ υ) : KeepsRegs rs σ υ :=
  ⟨fun r hr => (h'.x r hr).trans (h.x r hr), h'.d.trans h.d, h'.flags.trans h.flags⟩

theorem KeepsRegs.mono {rs rs' : List Reg} {σ τ : State} (h : KeepsRegs rs σ τ) (hrs : rs ⊆ rs') :
    KeepsRegs rs' σ τ :=
  ⟨fun r hr => h.x r fun hmem => hr (hrs hmem), h.d, h.flags⟩

theorem keepsRegs_setX (σ : State) (h : rd ≠ 31) (v : BitVec 64) :
    KeepsRegs [rd] σ (σ.setX rd v) := by
  rw [State.setX_of_ne σ h]
  refine ⟨fun r hr => ?_, rfl, rfl⟩
  simp only [List.mem_singleton] at hr
  simp [hr]

theorem setX_x (σ : State) (h : rd ≠ 31) (v : BitVec 64) : (σ.setX rd v).x rd = v := by
  simp [State.setX_of_ne σ h]

theorem setX_mem (σ : State) (rd : Reg) (v : BitVec 64) : (σ.setX rd v).mem = σ.mem := by
  unfold State.setX
  split <;> rfl

variable {F : A64Ctx → Prop} {c : A64Ctx} {σ : State}

theorem emits_emitU32 (insn : Inst) :
    Emits (target env keep) F (emitU32 insn) c σ fun _ c' σ' =>
      SameBut c c' ∧ σ' = exec env insn σ := by
  constructor
  intro _
  have hnew : (target env keep).newCode c (emitU32 insn c).2 = [insn] :=
    Generator.newCode_of_append _ rfl
  rw [hnew]
  exact ⟨rfl, rfl⟩

theorem emits_emitMovk {is64 : Bool} {v : BitVec 64} {s : Nat} (hrd : rd ≠ 31) (hs : s < 4)
    (h32 : is64 = false → s = 1) (hreg : σ.x rd = (v.setWidth (16 * s)).setWidth 64) :
    Emits (target env keep) F (emitMovk is64 rd v s) c σ fun _ c' σ' =>
      SameBut c c' ∧ σ' = σ.setX rd ((v.setWidth (16 * (s + 1))).setWidth 64) := by
  apply Emits.ite
  · intro _
    apply (emits_emitU32 _).mono
    rintro _ c' σ' - ⟨hc, hσ⟩
    refine ⟨hc, ?_⟩
    have hold : (if is64 then σ.getX rd else ((σ.getX rd).setWidth 32).setWidth 64) =
        (v.setWidth (16 * s)).setWidth 64 := by
      rw [State.getX_of_ne σ hrd, hreg]
      cases is64 with
      | true => rfl
      | false =>
        rw [h32 rfl]
        apply eq_of_toNat_eq
        simp
    rw [hσ, encMovk, exec, hold, insertHalf_low v hs]
  · intro hzero
    apply Emits.pure
    refine ⟨rfl, ?_⟩
    have hkeep : σ.x rd = (v.setWidth (16 * (s + 1))).setWidth 64 := by
      rw [hreg, ← insertHalf_low v hs, not_not.1 hzero, insertHalf_zero v hs]
    rw [State.setX_of_ne σ hrd, ← hkeep, Function.update_eq_self]

theorem setX_setX (σ : State) (rd : Reg) (v w : BitVec 64) :
    (σ.setX rd v).setX rd w = σ.setX rd w := by
  unfold State.setX
  split
  · rfl
  · simp

section Sequences
variable (hF : (target env keep).Final F)
include hF

theorem emits_emitMoveImm (hrd : rd ≠ 31) (imm : BitVec 64) (is64 : Bool) :
    Emits (target env keep) F (emitMoveImm rd imm is64) c σ fun _ c' σ' =>
      SameBut c c' ∧ σ' = σ.setX rd (if is64 then imm else (imm.setWidth 32).setWidth 64) := by
  unfold emitMoveImm
  generalize hv : (if is64 then imm else imm &&& 0xFFFFFFFF) = v
  apply Emits.seq hF
  · exact emits_emitU32 _
  rintro _ c₁ σ₁ - ⟨hc₁, hσ₁⟩
  have hlow : σ₁ = σ.setX rd ((v.setWidth (16 * 1)).setWidth 64) := by
    rw [hσ₁, encMovz, exec]
    have h := insertHalf_low v (k := 0) (by decide)
    have hzero : (v.setWidth (16 * 0)).setWidth 64 = 0 := by
      apply eq_of_toNat_eq
      simp
      omega
    rw [hzero] at h
    exact congrArg (σ.setX rd) h
  apply Emits.seq hF
  · exact emits_emitMovk hrd (by decide) (fun _ => rfl) (by rw [hlow, setX_x σ hrd])
  rintro _ c₂ σ₂ - ⟨hc₂, hσ₂⟩
  have hlow₂ : σ₂ = σ.setX rd ((v.setWidth (16 * 2)).setWidth 64) := by
    rw [hσ₂, hlow, setX_setX]
  cases is64 with
  | false =>
    apply Emits.ite
    · intro h
      cases h
    · intro _
      apply Emits.pure
      refine ⟨hc₁.trans hc₂, ?_⟩
      rw [hlow₂, ← hv]
      congr 1
      apply eq_of_toNat_eq
      have hmask := Nat.and_two_pow_sub_one_eq_mod imm.toNat 32
      have hconst : (0xFFFFFFFF : BitVec 64).toNat = 2 ^ 32 - 1 := rfl
      simp only [toNat_setWidth, Bool.false_eq_true, if_false, toNat_and, hconst, hmask]
      omega
  | true =>
    apply Emits.ite
    · intro _
      apply Emits.seq hF
      · exact emits_emitMovk hrd (by decide) (by simp) (by rw [hlow₂, setX_x σ hrd])
      rintro _ c₃ σ₃ - ⟨hc₃, hσ₃⟩
      have hlow₃ : σ₃ = σ.setX rd ((v.setWidth (16 * 3)).setWidth 64) := by
        rw [hσ₃, hlow₂, setX_setX]
      apply (emits_emitMovk hrd (by decide) (by simp) (by rw [hlow₃, setX_x σ hrd])).mono
      rintro _ c₄ σ₄ - ⟨hc₄, hσ₄⟩
      refine ⟨((hc₁.trans hc₂).trans hc₃).trans hc₄, ?_⟩
      rw [hσ₄, hlow₃, setX_setX, ← hv]
      simp
    · intro h
      exact absurd rfl h

/-- What an address counts from: for a far one, number 31 is zero and not the stack pointer. -/
def based (σ : State) (base : Reg) (disp : BitVec 32) : BitVec 64 :=
  if -4095 ≤ disp.toInt ∧ disp.toInt ≤ 4095 then σ.getSp base else σ.getX base

omit hF in
theorem based_of (h : rn ≠ 31 ∨ (-4095 ≤ disp.toInt ∧ disp.toInt ≤ 4095)) :
    based σ rn disp = σ.x rn := by
  unfold based
  split
  · rfl
  · next hfar => exact State.getX_of_ne σ (h.resolve_right hfar)

omit hF in
/-- The frame pointer is the base of every slot. -/
@[simp] theorem based_fp : based σ a64Fp disp = σ.x a64Fp := based_of (Or.inl (by decide))

/-- Constants and addresses leave the rest of the context and the memory alone. -/
theorem emits_emitAddr {base : Reg} (hrd : rd ≠ 31) (disp : BitVec 32) (hbase : base ≠ 15) :
    Emits (target env keep) F (emitAddr rd base disp) c σ fun _ c' σ' =>
      SameBut c c' ∧ KeepsRegs [rd, 15] σ σ' ∧ σ'.mem = σ.mem ∧
        σ'.x rd = based σ base disp + disp.signExtend 64 := by
  have hset : ∀ v, KeepsRegs [rd, 15] σ (σ.setX rd v) := fun v =>
    (keepsRegs_setX σ hrd v).mono (by simp)
  have hsp : ∀ v, σ.setSp rd v = σ.setX rd v := fun v => (State.setX_of_ne σ hrd v).symm
  apply Emits.ite
  · rintro ⟨hlow, hhigh⟩
    apply (emits_emitU32 _).mono
    rintro _ c' σ' - ⟨hc, hσ⟩
    have hexec : σ' = σ.setX rd (σ.x base + disp.signExtend 64) := by
      rw [hσ, encAddImm, exec, hsp, setWidth_of_small hlow hhigh]
      rfl
    rw [hexec, based_of (Or.inr ⟨by omega, hhigh⟩)]
    exact ⟨hc, hset _, setX_mem .., setX_x σ hrd _⟩
  · intro hpos
    apply Emits.ite
    · rintro ⟨hneg, hlow⟩
      apply (emits_emitU32 _).mono
      rintro _ c' σ' - ⟨hc, hσ⟩
      have hexec : σ' = σ.setX rd (σ.x base + disp.signExtend 64) := by
        rw [hσ, encSubImm, exec, hsp, ← sub_neg_of_small (σ.x base) hlow hneg]
        rfl
      rw [hexec, based_of (Or.inr ⟨hlow, by omega⟩)]
      exact ⟨hc, hset _, setX_mem .., setX_x σ hrd _⟩
    · intro hlarge
      have hfar : ¬ (-4095 ≤ disp.toInt ∧ disp.toInt ≤ 4095) := by omega
      apply Emits.seq hF
      · exact emits_emitMoveImm hF (by decide) _ true
      rintro _ c₁ σ₁ - ⟨hc₁, hσ₁⟩
      apply (emits_emitU32 _).mono
      rintro _ c' σ' - ⟨hc, hσ⟩
      have hx15 : σ₁.x 15 = disp.signExtend 64 := by
        rw [hσ₁]
        exact setX_x σ (by decide) _
      have hbase₁ : σ₁.getX base = σ.getX base := by
        rw [hσ₁, State.getX, State.getX,
          (keepsRegs_setX σ (by decide) _).x base (by simpa [a64X15] using hbase)]
      have hexec : σ' = σ₁.setX rd (based σ base disp + disp.signExtend 64) := by
        rw [hσ, encAddReg, exec, hbase₁, State.getX_of_ne σ₁ (by decide), based, if_neg hfar]
        rw [show σ₁.x a64X15 = disp.signExtend 64 from hx15]
        rfl
      have hkeep₁ : KeepsRegs [rd, 15] σ σ₁ := by
        rw [hσ₁]
        exact (keepsRegs_setX σ (by decide) _).mono (by simp [a64X15])
      rw [hexec]
      refine ⟨hc₁.trans hc, hkeep₁.trans ((keepsRegs_setX σ₁ hrd _).mono (by simp)), ?_,
        setX_x σ₁ hrd _⟩
      rw [setX_mem, hσ₁, setX_mem]

/-- An access is made at the address, perhaps through X15. -/
theorem emits_emitAccess (enc : Reg → BitVec 32 → Inst) [∀ rn disp, Plain (enc rn disp)]
    (disp : BitVec 32) (hrn : rn ≠ 15) :
    Emits (target env keep) F (emitAccess enc rn disp) c σ fun _ c' σ' =>
      SameBut c c' ∧ ∃ τ rn' imm, KeepsRegs [15] σ τ ∧ τ.mem = σ.mem ∧
        τ.x rn' + (imm.setWidth 9).signExtend 64 = based σ rn disp + disp.signExtend 64 ∧
        σ' = exec env (enc rn' imm) τ := by
  apply Emits.ite
  · rintro ⟨hlow, hhigh⟩
    apply (emits_emitU32 _).mono
    rintro _ c' σ' - ⟨hc, hσ⟩
    refine ⟨hc, σ, rn, disp, KeepsRegs.refl .., rfl, ?_, hσ⟩
    rw [signExtend_setWidth (by decide) (by decide) (by decide) (by simpa using hlow)
        (by simp; omega),
      based_of (Or.inr ⟨by omega, by omega⟩)]
  · intro _
    apply Emits.seq hF
    · exact emits_emitAddr hF (by decide) disp hrn
    rintro _ c₁ σ₁ - ⟨hc₁, hkeep, hmem, hx⟩
    apply (emits_emitU32 _).mono
    rintro _ c' σ' - ⟨hc, hσ⟩
    refine ⟨hc₁.trans hc, σ₁, a64X15, 0, hkeep.mono (by simp [a64X15]), hmem, ?_, hσ⟩
    rw [hx]
    simp

theorem emits_emitLoad {rt : Reg} (hrt : rt ≠ 31) (disp : BitVec 32) (size : Nat) (hrn : rn ≠ 15) :
    Emits (target env keep) F (emitLoad rt rn disp size) c σ fun _ c' σ' =>
      SameBut c c' ∧ KeepsRegs [rt, 15] σ σ' ∧ σ'.mem = σ.mem ∧
        σ'.x rt = load σ.mem (based σ rn disp + disp.signExtend 64) (accessSize size) := by
  apply (emits_emitAccess hF _ disp hrn).mono
  rintro _ c' σ' - ⟨hc, τ, rn', imm, hkeep, hmem, haddr, hσ⟩
  have hexec : σ' = τ.setX rt
      (load σ.mem (based σ rn disp + disp.signExtend 64) (accessSize size)) := by
    rw [hσ, encLdur, exec, hmem, ← haddr]
    rfl
  rw [hexec]
  refine ⟨hc, (hkeep.mono (by simp)).trans ((keepsRegs_setX τ hrt _).mono (by simp)), ?_,
    setX_x τ hrt _⟩
  rw [setX_mem, hmem]

theorem emits_emitStore {rt : Reg} (hrt : rt ≠ 31 ∧ rt ≠ 15) (disp : BitVec 32) (size : Nat)
    (hrn : rn ≠ 15) :
    Emits (target env keep) F (emitStore rt rn disp size) c σ fun _ c' σ' =>
      SameBut c c' ∧ KeepsRegs [15] σ σ' ∧
        σ'.mem = store σ.mem (based σ rn disp + disp.signExtend 64) (accessSize size) (σ.x rt) := by
  apply (emits_emitAccess hF _ disp hrn).mono
  rintro _ c' σ' - ⟨hc, τ, rn', imm, hkeep, hmem, haddr, hσ⟩
  have hx : τ.x rt = σ.x rt := hkeep.x rt (by simpa using hrt.2)
  rw [hσ, encStur, exec, hmem, State.getX_of_ne τ hrt.1, hx, ← haddr]
  exact ⟨hc, ⟨hkeep.x, hkeep.d, hkeep.flags⟩, rfl⟩

theorem emits_emitFpStore {ft : Reg} (disp : BitVec 32) (fsize : Nat) (hrn : rn ≠ 15) :
    Emits (target env keep) F (emitFpStore ft rn disp fsize) c σ fun _ c' σ' =>
      SameBut c c' ∧ KeepsRegs [15] σ σ' ∧
        σ'.mem = store σ.mem (based σ rn disp + disp.signExtend 64) (fpAccessSize fsize) (σ.d ft) := by
  apply (emits_emitAccess hF _ disp hrn).mono
  rintro _ c' σ' - ⟨hc, τ, rn', imm, hkeep, hmem, haddr, hσ⟩
  rw [hσ, encFpStur, exec, hmem, hkeep.d, ← haddr]
  exact ⟨hc, ⟨hkeep.x, rfl, hkeep.flags⟩, rfl⟩

end Sequences

/-- A value that has a slot, or gets one within the frame. -/
def Ready (n : Nat) (c : A64Ctx) (vreg : Nat) : Prop := Slotted c vreg ∨ Room n c

/-- Two contexts in which operands are found in the same registers. -/
structure SameCache (c d : A64Ctx) : Prop where
  x9 : d.x9HoldsVreg = c.x9HoldsVreg
  x10 : d.x10HoldsVreg = c.x10HoldsVreg
  statics : d.staticAllocaOffsets = c.staticAllocaOffsets

theorem allocSlot_code (c : A64Ctx) (vreg : Nat) (size : SizeT) :
    (allocSlot vreg size c).2.code = c.code := by
  unfold allocSlot
  split
  · rfl
  · split <;> rfl

theorem allocSlot_fst (c : A64Ctx) (vreg : Nat) (size : SizeT) :
    (allocSlot vreg size c).1 = slotOff (allocSlot vreg size c).2 vreg := by
  unfold allocSlot
  split
  · rename_i h
    simp [slotOff, h]
  · rename_i h
    split
    · simp [slotOff, h]
    · rw [slotOff, if_neg h]
      simp [slot_cons]

theorem allocSlot_cache (c : A64Ctx) (vreg : Nat) (size : SizeT) :
    SameCache c (allocSlot vreg size c).2 := by
  unfold allocSlot
  split
  · exact ⟨rfl, rfl, rfl⟩
  · split <;> exact ⟨rfl, rfl, rfl⟩

/-- The size of the frame after a slot of eight bytes. -/
theorem frame_after_slot {s : BitVec 32} (h : s.toNat + 16 < 2 ^ 32) :
    ((alignUpSize (s.setWidth 64) 8).setWidth 32 + (8 : SizeT).setWidth 32).toNat =
      (s.toNat + 7) / 8 * 8 + 8 := by
  have halign : (alignUpSize (s.setWidth 64) 8).toNat = (s.toNat + 7) / 8 * 8 := by
    have hwide : (s.setWidth 64).toNat = s.toNat := by
      rw [toNat_setWidth]
      omega
    rw [alignUpSize, if_neg (by decide), toNat_mul, toNat_udiv, toNat_sub, toNat_add, hwide]
    have h8 : (8 : SizeT).toNat = 8 := rfl
    have h1 : (1 : SizeT).toNat = 1 := rfl
    rw [h8, h1]
    omega
  rw [toNat_add, toNat_setWidth, halign]
  have h8 : ((8 : SizeT).setWidth 32).toNat = 8 := rfl
  rw [h8]
  omega

theorem room_allocSlot {n : Nat} {c : A64Ctx} (vreg : Nat) (h : Room (n + 1) c) :
    Room n (allocSlot vreg 8 c).2 := by
  have hweak : Room n c := by
    unfold Room at *
    omega
  unfold allocSlot
  split
  · exact hweak
  · split
    · exact hweak
    · have hframe := frame_after_slot (s := c.stackSize) (by unfold Room at h; omega)
      unfold Room at *
      simp only [show ¬ (8 : SizeT) < 8 by decide, if_false, hframe]
      omega

theorem slotted_allocSlot {c : A64Ctx} (h : Ready 1 c vreg) :
    Slotted (allocSlot vreg 8 c).2 vreg := by
  cases h with
  | inl hslot => exact (slotted_keeps vreg hslot).1
  | inr hroom =>
    unfold allocSlot
    split
    · rename_i hlarge
      exact Or.inl hlarge
    · split
      · rename_i hold
        exact Or.inr ⟨hold.1, hold.2⟩
      · have hframe := frame_after_slot (s := c.stackSize) (by unfold Room at hroom; omega)
        simp only [Slotted, slot_cons, if_true, show ¬ (8 : SizeT) < 8 by decide, if_false]
        refine Or.inr ⟨?_, by decide⟩
        intro hzero
        have hsize := congrArg BitVec.toNat (neg_eq_zero_iff.1 hzero)
        rw [hframe] at hsize
        simp at hsize

theorem ready_allocSlot {n : Nat} {c : A64Ctx} (vreg : Nat) (h : Ready (n + 1) c v) :
    Ready n (allocSlot vreg 8 c).2 v := by
  cases h with
  | inl hslot => exact Or.inl (slotted_keeps vreg hslot).1
  | inr hroom => exact Or.inr (room_allocSlot vreg hroom)

/-- Wherever the code finds the value, in a register or in its slot, the low `w` bits
there are `a`. -/
structure VregHolds (slot : Nat → BitVec 32) (n : Nat) (c : A64Ctx) (σ : State) (v : Nat) {w : Nat}
    (a : BitVec w) : Prop where
  isVreg : v < uint32Max
  ready : Ready n c v
  noStatic : c.lookupStaticAllocaOffset v = 0
  x9 : c.x9HoldsVreg = v → (σ.x 9).setWidth w = a
  x10 : c.x10HoldsVreg = v → (σ.x 10).setWidth w = a
  mem : (load σ.mem (σ.x 29 + (slot v).signExtend 64) 8).setWidth w = a

/-- The low `w` bits of the operand are `a`. An undefined operand is zero. -/
def Holds (slot : Nat → BitVec 32) (n : Nat) (c : A64Ctx) (σ : State) (op : LrOperand) {w : Nat}
    (a : BitVec w) : Prop :=
  match op.value with
  | .immI64 imm => imm.setWidth w = a
  | .null | .undef => a = 0
  | .vreg v => VregHolds slot n c σ v a
  | _ => False

/-- An operand has been loaded into a register. -/
structure Loaded (slot : Nat → BitVec 32) (n : Nat) (op : LrOperand) (reg : Reg) (c : A64Ctx)
    (σ : State) (c' : A64Ctx) (σ' : State) : Prop where
  value : ∀ {w : Nat} (a : BitVec w), Holds slot (n + 1) c σ op a → (σ'.x reg).setWidth w = a
  regs : KeepsRegs [reg, 15] σ σ'
  mem : σ'.mem = σ.mem
  holds : ∀ {w : Nat} (op' : LrOperand) (a : BitVec w), Holds slot (n + 1) c σ op' a →
    Holds slot n c' σ' op' a

/-- Registers that operands are loaded into. -/
def Loadable (reg : Reg) : Prop := reg ≠ 31 ∧ reg ≠ 15 ∧ reg ≠ 29

instance (reg : Reg) : Decidable (Loadable reg) := inferInstanceAs (Decidable (_ ∧ _))

/-- How the cache changes when a register is loaded: it holds the value `t`, or none. -/
structure Retagged (n : Nat) (reg : Reg) (t : Nat) (c c' : A64Ctx) : Prop where
  x9 : c'.x9HoldsVreg = if reg = a64X9 then t else c.x9HoldsVreg
  x10 : c'.x10HoldsVreg = if reg = a64X10 then t else c.x10HoldsVreg
  statics : c'.staticAllocaOffsets = c.staticAllocaOffsets
  ready : ∀ v, Ready (n + 1) c v → Ready n c' v

theorem not_mem_loaded {r reg : Reg} (h : r ≠ reg) (h15 : r ≠ 15) : r ∉ [reg, 15] := by
  simp [h, h15]

theorem loaded_of_retagged {slot : Nat → BitVec 32} {n : Nat} {reg : Reg} {t : Nat} {c : A64Ctx}
    {σ σ' : State} (hreg : Loadable reg) (htag : Retagged n reg t c c')
    (hregs : KeepsRegs [reg, 15] σ σ') (hmem : σ'.mem = σ.mem)
    (hvalue : ∀ {w : Nat} (a : BitVec w), Holds slot (n + 1) c σ op a → (σ'.x reg).setWidth w = a)
    (ht : t = uint32Max ∨ op.value = .vreg t ∨ c.lookupStaticAllocaOffset t ≠ 0) :
    Loaded slot n op reg c σ c' σ' := by
  refine ⟨hvalue, hregs, hmem, ?_⟩
  rintro w ⟨value, type, globalOffset⟩ a hop
  cases value with
  | immI64 | immF64 | block | global | null | undef => exact hop
  | vreg v =>
    replace hop : VregHolds slot (n + 1) c σ v a := hop
    -- a register that has just been loaded holds the operand itself
    have hnew : t = v → (σ'.x reg).setWidth w = a := by
      intro htv
      subst htv
      rcases ht with h | h | h
      · exact absurd h (Nat.ne_of_lt hop.isVreg)
      · apply hvalue
        rw [Holds, h]
        exact hop
      · exact absurd hop.noStatic h
    have hlookup : c'.lookupStaticAllocaOffset v = 0 := by
      rw [A64Ctx.lookupStaticAllocaOffset, htag.statics]
      exact hop.noStatic
    change VregHolds slot n c' σ' v a
    refine ⟨hop.isVreg, htag.ready v hop.ready, hlookup, ?_, ?_, ?_⟩
    · intro h
      rw [htag.x9] at h
      split at h
      · rename_i hr
        rw [hr] at hnew
        exact hnew h
      · rename_i hr
        rw [hregs.x 9 (not_mem_loaded (fun h' => hr h'.symm) (by decide))]
        exact hop.x9 h
    · intro h
      rw [htag.x10] at h
      split at h
      · rename_i hr
        rw [hr] at hnew
        exact hnew h
      · rename_i hr
        rw [hregs.x 10 (not_mem_loaded (fun h' => hr h'.symm) (by decide))]
        exact hop.x10 h
    · rw [hregs.x 29 (not_mem_loaded (fun h' => hreg.2.2 h'.symm) (by decide)), hmem]
      exact hop.mem

theorem ready_weaken {n : Nat} {c : A64Ctx} (h : Ready (n + 1) c v) : Ready n c v := by
  cases h with
  | inl hslot => exact Or.inl hslot
  | inr hroom =>
    right
    unfold Room at *
    omega

theorem invalidateCachedReg_eq (reg : Reg) :
    invalidateCachedReg reg = setCachedRegVreg reg uint32Max := rfl

theorem setCachedRegVreg_snd (c : A64Ctx) (reg : Reg) (vreg : Nat) :
    (setCachedRegVreg reg vreg c).2 = { c with
      x9HoldsVreg := if reg = a64X9 then vreg else c.x9HoldsVreg
      x10HoldsVreg := if reg = a64X10 then vreg else c.x10HoldsVreg } := by
  change (if reg = a64X9 then { c with x9HoldsVreg := vreg }
    else if reg = a64X10 then { c with x10HoldsVreg := vreg } else c) = _
  by_cases h9 : reg = a64X9
  · subst h9
    rfl
  · by_cases h10 : reg = a64X10
    · subst h10
      rfl
    · simp [h9, h10]

theorem emits_setCachedRegVreg (reg : Reg) (vreg : Nat) :
    Emits (target env keep) F (setCachedRegVreg reg vreg) c σ fun _ c' σ' =>
      c' = { c with
        x9HoldsVreg := if reg = a64X9 then vreg else c.x9HoldsVreg
        x10HoldsVreg := if reg = a64X10 then vreg else c.x10HoldsVreg } ∧ σ' = σ := by
  have h := setCachedRegVreg_snd c reg vreg
  apply Emits.silent
  · rw [h]
    rfl
  · exact ⟨h, rfl⟩

theorem ready_one {n : Nat} {c : A64Ctx} (h : Ready (n + 1) c v) : Ready 1 c v := by
  induction n with
  | zero => exact h
  | succ n ih => exact ih (ready_weaken h)

/-- Only the code has changed, and then the entry of a register. -/
theorem retagged_of_sameBut {n : Nat} {c c₁ : A64Ctx} {reg : Reg} {t : Nat} (h : SameBut c c₁)
    (hset : c' = { c₁ with
      x9HoldsVreg := if reg = a64X9 then t else c₁.x9HoldsVreg
      x10HoldsVreg := if reg = a64X10 then t else c₁.x10HoldsVreg }) :
    Retagged n reg t c c' := by
  rw [SameBut] at h
  rw [hset, h]
  exact ⟨rfl, rfl, rfl, fun _ hv => ready_weaken hv⟩

theorem cachedRegHoldsVreg_iff (c : A64Ctx) (reg : Reg) (vreg : Nat) :
    c.cachedRegHoldsVreg reg vreg = true ↔
      (reg = a64X9 ∧ c.x9HoldsVreg = vreg) ∨ (reg = a64X10 ∧ c.x10HoldsVreg = vreg) := by
  unfold A64Ctx.cachedRegHoldsVreg
  by_cases h9 : reg = a64X9
  · subst h9
    simp [show a64X9 ≠ a64X10 by decide]
  · simp [h9]

theorem retagged_cached {n : Nat} {c : A64Ctx} {reg : Reg}
    (hcached : c.cachedRegHoldsVreg reg vreg = true) : Retagged n reg vreg c c := by
  rcases (cachedRegHoldsVreg_iff ..).1 hcached with ⟨rfl, h⟩ | ⟨rfl, h⟩
  · exact ⟨h, rfl, rfl, fun _ hv => ready_weaken hv⟩
  · exact ⟨rfl, h, rfl, fun _ hv => ready_weaken hv⟩

theorem cachedScratch_some {c : A64Ctx} {reg srcReg : Reg}
    (h : c.cachedScratch vreg reg = some srcReg) :
    srcReg ≠ 31 ∧ c.cachedRegHoldsVreg srcReg vreg = true := by
  unfold A64Ctx.cachedScratch at h
  split at h
  · rename_i h10
    cases h
    exact ⟨by decide, h10.2⟩
  · split at h
    · rename_i h9
      cases h
      exact ⟨by decide, h9.2⟩
    · cases h

section Host
variable (host : A64Host) {slot : Nat → BitVec 32} {n : Nat} {reg : Reg}

theorem emits_emitMoveImmCtx (hreg : Loadable reg) (op : LrOperand) (imm : BitVec 64)
    (hop : ∀ {w : Nat} (a : BitVec w), Holds slot (n + 1) c σ op a → imm.setWidth w = a) :
    Emits (target env true) (Fits slot) (emitMoveImmCtx reg imm true) c σ fun _ c' σ' =>
      Loaded slot n op reg c σ c' σ' := by
  apply Emits.seq fits_final
  · exact emits_emitMoveImm fits_final hreg.1 imm true
  rintro _ c₁ σ₁ - ⟨hc₁, hσ₁⟩
  rw [invalidateCachedReg_eq]
  apply (emits_setCachedRegVreg reg uint32Max).mono
  rintro _ c' σ' - ⟨hc', hσ'⟩
  have hrun : σ' = σ.setX reg imm := by
    rw [hσ', hσ₁]
    rfl
  refine loaded_of_retagged hreg (retagged_of_sameBut hc₁ hc') ?_ ?_ ?_ (Or.inl rfl)
  · rw [hrun]
    exact (keepsRegs_setX σ hreg.1 imm).mono (by simp)
  · rw [hrun, setX_mem]
  · intro w a ha
    rw [hrun, setX_x σ hreg.1]
    exact hop a ha

theorem emits_emitLoadSlot (hreg : Loadable reg) (hop : op.value = .vreg vreg) :
    Emits (target env true) (Fits slot) (emitLoadSlot vreg reg) c σ fun _ c' σ' =>
      Loaded slot n op reg c σ c' σ' := by
  apply Emits.bind fits_final
  apply Emits.silent (allocSlot_code c vreg 8)
  have hoff := allocSlot_fst c vreg 8
  have hcache := allocSlot_cache c vreg 8
  have hready : ∀ v, Ready (n + 1) c v → Ready n (allocSlot vreg 8 c).2 v :=
    fun v => ready_allocSlot vreg
  have hslotted : Ready (n + 1) c vreg → Slotted (allocSlot vreg 8 c).2 vreg :=
    fun h => slotted_allocSlot (ready_one h)
  generalize (allocSlot vreg 8 c).1 = off at *
  generalize (allocSlot vreg 8 c).2 = c₁ at *
  apply Emits.seq fits_final
  · exact emits_emitLoad fits_final hreg.1 off 8 (by decide)
  rintro _ c₂ σ₂ - ⟨hc₂, hregs, hmem, hx⟩
  apply (emits_setCachedRegVreg reg vreg).mono
  rintro _ c' σ' hfits ⟨hc', rfl⟩
  rw [SameBut] at hc₂
  have htag : Retagged n reg vreg c c' := by
    rw [hc', hc₂]
    refine ⟨?_, ?_, hcache.statics, hready⟩
    · simp only [hcache.x9]
    · simp only [hcache.x10]
  refine loaded_of_retagged hreg htag hregs hmem ?_ (Or.inr (Or.inl hop))
  intro w a ha
  rw [Holds, hop] at ha
  have hslots : c'.stackSlots = c₁.stackSlots := by
    rw [hc', hc₂]
  have hslot : slot vreg = off := by
    rw [hoff, hfits vreg ((slotted_congr hslots vreg).2 (hslotted ha.ready)), slotOff_congr hslots]
  rw [hx, based_fp, ← hslot]
  exact ha.mem

/-- A value is found where it should be. -/
theorem emits_emitLoadVreg (hreg : Loadable reg) (hop : op.value = .vreg vreg) :
    Emits (target env true) (Fits slot) (emitLoadVreg host vreg reg) c σ fun _ c' σ' =>
      Loaded slot n op reg c σ c' σ' := by
  apply Emits.get
  apply Emits.ite
  · rintro ⟨hstatic, -⟩
    apply Emits.seq fits_final
    · exact emits_emitAddr fits_final hreg.1 _ (by decide)
    rintro _ c₁ σ₁ - ⟨hc₁, hregs, hmem, -⟩
    apply (emits_setCachedRegVreg reg vreg).mono
    rintro _ c' σ' - ⟨hc', rfl⟩
    refine loaded_of_retagged hreg (retagged_of_sameBut hc₁ hc') hregs hmem ?_
      (Or.inr (Or.inr hstatic))
    intro w a ha
    rw [Holds, hop] at ha
    exact absurd ha.noStatic hstatic
  · intro hstatic
    apply Emits.ite
    · intro hcached
      apply Emits.pure
      refine loaded_of_retagged hreg (retagged_cached hcached) (KeepsRegs.refl ..) rfl ?_
        (Or.inr (Or.inl hop))
      intro w a ha
      rw [Holds, hop] at ha
      rcases (cachedRegHoldsVreg_iff ..).1 hcached with ⟨rfl, h⟩ | ⟨rfl, h⟩
      · exact ha.x9 h
      · exact ha.x10 h
    · intro _
      split
      · rename_i srcReg hsrc
        apply Emits.seq fits_final
        · exact emits_emitU32 _
        rintro _ c₁ σ₁ - ⟨hc₁, hσ₁⟩
        apply (emits_setCachedRegVreg reg vreg).mono
        rintro _ c' σ' - ⟨hc', rfl⟩
        obtain ⟨hsrc31, hcached⟩ := cachedScratch_some hsrc
        have hrun : σ' = σ.setX reg (σ.x srcReg) := by
          rw [hσ₁, encLogicReg, exec, State.getX_of_ne σ hsrc31]
          congr 1
          simp [atWidth, logic, State.getX, a64Sp]
        refine loaded_of_retagged hreg (retagged_of_sameBut hc₁ hc') ?_ ?_ ?_
          (Or.inr (Or.inl hop))
        · rw [hrun]
          exact (keepsRegs_setX σ hreg.1 _).mono (by simp)
        · rw [hrun, setX_mem]
        · intro w a ha
          rw [Holds, hop] at ha
          rw [hrun, setX_x σ hreg.1]
          rcases (cachedRegHoldsVreg_iff ..).1 hcached with ⟨rfl, h⟩ | ⟨rfl, h⟩
          · exact ha.x9 h
          · exact ha.x10 h
      · exact emits_emitLoadSlot hreg hop

/-- Operands that are integers are loaded from where they are. -/
theorem emits_emitLoadOperand (hreg : Loadable reg) (op : LrOperand)
    (hop : ∃ (w : Nat) (a : BitVec w), Holds slot (n + 1) c σ op a) :
    Emits (target env true) (Fits slot) (emitLoadOperand host op reg) c σ fun _ c' σ' =>
      Loaded slot n op reg c σ c' σ' := by
  obtain ⟨w, a, ha⟩ := hop
  rcases op with ⟨value, type, globalOffset⟩
  cases value with
  | vreg v => exact emits_emitLoadVreg host hreg rfl
  | immI64 imm => exact emits_emitMoveImmCtx hreg _ imm fun _ h => h
  | null | undef =>
    apply emits_emitMoveImmCtx hreg _ 0
    intro w a ha
    change a = 0 at ha
    simp [ha]
  | immF64 | block | global => exact False.elim ha

/-- An instruction that writes flags alone leaves operands where they are. -/
theorem Holds.of_sameBut {σ' : State} {w : Nat} {a : BitVec w} (h : Holds slot n c σ op a)
    (hc : SameBut c c') (hx : σ'.x = σ.x) (hmem : σ'.mem = σ.mem) :
    Holds slot n c' σ' op a := by
  rcases op with ⟨value, type, globalOffset⟩
  cases value with
  | immI64 | immF64 | block | global | null | undef => exact h
  | vreg v =>
    replace h : VregHolds slot n c σ v a := h
    change VregHolds slot n c' σ' v a
    rw [SameBut] at hc
    rw [hc]
    refine ⟨h.isVreg, h.ready, h.noStatic, ?_, ?_, ?_⟩
    · rw [hx]
      exact h.x9
    · rw [hx]
      exact h.x10
    · rw [hx, hmem]
      exact h.mem

variable {Post : Unit → A64Ctx → State → Prop}

/-- One operand, and what follows. -/
theorem emits_loadFirst {op0 : LrOperand} {w₀ : Nat} {a : BitVec w₀} {rest : A64M Unit} [Appends (target env true) rest]
    (h0 : Holds slot (n + 1) c σ op0 a)
    (h : ∀ c' σ', Loaded slot n op0 a64X9 c σ c' σ' → (σ'.x 9).setWidth w₀ = a →
      Emits (target env true) (Fits slot) rest c' σ' Post) :
    Emits (target env true) (Fits slot) (do emitLoadOperand host op0 a64X9; rest) c σ Post := by
  apply Emits.seq fits_final
  · exact emits_emitLoadOperand host (by decide) op0 ⟨_, a, h0⟩
  rintro _ c' σ' - hload
  exact h c' σ' hload (hload.value a h0)

/-- Two operands in a row, and what follows. -/
theorem emits_loadBoth {op0 op1 : LrOperand} {w₀ w₁ : Nat} {a : BitVec w₀} {b : BitVec w₁}
    {rest : A64M Unit}
    [Appends (target env true) rest] (h0 : Holds slot (n + 2) c σ op0 a)
    (h1 : Holds slot (n + 2) c σ op1 b)
    (h : ∀ c' σ', σ'.flags = σ.flags → (σ'.x 9).setWidth w₀ = a → (σ'.x 10).setWidth w₁ = b →
      Emits (target env true) (Fits slot) rest c' σ' Post) :
    Emits (target env true) (Fits slot) (do
      emitLoadOperand host op0 a64X9
      emitLoadOperand host op1 a64X10
      rest) c σ Post := by
  apply Emits.seq fits_final
  · exact emits_emitLoadOperand host (by decide) op0 ⟨_, a, h0⟩
  rintro _ c₁ σ₁ - hload₁
  have h1' := hload₁.holds op1 b h1
  apply Emits.seq fits_final
  · exact emits_emitLoadOperand host (by decide) op1 ⟨_, b, h1'⟩
  rintro _ c₂ σ₂ - hload₂
  apply h
  · exact hload₂.regs.flags.trans hload₁.regs.flags
  · rw [hload₂.regs.x 9 (by decide)]
    exact hload₁.value a h0
  · exact hload₂.value b h1'

end Host

/-- What the slot of a value holds. -/
def slotValue (c : A64Ctx) (σ : State) (vreg : Nat) : BitVec 64 :=
  load σ.mem (σ.x 29 + (slotOff c vreg).signExtend 64) 8

theorem slotOff_setCached {c : A64Ctx} {x9 x10 : Nat} (vreg : Nat)
    (h : c' = { c with x9HoldsVreg := x9, x10HoldsVreg := x10 }) :
    slotOff c' vreg = slotOff c vreg := by
  rw [h]
  rfl

/-- A register goes to the slot of a value. -/
theorem emits_emitStoreSlot (hF : (target env keep).Final F) {reg : Reg} (hreg : reg ≠ 31 ∧ reg ≠ 15)
    (vreg : Nat) :
    Emits (target env keep) F (emitStoreSlot vreg reg) c σ fun _ c' σ' =>
      slotValue c' σ' vreg = σ.x reg := by
  apply Emits.bind hF
  apply Emits.silent (allocSlot_code c vreg 8)
  rw [allocSlot_fst]
  generalize (allocSlot vreg 8 c).2 = c₁
  apply Emits.seq hF
  · exact emits_emitStore hF hreg _ 8 (by decide)
  rintro _ c₂ σ₂ - ⟨hc₂, hregs, hmem⟩
  apply (emits_setCachedRegVreg reg vreg).mono
  rintro _ c' σ' - ⟨hc', rfl⟩
  rw [SameBut] at hc₂
  have hoff : slotOff c' vreg = slotOff c₁ vreg := by
    rw [slotOff_setCached vreg hc', hc₂]
    rfl
  have hbase : σ'.x 29 = σ.x a64Fp := hregs.x 29 (by decide)
  rw [slotValue, hoff, hbase, hmem, based_fp]
  exact load_store_word ..

/-- A floating point register goes to the slot of a value. -/
theorem emits_emitStoreFpSlot (hF : (target env keep).Final F) (vreg : Nat) (fpreg : Reg)
    (fsize : Nat) :
    Emits (target env keep) F (emitStoreFpSlot vreg fpreg fsize) c σ fun _ c' σ' =>
      (slotValue c' σ' vreg).setWidth (8 * fpAccessSize fsize) =
        (σ.d fpreg).setWidth (8 * fpAccessSize fsize) := by
  apply Emits.bind hF
  apply Emits.silent (allocSlot_code c vreg 8)
  rw [allocSlot_fst]
  generalize (allocSlot vreg 8 c).2 = c₁
  apply (emits_emitFpStore hF _ fsize (by decide)).mono
  rintro _ c' σ' - ⟨hc', hregs, hmem⟩
  rw [SameBut] at hc'
  have hoff : slotOff c' vreg = slotOff c₁ vreg := by
    rw [hc']
    rfl
  have hbase : σ'.x 29 = σ.x a64Fp := hregs.x 29 (by decide)
  have hsize : fpAccessSize fsize ≤ 8 := by
    unfold fpAccessSize
    split <;> decide
  rw [slotValue, hoff, hbase, hmem, based_fp]
  exact load_store _ _ hsize _

end Liric.Guarantees.Aarch64Code
