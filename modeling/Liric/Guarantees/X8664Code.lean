import Liric.Lib.AddressFields
import Liric.Lib.Staged
import Liric.Source.Target.X8664Operands

/-!
# Operands in x86_64 code

What the sequences for operands append to the code and what that code does to the registers.
An operand is found in its slot, or in a register that the target believes to hold it.
-/
namespace Liric.Guarantees.X8664Code
open Source.Ir Source.X8664 Lib Lib.X64 BitVec
open Lib.A64 (load store load_store_word)

variable {d c₁ c' : X86Ctx} {v vreg t : Nat} {α : Type} {x : X86M α} {preserve : Bool}
  {imm : BitVec 64} {op : LrOperand} {dst : Reg} {σ' : State}

/-- The value has a slot, which the next access of eight bytes uses too. -/
def Slotted (c : X86Ctx) (vreg : Nat) : Prop :=
  (c.frame.slot vreg).off ≠ 0 ∧ 8 ≤ (c.frame.slot vreg).size

/-- The slots of the values in `keep` stay, or are made with eight bytes; the static allocas
stay. -/
structure Grows (keep : Nat → Bool) (c d : X86Ctx) : Prop where
  slots : ∀ v, keep v = true → d.frame.slot v = c.frame.slot v ∨
    (¬ Slotted c v ∧ (d.frame.slot v).size = 8)
  statics : d.frame.staticAllocaOffsets = c.frame.staticAllocaOffsets

theorem Slotted.congr {c : X86Ctx} (h : d.frame.slot v = c.frame.slot v) :
    Slotted d v ↔ Slotted c v := by
  rw [Slotted, Slotted, h]

theorem Grows.refl (keep : Nat → Bool) (c : X86Ctx) : Grows keep c c := ⟨fun _ _ => .inl rfl, rfl⟩

theorem Grows.slot {keep : Nat → Bool} {c : X86Ctx} (h : Grows keep c d) (hkeep : keep v = true)
    (hv : Slotted c v) : d.frame.slot v = c.frame.slot v := by
  rcases h.slots v hkeep with hd | hd
  · exact hd
  · exact absurd hv hd.1

theorem Grows.trans {keep : Nat → Bool} {c e : X86Ctx} (h : Grows keep c d) (h' : Grows keep d e) :
    Grows keep c e where
  slots v hkeep := by
    rcases h.slots v hkeep with hd | hd
    · rcases h'.slots v hkeep with he | he
      · exact .inl (he.trans hd)
      · exact .inr ⟨fun hv => he.1 ((Slotted.congr hd).2 hv), he.2⟩
    · rcases h'.slots v hkeep with he | he
      · exact .inr ⟨hd.1, he ▸ hd.2⟩
      · exact .inr ⟨hd.1, he.2⟩
  statics := h'.statics.trans h.statics

/-- The generator of x86_64 code. Code that is `strict` keeps the flags. -/
def target (address : RelocRef → BitVec 64) (keep : Nat → Bool) (strict : Bool) :
    Generator X86Ctx X86Inst State where
  code := X86Ctx.code
  exec inst σ := exec address σ inst
  plain inst := !(strict && inst.changesFlags)
  frame := Grows keep
  frame_refl := Grows.refl keep
  frame_trans := Grows.trans

variable {address : RelocRef → BitVec 64} {keep : Nat → Bool} {strict : Bool}

/-- The slots of the values are where they will be in the end. -/
def Fits (slot : Nat → StackSlot) (keep : Nat → Bool) (c : X86Ctx) : Prop :=
  ∀ v, keep v = true → Slotted c v → slot v = c.frame.slot v

theorem fits_final {slot : Nat → StackSlot} :
    (target address keep strict).Final (Fits slot keep) := by
  intro c d hframe hfits v hkeep hv
  have hd := hframe.slot hkeep hv
  rw [hfits v hkeep ((Slotted.congr hd).2 hv), hd]

/-- An instruction that strict code may have. -/
class Free (strict : Bool) (inst : X86Inst) : Prop where
  free : strict = true → inst.changesFlags = false

instance free_false (inst : X86Inst) : Free false inst := ⟨fun h => absurd h (by decide)⟩
instance : Free strict (.movImm r imm) := ⟨fun _ => rfl⟩
instance : Free strict (.movReg r r') := ⟨fun _ => rfl⟩
instance : Free strict (.lea r base disp) := ⟨fun _ => rfl⟩
instance : Free strict (.load n r base disp) := ⟨fun _ => rfl⟩
instance : Free strict (.store n r base disp) := ⟨fun _ => rfl⟩
instance : Free strict (.address r ref) := ⟨fun _ => rfl⟩

instance appends_emitInst {inst : X86Inst} [h : Free strict inst] :
    Appends (target address keep strict) (emitInst inst) := by
  constructor
  intro c
  refine ⟨⟨fun _ _ => .inl rfl, rfl⟩, [inst], rfl, fun inst' hmem => ?_⟩
  rw [List.mem_singleton.1 hmem]
  cases strict with
  | true => simp [target, h.free rfl]
  | false => simp [target]

instance appends_setCachedRegVreg (reg : Reg) (vreg : Nat) :
    Appends (target address keep strict) (setCachedRegVreg reg vreg) := by
  apply Appends.change
  · intro c
    split
    · exact ⟨fun _ _ => .inl rfl, rfl⟩
    · split <;> exact ⟨fun _ _ => .inl rfl, rfl⟩
  · intro c
    split
    · rfl
    · split <;> rfl

instance appends_invalidateCachedReg (reg : Reg) :
    Appends (target address keep strict) (invalidateCachedReg reg) := appends_setCachedRegVreg ..

theorem slot_cons (c : X86Frame) (vreg v : Nat) (s : StackSlot) (stackSize : BitVec 32) :
    X86Frame.slot { c with stackSize := stackSize, stackSlots := (vreg, s) :: c.stackSlots } v =
      if v = vreg then s else c.slot v := by
  unfold X86Frame.slot
  by_cases h : v = vreg
  · simp [h]
  · have hne : (v == vreg) = false := by simp [h]
    simp [h, List.lookup_cons, hne]

/-- An allocation moves only the slot of its value, and no slot that is large enough. -/
theorem slot_allocSlot (c : X86Frame) (vreg : Nat) (size align : SizeT) (v : Nat) :
    (v ≠ vreg ∨ ((c.slot v).off ≠ 0 ∧ size.setWidth 32 ≤ (c.slot v).size)) →
      (allocSlot c vreg size align).2.slot v = c.slot v := by
  intro h
  unfold allocSlot
  split
  · rfl
  · next hnew =>
    have hne : v ≠ vreg := by
      rcases h with h | h
      · exact h
      · rintro rfl
        exact hnew h
    simp [slot_cons, hne]

theorem statics_allocSlot (c : X86Frame) (vreg : Nat) (size align : SizeT) :
    (allocSlot c vreg size align).2.staticAllocaOffsets = c.staticAllocaOffsets := by
  unfold allocSlot
  split <;> rfl

/-- The slot of a value in `keep` is made with eight bytes. -/
class SlotSize (keep : Nat → Bool) (vreg : Nat) (size : SizeT) : Prop where
  eight : keep vreg = true → size = 8

instance slotSize_eight : SlotSize keep vreg 8 := ⟨fun _ => rfl⟩

theorem slotSize_of_false (h : keep vreg = false) (size : SizeT) : SlotSize keep vreg size :=
  ⟨by simp [h]⟩

instance appends_slotOf {size align : SizeT} [h : SlotSize keep vreg size] :
    Appends (target address keep strict) (slotOf vreg size align) := by
  constructor
  intro c
  refine ⟨⟨fun v hkeep => ?_, statics_allocSlot ..⟩, [], (List.append_nil _).symm, by simp⟩
  by_cases hvreg : v = vreg
  · subst hvreg
    obtain rfl := h.eight hkeep
    by_cases hv : Slotted c v
    · exact .inl (slot_allocSlot c.frame v 8 align v (.inr hv))
    · right
      refine ⟨hv, ?_⟩
      change ((allocSlot c.frame v 8 align).2.slot v).size = 8
      unfold allocSlot
      split
      · next hold => exact absurd hold hv
      · simp only [slot_cons, if_true]
        decide
  · exact .inl (slot_allocSlot c.frame vreg size align v (.inl hvreg))

instance appends_emitLoadSlot (vreg : Nat) (reg : Reg) :
    Appends (target address keep strict) (emitLoadSlot vreg reg) := Appends.get

instance appends_emitStoreSlot (vreg : Nat) (reg : Reg) :
    Appends (target address keep strict) (emitStoreSlot vreg reg) := Appends.bind

/-- A constant is loaded without the flags being changed. -/
class Preserves (strict preserve : Bool) : Prop where
  preserves : strict = true → preserve = true

instance preserves_false : Preserves false preserve := ⟨fun h => absurd h (by decide)⟩
instance preserves_true : Preserves strict true := ⟨fun _ => rfl⟩

instance free_movImm [h : Preserves strict preserve] : Free strict
    (if imm = 0 ∧ preserve = false then .clear dst else .movImm dst imm) := by
  constructor
  intro hstrict
  simp [h.preserves hstrict, Inst.changesFlags]

instance appends_emitMovImm [Preserves strict preserve] (dst : Reg) (imm : BitVec 64) :
    Appends (target address keep strict) (emitMovImm dst imm preserve) := Appends.bind

theorem appends_emitAddImm (dst : Reg) (h : strict = true → imm = 0) :
    Appends (target address keep strict) (emitAddImm dst imm) := by
  unfold emitAddImm
  split
  · exact Appends.pure ()
  · next hne =>
    have hfree : strict = false := by
      cases strict with
      | true => exact absurd (h rfl) hne
      | false => rfl
    subst hfree
    exact Appends.ite

instance appends_emitLoadVreg (vreg : Nat) (reg : Reg) :
    Appends (target address keep strict) (emitLoadVreg vreg reg) := by
  refine Appends.get (h := fun c => ?_)
  have hcached : Appends (target address keep strict)
      (match c.cachedScratch vreg reg with
      | some srcReg => do
        emitInst (.movReg reg srcReg)
        setCachedRegVreg reg vreg
      | none => emitLoadSlot vreg reg) := by
    split <;> infer_instance
  exact Appends.ite

/-- A constant is added to the address that a relocation fills in. -/
def Adds (host : X86Host) (op : LrOperand) : Prop :=
  host.obj = true ∧ op.globalOffset ≠ 0 ∧
    ∃ id, op.value = .global id ∧ (lrModuleSymbolName host.mod.symbols id).isSome

/-- An operand that strict code may load. -/
class Loads (strict preserve : Bool) (host : X86Host) (op : LrOperand) : Prop
    extends Preserves strict preserve where
  noAdd : strict = true → ¬ Adds host op

instance loads_false {host : X86Host} : Loads false preserve host op :=
  ⟨fun h => absurd h (by decide)⟩

instance appends_emitLoadOperand {host : X86Host} [h : Loads strict preserve host op] (reg : Reg) :
    Appends (target address keep strict) (emitLoadOperand host preserve op reg) := by
  unfold emitLoadOperand
  split
  · infer_instance
  · infer_instance
  · infer_instance
  · infer_instance
  · infer_instance
  · next id hid =>
    unfold emitLoadGlobal
    split
    · infer_instance
    · split
      · next hobj =>
        split
        · infer_instance
        · next symName hname =>
          have hadd : Appends (target address keep strict) (emitAddImm reg op.globalOffset) := by
            apply appends_emitAddImm
            intro hstrict
            by_contra hne
            exact h.noAdd hstrict ⟨hobj, hne, id, hid, by rw [hname]; rfl⟩
          infer_instance
      · infer_instance
  · infer_instance

/-- The contexts differ in the code alone. -/
def SameBut (c d : X86Ctx) : Prop := d = { c with code := d.code }

theorem SameBut.refl (c : X86Ctx) : SameBut c c := rfl

theorem SameBut.trans {c e : X86Ctx} (h : SameBut c d) (h' : SameBut d e) : SameBut c e := by
  rw [SameBut] at *
  rw [h', h]

/-- All registers but some are kept. -/
structure KeepsRegs (rs : List Reg) (σ τ : State) : Prop where
  reg : ∀ r, r ∉ rs → τ.reg r = σ.reg r

theorem KeepsRegs.refl (rs : List Reg) (σ : State) : KeepsRegs rs σ σ := ⟨fun _ _ => rfl⟩

theorem KeepsRegs.trans {rs : List Reg} {σ τ υ : State} (h : KeepsRegs rs σ τ)
    (h' : KeepsRegs rs τ υ) : KeepsRegs rs σ υ := ⟨fun r hr => (h'.reg r hr).trans (h.reg r hr)⟩

theorem KeepsRegs.mono {rs rs' : List Reg} {σ τ : State} (h : KeepsRegs rs σ τ) (hrs : rs ⊆ rs') :
    KeepsRegs rs' σ τ := ⟨fun r hr => h.reg r fun hmem => hr (hrs hmem)⟩

theorem keepsRegs_set (σ : State) (r : Reg) (v : BitVec 64) : KeepsRegs [r] σ (σ.set r v) :=
  ⟨fun _ hr => set_reg_of_ne σ v (by simpa using hr)⟩

theorem keepsRegs_setResult (σ : State) (r : Reg) (v : BitVec 64) :
    KeepsRegs [r] σ (σ.setResult r v) := ⟨(keepsRegs_set σ r v).reg⟩

/-- Code that leaves the flags alone leaves ZF alone. -/
theorem zf_run {code : List X86Inst} (h : ∀ inst ∈ code, inst.changesFlags = false) (σ : State) :
    (run address code σ).zf = σ.zf := by
  induction code generalizing σ with
  | nil => rfl
  | cons inst rest ih =>
    have hstep : (exec address σ inst).zf = σ.zf := by
      have hinst := h inst List.mem_cons_self
      cases inst with
      | clear | addImm | subImm | addReg | testByte => cases hinst
      | cmovne dst src =>
        simp only [exec]
        split <;> rfl
      | movImm | movReg | lea | load | store | address => rfl
    have hrest := ih (fun inst' hmem => h inst' (List.mem_cons_of_mem _ hmem)) (exec address σ inst)
    exact hrest.trans hstep

variable {F : X86Ctx → Prop} {c : X86Ctx} {σ : State}

variable {Post : α → X86Ctx → State → Prop}

theorem Emits.withZf [hx : Appends (target address keep true) x]
    (h : Emits (target address keep true) F x c σ Post) :
    Emits (target address keep true) F x c σ fun a c' σ' => Post a c' σ' ∧ σ'.zf = σ.zf := by
  constructor
  intro hfinal
  refine ⟨h.after hfinal, zf_run (fun inst hmem => ?_) σ⟩
  simpa [target] using (hx.step c).plain inst hmem

theorem Emits.forget (h : Emits (target address keep true) F x c σ Post) :
    Emits (target address keep strict) F x c σ Post := ⟨h.after⟩

theorem emits_emitInst (inst : X86Inst) :
    Emits (target address keep strict) F (emitInst inst) c σ fun _ c' σ' =>
      SameBut c c' ∧ σ' = exec address σ inst := by
  constructor
  intro _
  have hnew : (target address keep strict).newCode c (emitInst inst c).2 = [inst] :=
    Generator.newCode_of_append _ rfl
  rw [hnew]
  exact ⟨rfl, rfl⟩

theorem setCachedRegVreg_snd (c : X86Ctx) (reg : Reg) (vreg : Nat) :
    (setCachedRegVreg reg vreg c).2 = { c with
      raxHoldsVreg := if reg = x86Rax then vreg else c.raxHoldsVreg
      rcxHoldsVreg := if reg = x86Rcx then vreg else c.rcxHoldsVreg } := by
  change (if reg = x86Rax then { c with raxHoldsVreg := vreg }
    else if reg = x86Rcx then { c with rcxHoldsVreg := vreg } else c) = _
  by_cases hrax : reg = x86Rax
  · subst hrax
    rfl
  · by_cases hrcx : reg = x86Rcx
    · subst hrcx
      rfl
    · simp [hrax, hrcx]

/-- How the cache changes: a register holds the value `t`, or none. -/
structure Tagged (reg : Reg) (t : Nat) (c c' : X86Ctx) : Prop where
  rax : c'.raxHoldsVreg = if reg = x86Rax then t else c.raxHoldsVreg
  rcx : c'.rcxHoldsVreg = if reg = x86Rcx then t else c.rcxHoldsVreg
  frame : c'.frame = c.frame

theorem emits_setCachedRegVreg (reg : Reg) (vreg : Nat) :
    Emits (target address keep strict) F (setCachedRegVreg reg vreg) c σ fun _ c' σ' =>
      Tagged reg vreg c c' ∧ σ' = σ := by
  have h := setCachedRegVreg_snd c reg vreg
  apply Emits.silent
  · rw [h]
    rfl
  · rw [h]
    exact ⟨⟨rfl, rfl, rfl⟩, rfl⟩

theorem Tagged.after {reg : Reg} {c : X86Ctx} (h : SameBut c c₁) (htag : Tagged reg t c₁ c') :
    Tagged reg t c c' := by
  rw [SameBut] at h
  rw [h] at htag
  exact ⟨htag.rax, htag.rcx, htag.frame⟩

theorem Tagged.sameBut {reg : Reg} {c : X86Ctx} (h : Tagged reg t c c') (hrax : reg ≠ x86Rax)
    (hrcx : reg ≠ x86Rcx) : SameBut c c' := by
  obtain ⟨hrax', hrcx', hframe⟩ := h
  rw [if_neg hrax] at hrax'
  rw [if_neg hrcx] at hrcx'
  cases c
  cases c'
  simp_all [SameBut]

theorem SameBut.frame {c : X86Ctx} (h : SameBut c c') : c'.frame = c.frame := by
  rw [SameBut] at h
  rw [h]

section Sequences
variable (hF : (target address keep strict).Final F)
include hF

/-- An instruction, and what its register is then known to hold. -/
theorem emits_tagged (inst : X86Inst) [Free strict inst] (reg : Reg) (t : Nat) :
    Emits (target address keep strict) F (do emitInst inst; setCachedRegVreg reg t) c σ
      fun _ c' σ' => Tagged reg t c c' ∧ σ' = exec address σ inst := by
  apply Emits.seq hF
  · exact emits_emitInst inst
  rintro _ c₁ σ₁ - ⟨hc₁, rfl⟩
  apply (emits_setCachedRegVreg reg t).mono
  rintro _ c' σ' - ⟨htag, rfl⟩
  exact ⟨htag.after hc₁, rfl⟩

theorem emits_emitMovImm [Preserves strict preserve] (dst : Reg) (imm : BitVec 64) :
    Emits (target address keep strict) F (emitMovImm dst imm preserve) c σ fun _ c' σ' =>
      Tagged dst uint32Max c c' ∧ KeepsRegs [dst] σ σ' ∧ σ'.mem = σ.mem ∧ σ'.reg dst = imm := by
  apply (emits_tagged hF _ dst _).mono
  rintro _ c' σ' - ⟨htag, rfl⟩
  split
  · next hzero =>
    refine ⟨htag, keepsRegs_setResult σ dst 0, rfl, ?_⟩
    simp [exec, State.setResult, hzero.1]
  · exact ⟨htag, keepsRegs_set σ dst imm, rfl, set_reg_self ..⟩

end Sequences

/-- What `emit_add_imm` adds. -/
def addend (imm : BitVec 64) : BitVec 64 := if imm = -2 ^ 31 then 2 ^ 31 else imm

theorem addend_zero : addend 0 = 0#64 := rfl

theorem addend_of_ne (h : imm ≠ -2 ^ 31) : addend imm = imm := if_neg h

theorem addend_byte (imm : BitVec 64) : (addend imm).setWidth 8 = imm.setWidth 8 := by
  unfold addend
  split
  · next h =>
    rw [h]
    rfl
  · rfl

theorem signExtend_short (hlow : -2 ^ 31 ≤ imm.toInt) (hhigh : imm.toInt < 2 ^ 31) :
    (imm.setWidth 32).signExtend 64 = imm := by
  rw [setWidth_eq_ofInt imm (by decide), signExtend_ofInt (by decide) hlow hhigh, ofInt_toInt]

theorem addImm_short (x : BitVec 64) (hlow : ¬ imm.toInt < -2 ^ 31)
    (hhigh : ¬ imm.toInt > 2 ^ 31 - 1) (hneg : ¬ 0 ≤ imm.toInt) :
    x - ((-imm).setWidth 32).signExtend 64 = x + addend imm := by
  unfold addend
  split
  · next h =>
    have hword : ((-imm).setWidth 32).signExtend 64 = -2 ^ 31 := by
      rw [h]
      decide
    rw [hword, BitVec.sub_eq_add_neg, neg_neg]
  · next h =>
    have hleast : imm.toInt ≠ -2 ^ 31 := by
      intro heq
      apply h
      apply eq_of_toInt_eq
      rw [heq]
      rfl
    have htoInt : (-imm).toInt = -imm.toInt := by
      rw [toInt_neg, Int.bmod_eq_of_le]
      · omega
      · omega
    rw [signExtend_short (by omega) (by omega)]
    bv_omega

theorem Tagged.thrice {t' : Nat} {c₀ c₂ c₃ : X86Ctx} (h₀ : Tagged x86R11 t' c₀ c₁)
    (h₁ : Tagged dst t c₁ c₂) (h₂ : Tagged dst t c₂ c₃) :
    Tagged dst t c₀ c₃ where
  rax := by
    rw [h₂.rax, h₁.rax, h₀.rax]
    by_cases h : dst = x86Rax
    · simp [h]
    · simp [h, show x86R11 ≠ x86Rax by decide]
  rcx := by
    rw [h₂.rcx, h₁.rcx, h₀.rcx]
    by_cases h : dst = x86Rcx
    · simp [h]
    · simp [h, show x86R11 ≠ x86Rcx by decide]
  frame := h₂.frame.trans (h₁.frame.trans h₀.frame)

theorem Tagged.twice {c₀ c₂ : X86Ctx} (h₁ : Tagged dst t c₀ c₁) (h₂ : Tagged dst t c₁ c₂) :
    Tagged dst t c₀ c₂ :=
  have hidle : Tagged x86R11 t c₀ c₀ := ⟨rfl, rfl, rfl⟩
  hidle.thrice h₁ h₂

theorem emits_emitAddImm (hF : (target address keep strict).Final F) (hdst : dst ≠ x86R11)
    (h : strict = true → imm = 0) :
    Emits (target address keep strict) F (do emitAddImm dst imm; invalidateCachedReg dst) c σ
      fun _ c' σ' => Tagged dst uint32Max c c' ∧ KeepsRegs [dst, x86R11] σ σ' ∧
        σ'.mem = σ.mem ∧ σ'.reg dst = σ.reg dst + addend imm := by
  by_cases hzero : imm = 0
  · rw [emitAddImm, if_pos hzero, pure_bind]
    apply (emits_setCachedRegVreg dst uint32Max).mono
    rintro _ c' σ' - ⟨htag, rfl⟩
    refine ⟨htag, KeepsRegs.refl .., rfl, ?_⟩
    rw [hzero, addend_zero, BitVec.add_zero]
  · have hfree : strict = false := by
      cases strict with
      | true => exact absurd (h rfl) hzero
      | false => rfl
    subst hfree
    have hlast : ∀ {c₁ : X86Ctx} {σ₁ : State} (inst : X86Inst),
        Emits (target address keep false) F
          (do emitInst inst; invalidateCachedReg dst; invalidateCachedReg dst) c₁ σ₁
          fun _ c' σ' => Tagged dst uint32Max c₁ c' ∧ σ' = exec address σ₁ inst := by
      intro c₁ σ₁ inst
      rw [← bind_assoc]
      apply Emits.seq hF (emits_tagged hF inst ..)
      rintro _ c₂ σ₂ - ⟨htag, rfl⟩
      apply (emits_setCachedRegVreg dst uint32Max).mono
      rintro _ c' σ' - ⟨htag', rfl⟩
      exact ⟨htag.twice htag', rfl⟩
    rw [emitAddImm, if_neg hzero]
    by_cases hwide : imm.toInt > 2 ^ 31 - 1 ∨ imm.toInt < -2 ^ 31
    · have hne : imm ≠ -2 ^ 31 := by
        rintro rfl
        revert hwide
        decide
      simp only [if_pos hwide, bind_assoc]
      apply Emits.seq hF
      · exact emits_emitMovImm hF x86R11 imm
      rintro _ c₁ σ₁ - ⟨htag, hkeep, hmem, hreg⟩
      apply (hlast (.addReg dst x86R11)).mono
      rintro _ c' σ' - ⟨htag', rfl⟩
      refine ⟨htag.thrice htag' ⟨?_, ?_, rfl⟩, ?_, hmem, ?_⟩
      · rw [htag'.rax]
        split <;> rfl
      · rw [htag'.rcx]
        split <;> rfl
      · exact (hkeep.mono (by simp)).trans ((keepsRegs_setResult σ₁ dst _).mono (by simp))
      · simp only [exec, State.setResult, set_reg_self]
        rw [hreg, hkeep.reg dst (by simpa using hdst), addend_of_ne hne]
    · rw [if_neg hwide, bind_assoc]
      apply (hlast _).mono
      rintro _ c' σ' - ⟨htag, rfl⟩
      have hresult : ∀ v, KeepsRegs [dst, x86R11] σ (σ.setResult dst v) := fun v =>
        (keepsRegs_setResult σ dst v).mono (by simp)
      split
      · next hpos =>
        have hne : imm ≠ -2 ^ 31 := by
          rintro rfl
          revert hpos
          decide
        refine ⟨htag, hresult _, rfl, ?_⟩
        simp only [exec, State.setResult, set_reg_self]
        rw [signExtend_short (by omega) (by omega), addend_of_ne hne]
      · next hneg =>
        refine ⟨htag, hresult _, rfl, ?_⟩
        simp only [exec, State.setResult, set_reg_self]
        exact addImm_short _ (by omega) (by omega) hneg

/-- The frame has room for `n` slots of eight bytes. -/
def Room (n : Nat) (c : X86Ctx) : Prop := c.frame.stackSize.toNat + 16 * n < 2 ^ 32

/-- A value that has a slot, or gets one within the frame. -/
def Ready (n : Nat) (c : X86Ctx) (vreg : Nat) : Prop := Slotted c vreg ∨ Room n c

/-- The size of the frame after a slot of eight bytes. -/
theorem grown_eight {c : X86Frame} (h : c.stackSize.toNat + 16 < 2 ^ 32) :
    (c.grown (atLeast8 8) (atLeast8 8)).toNat = (c.stackSize.toNat + 7) / 8 * 8 + 8 := by
  have h8 : atLeast8 8 = 8 := rfl
  have hwide : (c.stackSize.setWidth 64).toNat = c.stackSize.toNat := by
    rw [toNat_setWidth]
    omega
  have halign : (alignUpSize (c.stackSize.setWidth 64) 8).toNat =
      (c.stackSize.toNat + 7) / 8 * 8 := by
    rw [alignUpSize, if_neg (by decide), toNat_mul, toNat_udiv, toNat_sub, toNat_add, hwide]
    have h8 : (8 : SizeT).toNat = 8 := rfl
    have h1 : (1 : SizeT).toNat = 1 := rfl
    rw [h8, h1]
    omega
  rw [X86Frame.grown, h8, toNat_add, toNat_setWidth, halign]
  have hsize : ((8 : SizeT).setWidth 32).toNat = 8 := rfl
  rw [hsize]
  omega

theorem room_allocSlot {n : Nat} {c : X86Ctx} (vreg : Nat) (h : Room (n + 1) c) :
    Room n (slotOf vreg 8 8 c).2 := by
  unfold Room at h
  change (allocSlot c.frame vreg 8 8).2.stackSize.toNat + 16 * n < 2 ^ 32
  unfold allocSlot
  split
  · change c.frame.stackSize.toNat + 16 * n < 2 ^ 32
    omega
  · have hgrown := grown_eight (c := c.frame) (by omega)
    simp only [hgrown]
    omega

theorem slotted_allocSlot {c : X86Ctx} (h : Ready 1 c vreg) :
    Slotted (slotOf vreg 8 8 c).2 vreg := by
  change ((allocSlot c.frame vreg 8 8).2.slot vreg).off ≠ 0 ∧
    8 ≤ ((allocSlot c.frame vreg 8 8).2.slot vreg).size
  cases h with
  | inl hslot =>
    rw [slot_allocSlot c.frame vreg 8 8 vreg (.inr hslot)]
    exact hslot
  | inr hroom =>
    unfold allocSlot
    split
    · next hold => exact hold
    · have hgrown := grown_eight (c := c.frame) (by unfold Room at hroom; omega)
      simp only [slot_cons, if_true]
      refine ⟨fun hzero => ?_, by decide⟩
      have hsize := congrArg BitVec.toNat (neg_eq_zero_iff.1 hzero)
      rw [hgrown] at hsize
      simp at hsize

theorem ready_allocSlot {n : Nat} {c : X86Ctx} (vreg : Nat) (h : Ready (n + 1) c v) :
    Ready n (slotOf vreg 8 8 c).2 v := by
  cases h with
  | inl hslot =>
    left
    have hkept : (slotOf vreg 8 8 c).2.frame.slot v = c.frame.slot v :=
      slot_allocSlot c.frame vreg 8 8 v (.inr hslot)
    exact (Slotted.congr hkept).2 hslot
  | inr hroom => exact .inr (room_allocSlot vreg hroom)

theorem ready_weaken {n : Nat} {c : X86Ctx} (h : Ready (n + 1) c v) : Ready n c v := by
  cases h with
  | inl hslot => exact .inl hslot
  | inr hroom =>
    right
    unfold Room at *
    omega

theorem ready_one {n : Nat} {c : X86Ctx} (h : Ready (n + 1) c v) : Ready 1 c v := by
  induction n with
  | zero => exact h
  | succ n ih => exact ih (ready_weaken h)

theorem slotOf_fst (c : X86Ctx) (vreg : Nat) (size align : SizeT) :
    (slotOf vreg size align c).1 = ((slotOf vreg size align c).2.frame.slot vreg).off := by
  change (allocSlot c.frame vreg size align).1 = ((allocSlot c.frame vreg size align).2.slot vreg).off
  unfold allocSlot
  split
  · rfl
  · simp [slot_cons]

/-- What a fresh load of a value gives. -/
def freshValue (c : X86Ctx) (slot : Nat → StackSlot) (σ : State) (vreg : Nat) : BitVec 64 :=
  if c.frame.lookupStaticAllocaOffset vreg ≠ 0 then
    place σ x86Rbp (c.frame.lookupStaticAllocaOffset vreg)
  else load σ.mem (place σ x86Rbp (slot vreg).off) 8

theorem lookup_congr {c : X86Ctx} (h : c'.frame.staticAllocaOffsets = c.frame.staticAllocaOffsets)
    (vreg : Nat) :
    c'.frame.lookupStaticAllocaOffset vreg = c.frame.lookupStaticAllocaOffset vreg := by
  rw [X86Frame.lookupStaticAllocaOffset, X86Frame.lookupStaticAllocaOffset, h]

/-- The value is `a`, in its slot and in a register that the target believes to hold it. -/
structure VregHolds (slot : Nat → StackSlot) (keep : Nat → Bool) (n : Nat) (c : X86Ctx)
    (σ : State) (v : Nat) (a : BitVec 64) : Prop where
  isVreg : v < uint32Max
  kept : keep v = true
  ready : Ready n c v
  rax : c.raxHoldsVreg = v → σ.reg x86Rax = a
  rcx : c.rcxHoldsVreg = v → σ.reg x86Rcx = a
  fresh : freshValue c slot σ v = a

/-- The constant that an operand is, or the address that it becomes when `offset` is added
to a symbol. -/
def constant (host : X86Host) (address : RelocRef → BitVec 64) (offset : BitVec 64)
    (op : LrOperand) : Option (BitVec 64) :=
  match op.value with
  | .immI64 imm => some imm
  | .immF64 bits =>
    some (if isFloatType op.type then (Source.Ll.floatOfDouble bits).setWidth 64 else bits)
  | .null | .undef => some 0
  | .global id =>
    if host.jit && !host.obj then
      some ((lrModuleSymbolName host.mod.symbols id).elim 0 host.jitGetSymbol + op.globalOffset)
    else if host.obj then
      some ((lrModuleSymbolName host.mod.symbols id).elim 0 fun symName =>
        address ⟨host.remap symName, addressReloc host id symName⟩ + offset)
    else none
  | .vreg _ | .block _ => none

/-- The operand is loaded as `a`. -/
def Holds (host : X86Host) (address : RelocRef → BitVec 64) (slot : Nat → StackSlot)
    (keep : Nat → Bool) (n : Nat) (c : X86Ctx) (σ : State) (op : LrOperand) (a : BitVec 64) :
    Prop :=
  match op.value with
  | .vreg v => VregHolds slot keep n c σ v a
  | _ => constant host address (addend op.globalOffset) op = some a

/-- An operand has been loaded into a register. -/
structure Loaded (host : X86Host) (address : RelocRef → BitVec 64) (slot : Nat → StackSlot)
    (keep : Nat → Bool) (n : Nat) (op : LrOperand) (reg : Reg) (c : X86Ctx) (σ : State)
    (c' : X86Ctx) (σ' : State) : Prop where
  value : ∀ a, Holds host address slot keep (n + 1) c σ op a → σ'.reg reg = a
  regs : KeepsRegs [reg, x86R11] σ σ'
  mem : σ'.mem = σ.mem
  holds : ∀ op' a, Holds host address slot keep (n + 1) c σ op' a →
    Holds host address slot keep n c' σ' op' a
  ready : ∀ v, Ready (n + 1) c v → Ready n c' v

/-- Registers that operands are loaded into. -/
def Loadable (reg : Reg) : Prop := reg ≠ x86Rbp ∧ reg ≠ x86R11

instance (reg : Reg) : Decidable (Loadable reg) := inferInstanceAs (Decidable (_ ∧ _))

/-- The cache changes as `Tagged`, and values stay ready. -/
structure Retagged (n : Nat) (reg : Reg) (t : Nat) (c c' : X86Ctx) : Prop where
  rax : c'.raxHoldsVreg = if reg = x86Rax then t else c.raxHoldsVreg
  rcx : c'.rcxHoldsVreg = if reg = x86Rcx then t else c.rcxHoldsVreg
  statics : c'.frame.staticAllocaOffsets = c.frame.staticAllocaOffsets
  ready : ∀ v, Ready (n + 1) c v → Ready n c' v

theorem ready_congr {n : Nat} {c : X86Ctx} (h : c'.frame = c.frame) (v : Nat) :
    Ready n c' v ↔ Ready n c v := by
  rw [Ready, Ready, Slotted, Slotted, Room, Room, h]

theorem Tagged.retagged {n : Nat} {reg : Reg} {c : X86Ctx} (h : Tagged reg t c c') :
    Retagged n reg t c c' where
  rax := h.rax
  rcx := h.rcx
  statics := by rw [h.frame]
  ready v hv := (ready_congr h.frame v).2 (ready_weaken hv)

section Loads
variable {host : X86Host} {slot : Nat → StackSlot} {n : Nat} {reg : Reg}

theorem freshValue_congr (hstatics : c'.frame.staticAllocaOffsets = c.frame.staticAllocaOffsets)
    (hbase : σ'.reg x86Rbp = σ.reg x86Rbp) (hmem : σ'.mem = σ.mem) (v : Nat) :
    freshValue c' slot σ' v = freshValue c slot σ v := by
  rw [freshValue, freshValue, lookup_congr hstatics, place, place, place, place, hbase, hmem]

theorem loaded_of_retagged (hreg : Loadable reg) (htag : Retagged n reg t c c')
    (hregs : KeepsRegs [reg, x86R11] σ σ') (hmem : σ'.mem = σ.mem)
    (hvalue : ∀ a, Holds host address slot keep (n + 1) c σ op a → σ'.reg reg = a)
    (ht : t = uint32Max ∨ op.value = .vreg t) :
    Loaded host address slot keep n op reg c σ c' σ' := by
  refine ⟨hvalue, hregs, hmem, fun op' a hop => ?_, htag.ready⟩
  cases hcase : op'.value with
  | immI64 | immF64 | block | global | null | undef =>
    rw [Holds, hcase] at hop ⊢
    exact hop
  | vreg v =>
    rw [Holds, hcase] at hop ⊢
    replace hop : VregHolds slot keep (n + 1) c σ v a := hop
    -- a register that has just been loaded holds the operand itself
    have hnew : t = v → σ'.reg reg = a := by
      rintro rfl
      rcases ht with h | h
      · exact absurd h (Nat.ne_of_lt hop.isVreg)
      · apply hvalue
        rw [Holds, h]
        exact hop
    have hkept : ∀ r, r ≠ reg → r ≠ x86R11 → σ'.reg r = σ.reg r :=
      fun r hr h11 => hregs.reg r (by simp [hr, h11])
    change VregHolds slot keep n c' σ' v a
    refine ⟨hop.isVreg, hop.kept, htag.ready v hop.ready, fun h => ?_, fun h => ?_, ?_⟩
    · rw [htag.rax] at h
      by_cases hrax : reg = x86Rax
      · rw [if_pos hrax] at h
        exact hrax ▸ hnew h
      · rw [if_neg hrax] at h
        rw [hkept x86Rax (Ne.symm hrax) (by decide)]
        exact hop.rax h
    · rw [htag.rcx] at h
      by_cases hrcx : reg = x86Rcx
      · rw [if_pos hrcx] at h
        exact hrcx ▸ hnew h
      · rw [if_neg hrcx] at h
        rw [hkept x86Rcx (Ne.symm hrcx) (by decide)]
        exact hop.rcx h
    · rw [freshValue_congr htag.statics (hkept x86Rbp (Ne.symm hreg.1) (by decide)) hmem]
      exact hop.fresh

theorem cachedRegHoldsVreg_iff (c : X86Ctx) (reg : Reg) (vreg : Nat) :
    c.cachedRegHoldsVreg reg vreg = true ↔
      (reg = x86Rax ∧ c.raxHoldsVreg = vreg) ∨ (reg = x86Rcx ∧ c.rcxHoldsVreg = vreg) := by
  unfold X86Ctx.cachedRegHoldsVreg
  by_cases hrax : reg = x86Rax
  · subst hrax
    simp [show x86Rax ≠ x86Rcx by decide]
  · simp [hrax]

theorem VregHolds.cached {a : BitVec 64} (h : VregHolds slot keep n c σ v a)
    (hcached : c.cachedRegHoldsVreg reg v = true) : σ.reg reg = a := by
  rcases (cachedRegHoldsVreg_iff ..).1 hcached with ⟨rfl, hv⟩ | ⟨rfl, hv⟩
  · exact h.rax hv
  · exact h.rcx hv

theorem retagged_cached (hcached : c.cachedRegHoldsVreg reg vreg = true) :
    Retagged n reg vreg c c := by
  rcases (cachedRegHoldsVreg_iff ..).1 hcached with ⟨rfl, h⟩ | ⟨rfl, h⟩
  · exact ⟨h, rfl, rfl, fun _ hv => ready_weaken hv⟩
  · exact ⟨rfl, h, rfl, fun _ hv => ready_weaken hv⟩

theorem cachedScratch_some {srcReg : Reg} (h : c.cachedScratch vreg reg = some srcReg) :
    c.cachedRegHoldsVreg srcReg vreg = true := by
  unfold X86Ctx.cachedScratch at h
  split at h
  · next hrcx =>
    cases h
    exact hrcx.2
  · split at h
    · next hrax =>
      cases h
      exact hrax.2
    · cases h

/-- An instruction that keeps registers and memory leaves operands where they are. -/
theorem Holds.of_sameBut {a : BitVec 64} (h : Holds host address slot keep n c σ op a)
    (hc : SameBut c c') (hreg : σ'.reg = σ.reg) (hmem : σ'.mem = σ.mem) :
    Holds host address slot keep n c' σ' op a := by
  rw [SameBut] at hc
  cases hcase : op.value with
  | immI64 | immF64 | block | global | null | undef =>
    rw [Holds, hcase] at h ⊢
    exact h
  | vreg v =>
    rw [Holds, hcase] at h ⊢
    replace h : VregHolds slot keep n c σ v a := h
    change VregHolds slot keep n c' σ' v a
    rw [hc]
    refine ⟨h.isVreg, h.kept, h.ready, ?_, ?_, ?_⟩
    · rw [hreg]
      exact h.rax
    · rw [hreg]
      exact h.rcx
    · have hfresh : freshValue { c with code := c'.code } slot σ' v = freshValue c slot σ v :=
        freshValue_congr rfl (by rw [hreg]) hmem v
      exact hfresh.trans h.fresh

theorem emits_loadConst [Preserves strict preserve] (hreg : Loadable reg)
    (hop : ∀ a, Holds host address slot keep (n + 1) c σ op a → imm = a) :
    Emits (target address keep strict) (Fits slot keep) (emitMovImm reg imm preserve) c σ
      fun _ c' σ' => Loaded host address slot keep n op reg c σ c' σ' := by
  apply (emits_emitMovImm fits_final reg imm).mono
  rintro _ c' σ' - ⟨htag, hkeep, hmem, hvalue⟩
  refine loaded_of_retagged hreg htag.retagged (hkeep.mono (by simp)) hmem (fun a ha => ?_)
    (.inl rfl)
  rw [hvalue, hop a ha]

/-- One instruction that loads a value. -/
theorem emits_loadInst (hreg : Loadable reg) (hop : op.value = .vreg vreg) (inst : X86Inst)
    (v : BitVec 64) [Free strict inst] (hexec : exec address σ inst = σ.set reg v)
    (hvalue : ∀ a, VregHolds slot keep (n + 1) c σ vreg a → v = a) :
    Emits (target address keep strict) (Fits slot keep)
      (do emitInst inst; setCachedRegVreg reg vreg) c σ
      fun _ c' σ' => Loaded host address slot keep n op reg c σ c' σ' := by
  apply (emits_tagged fits_final inst reg vreg).mono
  rintro _ c' σ' - ⟨htag, rfl⟩
  rw [hexec]
  refine loaded_of_retagged hreg htag.retagged ((keepsRegs_set σ reg v).mono (by simp)) rfl
    (fun a ha => ?_) (.inr hop)
  rw [Holds, hop] at ha
  rw [set_reg_self, hvalue a ha]

/-- A register goes to the slot of a value. -/
theorem emits_emitStoreSlot (hF : (target address keep strict).Final F) (vreg : Nat) :
    Emits (target address keep strict) F (emitStoreSlot vreg reg) c σ fun _ c' σ' =>
      σ'.reg = σ.reg ∧
        σ'.mem = store σ.mem (place σ x86Rbp (c'.frame.slot vreg).off) 8 (σ.reg reg) ∧
        (Ready 1 c vreg → Slotted c' vreg) := by
  apply Emits.bind hF
  apply Emits.silent rfl
  have hslotted : Ready 1 c vreg → Slotted (slotOf vreg 8 8 c).2 vreg := slotted_allocSlot
  rw [slotOf_fst]
  generalize (slotOf vreg 8 8 c).2 = c₁ at *
  apply (emits_tagged hF (.store 8 reg x86Rbp (c₁.frame.slot vreg).off) reg vreg).mono
  rintro _ c' σ' - ⟨htag, rfl⟩
  have hframe : c'.frame.slot vreg = c₁.frame.slot vreg := by rw [htag.frame]
  rw [hframe]
  exact ⟨rfl, rfl, fun hready => (Slotted.congr hframe).2 (hslotted hready)⟩

theorem emits_emitLoadSlot (hreg : Loadable reg) (hop : op.value = .vreg vreg) :
    Emits (target address keep strict) (Fits slot keep) (emitLoadSlot vreg reg) c σ
      fun _ c' σ' => Loaded host address slot keep n op reg c σ c' σ' := by
  apply Emits.get
  apply Emits.ite
  · intro hstatic
    apply emits_loadInst hreg hop _ (place σ x86Rbp (c.frame.lookupStaticAllocaOffset vreg)) rfl
    intro a ha
    rw [← ha.fresh, freshValue, if_pos hstatic]
  · intro hstatic
    apply Emits.bind fits_final
    apply Emits.silent rfl
    have hoff := slotOf_fst c vreg 8 8
    have hready : ∀ v, Ready (n + 1) c v → Ready n (slotOf vreg 8 8 c).2 v :=
      fun v => ready_allocSlot vreg
    have hslotted : Ready (n + 1) c vreg → Slotted (slotOf vreg 8 8 c).2 vreg :=
      fun h => slotted_allocSlot (ready_one h)
    have hstatics : (slotOf vreg 8 8 c).2.frame.staticAllocaOffsets = c.frame.staticAllocaOffsets :=
      statics_allocSlot ..
    have hrax : (slotOf vreg 8 8 c).2.raxHoldsVreg = c.raxHoldsVreg := rfl
    have hrcx : (slotOf vreg 8 8 c).2.rcxHoldsVreg = c.rcxHoldsVreg := rfl
    generalize (slotOf vreg 8 8 c).1 = off at *
    generalize (slotOf vreg 8 8 c).2 = c₁ at *
    apply (emits_tagged fits_final (.load 8 reg x86Rbp off) reg vreg).mono
    rintro _ c' σ' hfits ⟨htag, rfl⟩
    have hretag : Retagged n reg vreg c c' := by
      refine ⟨?_, ?_, ?_, fun v hv => ?_⟩
      · rw [htag.rax, hrax]
      · rw [htag.rcx, hrcx]
      · rw [htag.frame, hstatics]
      · exact (ready_congr htag.frame v).2 (hready v hv)
    refine loaded_of_retagged hreg hretag
      ((keepsRegs_set σ reg (load σ.mem (place σ x86Rbp off) 8)).mono (by simp)) rfl
      (fun a ha => ?_) (.inr hop)
    rw [Holds, hop] at ha
    replace ha : VregHolds slot keep (n + 1) c σ vreg a := ha
    have hslot : slot vreg = c₁.frame.slot vreg := by
      have hframe : c'.frame.slot vreg = c₁.frame.slot vreg := by rw [htag.frame]
      have hin : Slotted c₁ vreg := hslotted (ha.ready)
      rw [hfits vreg ha.kept ((Slotted.congr hframe).2 hin), hframe]
    have hfresh := ha.fresh
    rw [freshValue, if_neg hstatic, hslot, ← hoff] at hfresh
    exact (set_reg_self ..).trans hfresh

/-- A value is found where it should be. -/
theorem emits_emitLoadVreg (hreg : Loadable reg) (hop : op.value = .vreg vreg) :
    Emits (target address keep strict) (Fits slot keep) (emitLoadVreg vreg reg) c σ
      fun _ c' σ' => Loaded host address slot keep n op reg c σ c' σ' := by
  apply Emits.get
  apply Emits.ite
  · intro hstatic
    apply emits_loadInst hreg hop _ (place σ x86Rbp (c.frame.lookupStaticAllocaOffset vreg)) rfl
    intro a ha
    rw [← ha.fresh, freshValue, if_pos hstatic]
  · intro _
    apply Emits.ite
    · intro hcached
      apply Emits.pure
      refine loaded_of_retagged hreg (retagged_cached hcached) (KeepsRegs.refl ..) rfl
        (fun a ha => ?_) (.inr hop)
      rw [Holds, hop] at ha
      exact VregHolds.cached ha hcached
    · intro _
      split
      · next srcReg hsrc =>
        apply emits_loadInst hreg hop (.movReg reg srcReg) (σ.reg srcReg) rfl
        intro a ha
        exact ha.cached (cachedScratch_some hsrc)
      · exact emits_emitLoadSlot hreg hop

/-- Operands are loaded from where they are. -/
theorem emits_emitLoadOperand (hreg : Loadable reg) (op : LrOperand)
    [hload : Loads strict preserve host op] (hop : ∃ a, Holds host address slot keep (n + 1) c σ op a) :
    Emits (target address keep strict) (Fits slot keep) (emitLoadOperand host preserve op reg) c σ
      fun _ c' σ' => Loaded host address slot keep n op reg c σ c' σ' := by
  have hconst : ∀ {imm : BitVec 64}, (∀ v, op.value ≠ .vreg v) →
      constant host address (addend op.globalOffset) op = some imm →
      ∀ a, Holds host address slot keep (n + 1) c σ op a → imm = a := by
    intro imm hno himm a ha
    unfold Holds at ha
    split at ha
    · next v hv => exact absurd hv (hno v)
    · exact Option.some.inj (himm.symm.trans ha)
  unfold emitLoadOperand
  split
  · next imm h => exact emits_loadConst hreg (hconst (by simp [h]) (by rw [constant, h]))
  · next v h => exact emits_emitLoadVreg hreg h
  · next bits h => exact emits_loadConst hreg (hconst (by simp [h]) (by rw [constant, h]))
  · next h => exact emits_loadConst hreg (hconst (by simp [h]) (by rw [constant, h]))
  · next h => exact emits_loadConst hreg (hconst (by simp [h]) (by rw [constant, h]))
  · next id h =>
    have hno : ∀ v, op.value ≠ .vreg v := by simp [h]
    apply Emits.ite
    · intro hjit
      exact emits_loadConst hreg (hconst hno (by rw [constant, h]; simp only [if_pos hjit]))
    · intro hjit
      split
      · next hobj =>
        split
        · next hname =>
          refine emits_loadConst hreg (hconst hno ?_)
          rw [constant, h]
          simp [hobj, hname]
        · next symName hname =>
          have hvalue : ∀ a, Holds host address slot keep (n + 1) c σ op a →
              address ⟨host.remap symName, addressReloc host id symName⟩ +
                addend op.globalOffset = a :=
            hconst hno (by rw [constant, h]; simp [hobj, hname])
          have hzero : strict = true → op.globalOffset = 0 := by
            intro h'
            by_contra hne
            exact hload.noAdd h' ⟨hobj, hne, id, h, by rw [hname]; rfl⟩
          have hadd : Appends (target address keep strict) (emitAddImm reg op.globalOffset) :=
            appends_emitAddImm reg hzero
          apply Emits.seq fits_final
          · exact emits_emitInst _
          rintro _ c₁ σ₁ - ⟨hc₁, rfl⟩
          apply (emits_emitAddImm fits_final hreg.2 hzero).mono
          rintro _ c' σ' - ⟨htag, hkeep, hmem, hresult⟩
          refine loaded_of_retagged hreg (htag.after hc₁).retagged
            (((keepsRegs_set σ reg _).mono (by simp)).trans hkeep) hmem (fun a ha => ?_) (.inl rfl)
          rw [hresult, ← hvalue a ha]
          exact congrArg (· + addend op.globalOffset) (set_reg_self ..)
      · next hobj =>
        obtain ⟨a, ha⟩ := hop
        rw [Holds, h] at ha
        replace ha : constant host address (addend op.globalOffset) op = some a := ha
        rw [constant, h] at ha
        simp only [if_neg hjit, if_neg hobj] at ha
        cases ha
  · next h =>
    obtain ⟨a, ha⟩ := hop
    rw [Holds, h] at ha
    replace ha : constant host address (addend op.globalOffset) op = some a := ha
    rw [constant, h] at ha
    cases ha

end Loads

end Liric.Guarantees.X8664Code
