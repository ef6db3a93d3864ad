import Liric.Guarantees.FrameSlots
import Liric.Guarantees.X8664Values
import Liric.Source.Target.X8664Moves

/-!
# Moves of memory in x86_64 code

What the copies, the fills with zeros and the loads and stores of a size do to the memory.
A move of three, five, six or seven bytes has another width.
-/
namespace Liric.Guarantees.X8664Memory
open Source.Ir Source.X8664 Lib Lib.X64 BitVec List X86Frame
open Lib.A64 (load store)
open X8664Code X8664Values

variable {off : SizeT} {move : Nat → Nat → X86M Unit} {bytes size : Nat}

theorem signExtend_add_ofNat {disp : BitVec 32} {off : Nat} (h : disp.toInt + off < 2 ^ 31) :
    (disp + BitVec.ofNat 32 off).signExtend 64 = disp.signExtend 64 + BitVec.ofNat 64 off := by
  have hlow : -2 ^ 31 ≤ disp.toInt := le_toInt disp
  have hhigh : disp.toInt < 2 ^ 31 := toInt_lt
  have hoff : (BitVec.ofNat 64 off).toInt = off := by
    rw [toInt_ofNat', Int.bmod_eq_of_le]
    · omega
    · omega
  have hsum : (disp + BitVec.ofNat 32 off).toInt = disp.toInt + off := by
    rw [toInt_add, toInt_ofNat', Int.add_bmod_bmod, Int.bmod_eq_of_le]
    · omega
    · omega
  apply eq_of_toInt_eq
  rw [toInt_signExtend_of_le (by decide), hsum, toInt_add, hoff,
    toInt_signExtend_of_le (by decide), Int.bmod_eq_of_le]
  · omega
  · omega

theorem place_add (σ : State) (base : Reg) {disp : BitVec 32} {off : Nat}
    (h : disp.toInt + off < 2 ^ 31) :
    place σ base (disp + BitVec.ofNat 32 off) = place σ base disp + BitVec.ofNat 64 off := by
  rw [place, place, signExtend_add_ofNat h, BitVec.add_assoc]

/-- An offset of the size type as a displacement. -/
theorem place_add_size (σ : State) (base : Reg) {disp : BitVec 32}
    (h : disp.toInt + off.toNat < 2 ^ 31) :
    place σ base (disp + off.setWidth 32) = place σ base disp + off := by
  have hoff : off.setWidth 32 = BitVec.ofNat 32 off.toNat := by
    rw [← ofNat_toNat]
  rw [hoff, place_add σ base h, ofNat_toNat, setWidth_eq]

theorem place_zero (σ : State) (base : Reg) : place σ base 0 = σ.reg base := BitVec.add_zero _

theorem toInt_size (h : off.toNat < 2 ^ 31) : (off.setWidth 32).toInt = off.toNat := by
  rw [toInt_eq_toNat_cond, toNat_setWidth]
  omega

theorem toInt_add_size {disp : BitVec 32} (h : disp.toInt + off.toNat < 2 ^ 31) :
    (disp + off.setWidth 32).toInt = disp.toInt + off.toNat := by
  have hlow : -2 ^ 31 ≤ disp.toInt := le_toInt disp
  have hoff : off.setWidth 32 = BitVec.ofNat 32 off.toNat := by
    rw [← ofNat_toNat]
  rw [hoff, toInt_add, toInt_ofNat', Int.add_bmod_bmod, Int.bmod_eq_of_le]
  · omega
  · omega

theorem place_size (σ : State) (base : Reg) (h : off.toNat < 2 ^ 31) :
    place σ base (off.setWidth 32) = σ.reg base + off := by
  have hzero : (0 : BitVec 32).toInt = 0 := rfl
  have hsum : place σ base (0 + off.setWidth 32) = place σ base 0 + off :=
    place_add_size σ base (by omega)
  rwa [show (0 : BitVec 32) + off.setWidth 32 = off.setWidth 32 from BitVec.zero_add _,
    place_zero] at hsum

/-- The bytes that `emit_mem_load_sized` reads. -/
def loadWidth (size : Nat) : Nat :=
  if size < 4 then if size = 1 then 1 else 2 else if size = 8 then 8 else 4

/-- The bytes that `emit_mem_store_sized` writes. -/
def storeWidth (size : Nat) : Nat :=
  if size = 1 then 1 else if size = 2 then 2 else if size = 8 then 8 else 4

theorem storeWidth_le (size : Nat) : storeWidth size ≤ 8 := by
  unfold storeWidth
  repeat' split
  all_goals decide

section Moves
variable {address : RelocRef → BitVec 64} {keep : Nat → Bool} {strict : Bool} {F : X86Ctx → Prop}
  {c : X86Ctx} {σ : State}

instance appends_emitIf {p : Prop} [Decidable p] {x : X86M Unit}
    [Appends (target address keep strict) x] : Appends (target address keep strict) (emitIf p x) :=
  Appends.ite

instance appends_emitMovzxMem (dst base : Reg) (disp : BitVec 32) (size : Nat) :
    Appends (target address keep strict) (emitMovzxMem dst base disp size) := Appends.bind

instance appends_emitMemLoadSized (dst base : Reg) (disp : BitVec 32) (size : Nat) :
    Appends (target address keep strict) (emitMemLoadSized dst base disp size) := Appends.ite

instance appends_emitMemStoreSized (src base : Reg) (disp : BitVec 32) (size : Nat) :
    Appends (target address keep strict) (emitMemStoreSized src base disp size) := appends_emitInst

/-- A load of a size; registers that are not cached leave the cache. -/
theorem emits_emitMemLoadSized (hF : (target address keep strict).Final F) (dst base : Reg)
    (disp : BitVec 32) (size : Nat) :
    Emits (target address keep strict) F (emitMemLoadSized dst base disp size) c σ fun _ c' σ' =>
      c'.frame = c.frame ∧ (dst ≠ x86Rax → dst ≠ x86Rcx → SameBut c c') ∧
        σ' = σ.set dst (load σ.mem (place σ base disp) (loadWidth size)) := by
  unfold emitMemLoadSized
  apply Emits.ite
  · intro hshort
    apply (emits_tagged hF (.load (if size = 1 then 1 else 2) dst base disp) dst uint32Max).mono
    rintro _ c' σ' - ⟨htag, rfl⟩
    refine ⟨htag.frame, fun hrax hrcx => htag.sameBut hrax hrcx, ?_⟩
    rw [loadWidth, if_pos hshort]
    rfl
  · intro hlong
    apply (emits_emitInst (.load (if size = 8 then 8 else 4) dst base disp)).mono
    rintro _ c' σ' - ⟨hc, rfl⟩
    refine ⟨SameBut.frame hc, fun _ _ => hc, ?_⟩
    rw [loadWidth, if_neg hlong]
    rfl

theorem emits_emitMemStoreSized (src base : Reg) (disp : BitVec 32) (size : Nat) :
    Emits (target address keep strict) F (emitMemStoreSized src base disp size) c σ fun _ c' σ' =>
      SameBut c c' ∧
        σ' = { σ with mem := store σ.mem (place σ base disp) (storeWidth size) (σ.reg src) } :=
  emits_emitInst _

instance appends_emitMoves [∀ off size, Appends (target address keep strict) (move off size)]
    (bytes : Nat) : Appends (target address keep strict) (emitMoves move bytes) := Appends.bind

/-- What holds of the bytes so far is carried on by a move of one, two, four or eight. -/
theorem emits_emitMoves (hF : (target address keep strict).Final F)
    (Inv : Nat → X86Ctx → State → Prop)
    [∀ off size, Appends (target address keep strict) (move off size)]
    (hstep : ∀ off size c σ, size ∈ [1, 2, 4, 8] → off + size ≤ bytes → Inv off c σ →
      Emits (target address keep strict) F (move off size) c σ fun _ c' σ' =>
        Inv (off + size) c' σ') (h : Inv 0 c σ) :
    Emits (target address keep strict) F (emitMoves move bytes) c σ fun _ c' σ' =>
      Inv bytes c' σ' := by
  have hif : ∀ {p : Prop} [Decidable p] (off size next : Nat) (c : X86Ctx) (σ : State),
      size ∈ [1, 2, 4, 8] → (p → off + size = next ∧ next ≤ bytes) → (¬ p → off = next) →
      Inv off c σ → Emits (target address keep strict) F (emitIf p (move off size)) c σ
        fun _ c' σ' => Inv next c' σ' := by
    intro p _ off size next c σ hsize hyes hno hinv
    apply Emits.ite
    · intro hp
      obtain ⟨rfl, hle⟩ := hyes hp
      exact hstep off size c σ hsize hle hinv
    · intro hp
      exact Emits.pure (hno hp ▸ hinv)
  have hwords : Emits (target address keep strict) F
      ((range (bytes / 8)).forM fun k => move (8 * k) 8) c σ fun _ c' σ' =>
        Inv (bytes / 8 * 8) c' σ' := by
    rw [range_eq_range']
    apply Emits.mono (Emits.forM_range (fun k => Inv (8 * k)) hF
      (fun k c σ hk hinv => hstep (8 * k) 8 c σ (by simp) (by omega) hinv) h)
    intro _ c' σ' _ hinv
    rwa [show bytes / 8 * 8 = 8 * (0 + bytes / 8) by omega]
  apply Emits.seq hF hwords
  intro _ c₁ σ₁ _ h₁
  apply Emits.seq hF (hif _ 4 (bytes / 4 * 4) c₁ σ₁ (by simp) (by omega) (by omega) h₁)
  intro _ c₂ σ₂ _ h₂
  apply Emits.seq hF (hif _ 2 (bytes / 2 * 2) c₂ σ₂ (by simp) (by omega) (by omega) h₂)
  intro _ c₃ σ₃ _ h₃
  exact hif _ 1 bytes c₃ σ₃ (by simp) (by omega) (by omega) h₃

/-- Bytes of memory that have nothing in common. -/
def ApartBytes (a : BitVec 64) (n : Nat) (b : BitVec 64) (k : Nat) : Prop :=
  ∀ i < n, ∀ j < k, a + BitVec.ofNat 64 i ≠ b + BitVec.ofNat 64 j

theorem loadWidth_move (h : size ∈ [1, 2, 4, 8]) : loadWidth size = size := by
  simp only [mem_cons, not_mem_nil, or_false] at h
  rcases h with rfl | rfl | rfl | rfl <;> rfl

theorem storeWidth_move (h : size ∈ [1, 2, 4, 8]) : storeWidth size = size := by
  simp only [mem_cons, not_mem_nil, or_false] at h
  rcases h with rfl | rfl | rfl | rfl <;> rfl

theorem le_of_move (h : size ∈ [1, 2, 4, 8]) : size ≤ 8 := by
  rw [← storeWidth_move h]
  exact storeWidth_le size

instance appends_emitMemCopyBaseToBase (dst src : Reg) (dstDisp srcDisp : BitVec 32) (bytes : Nat) :
    Appends (target address keep strict)
      (emitMemCopyBaseToBase dst dstDisp src srcDisp bytes) := appends_emitMoves bytes

instance appends_emitMemZeroBase (dst : Reg) (dstDisp : BitVec 32) (bytes : Nat) :
    Appends (target address keep false) (emitMemZeroBase dst dstDisp bytes) :=
  Appends.bind

variable {dstDisp : BitVec 32}

/-- Bytes that are apart are copied. -/
theorem emits_emitMemCopyBaseToBase (hF : (target address keep strict).Final F) {dst src : Reg}
    (hdst : dst ≠ x86R11) (hsrc : src ≠ x86R11) {srcDisp : BitVec 32}
    (hdstDisp : dstDisp.toInt + bytes < 2 ^ 31) (hsrcDisp : srcDisp.toInt + bytes < 2 ^ 31)
    (hapart : ApartBytes (place σ src srcDisp) bytes (place σ dst dstDisp) bytes) :
    Emits (target address keep strict) F (emitMemCopyBaseToBase dst dstDisp src srcDisp bytes) c σ
      fun _ c' σ' => SameBut c c' ∧ KeepsRegs [x86R11] σ σ' ∧
        Wrote σ.mem σ'.mem (place σ dst dstDisp)
          (fun i => σ.mem (place σ src srcDisp + BitVec.ofNat 64 i)) bytes := by
  have hbytes : bytes < 2 ^ 32 := by
    have hlow : -2 ^ 31 ≤ dstDisp.toInt := le_toInt dstDisp
    omega
  apply emits_emitMoves hF fun off c' σ' =>
    SameBut c c' ∧ KeepsRegs [x86R11] σ σ' ∧ Wrote σ.mem σ'.mem (place σ dst dstDisp)
      (fun i => σ.mem (place σ src srcDisp + BitVec.ofNat 64 i)) off
  · rintro off size c₁ σ₁ hsize hle ⟨hc₁, hkeep, hwrote⟩
    apply Emits.seq hF (emits_emitMemLoadSized hF ..)
    rintro _ c₂ σ₂ - ⟨-, hc₂, rfl⟩
    apply (emits_emitMemStoreSized ..).mono
    rintro _ c₃ σ₃ - ⟨hc₃, rfl⟩
    have hload := loadWidth_move hsize
    have hstore := storeWidth_move hsize
    have hwidth := le_of_move hsize
    have hplace : ∀ {base : Reg} {disp : BitVec 32}, base ≠ x86R11 → disp.toInt + bytes < 2 ^ 31 →
        place σ₁ base (disp + BitVec.ofNat 32 off) = place σ base disp + BitVec.ofNat 64 off := by
      intro base disp hbase hdisp
      rw [place_add _ _ (by omega), place, place, hkeep.reg base (by simpa using hbase)]
    refine ⟨(hc₁.trans (hc₂ (by decide) (by decide))).trans hc₃,
      hkeep.trans ⟨(keepsRegs_set σ₁ x86R11 _).reg⟩, hwrote.append ?_ (by omega)⟩
    have hdstPlace : ∀ v, place (σ₁.set x86R11 v) dst (dstDisp + BitVec.ofNat 32 off) =
        place σ dst dstDisp + BitVec.ofNat 64 off := by
      intro v
      rw [← hplace hdst hdstDisp, place, place, set_reg_of_ne _ _ hdst]
    simp only [set_mem, set_reg_self, hdstPlace, hload, hstore, hplace hsrc hsrcDisp]
    apply (Wrote.of_store _ _ _ hwidth).congr
    intro i hi
    rw [load_byte _ _ (by omega), if_pos hi, add_ofNat_add,
      hwrote.frame _ (fun j hj => hapart _ (by omega) j (by omega))]
  · exact ⟨SameBut.refl c, KeepsRegs.refl .., Wrote.nothing ..⟩

/-- Bytes are copied from where a register points that has just been loaded. -/
theorem emits_copyLoaded (hF : (target address keep strict).Final F) {base reg : Reg}
    (hreg : base ≠ reg) (h11 : base ≠ x86R11) (hreg11 : reg ≠ x86R11) {disp off : BitVec 32}
    {w : BitVec 64} (hdisp : disp.toInt + bytes < 2 ^ 31) (hoff : off.toInt + bytes < 2 ^ 31)
    (hapart : ApartBytes (w + off.signExtend 64) bytes (place σ base disp) bytes) :
    Emits (target address keep strict) F (emitMemCopyBaseToBase base disp reg off bytes) c
      (σ.set reg w) fun _ c' σ' => SameBut c c' ∧ KeepsRegs [reg, x86R11] σ σ' ∧
        Wrote σ.mem σ'.mem (place σ base disp)
          (fun i => σ.mem (w + off.signExtend 64 + BitVec.ofNat 64 i)) bytes := by
  have hsrc : place (σ.set reg w) reg off = w + off.signExtend 64 := by rw [place, set_reg_self]
  have hdst : place (σ.set reg w) base disp = place σ base disp := by
    rw [place, place, set_reg_of_ne _ _ hreg]
  rw [← hsrc, ← hdst] at hapart ⊢
  apply (emits_emitMemCopyBaseToBase hF h11 hreg11 hdisp hoff hapart).mono
  rintro _ c' σ' - ⟨hc', hregs, hwrote⟩
  exact ⟨hc', ((keepsRegs_set σ reg w).mono (by simp)).trans (hregs.mono (by simp)), hwrote⟩

/-- RAX is cleared on the way. -/
theorem emits_emitMemZeroBase (hF : (target address keep false).Final F) {dst : Reg}
    (hdst : dst ≠ x86Rax) (hdstDisp : dstDisp.toInt + bytes < 2 ^ 31) :
    Emits (target address keep false) F (emitMemZeroBase dst dstDisp bytes) c σ fun _ c' σ' =>
      Tagged x86Rax uint32Max c c' ∧ KeepsRegs [x86Rax] σ σ' ∧
        Wrote σ.mem σ'.mem (place σ dst dstDisp) (fun _ => 0) bytes := by
  have hbytes : bytes < 2 ^ 32 := by
    have hlow : -2 ^ 31 ≤ dstDisp.toInt := le_toInt dstDisp
    omega
  apply Emits.seq hF (emits_emitMovImm hF x86Rax 0)
  rintro _ c₁ σ₁ - ⟨htag, hkeep, hmem, hzero⟩
  apply Emits.mono (emits_emitMoves hF (fun off c' σ' => SameBut c₁ c' ∧ σ'.reg = σ₁.reg ∧
    Wrote σ.mem σ'.mem (place σ dst dstDisp) (fun _ => 0) off)
    ?_ ⟨SameBut.refl c₁, rfl, ?_⟩)
  · rintro _ c' σ' - ⟨hc', hreg, hwrote⟩
    refine ⟨⟨?_, ?_, ?_⟩, ⟨fun r hr => by rw [hreg, hkeep.reg r hr]⟩, hwrote⟩
    · rw [SameBut] at hc'
      rw [hc', htag.rax]
    · rw [SameBut] at hc'
      rw [hc', htag.rcx]
    · rw [SameBut.frame hc', htag.frame]
  · rintro off size c₂ σ₂ hsize hle ⟨hc₂, hreg, hwrote⟩
    apply (emits_emitMemStoreSized ..).mono
    rintro _ c₃ σ₃ - ⟨hc₃, rfl⟩
    refine ⟨hc₂.trans hc₃, hreg, hwrote.append ?_ (by have := le_of_move hsize; omega)⟩
    have hplace : place σ₂ dst (dstDisp + BitVec.ofNat 32 off) =
        place σ dst dstDisp + BitVec.ofNat 64 off := by
      rw [place_add _ _ (by omega), place, place, hreg, hkeep.reg dst (by simpa using hdst)]
    simp only [hplace, storeWidth_move hsize, hreg, hzero]
    apply (Wrote.of_store _ _ _ (le_of_move hsize)).congr
    intro i hi
    simp
  · rw [hmem]
    exact Wrote.nothing ..

end Moves

/-- Slots that are set are below the frame pointer and have at least eight bytes. -/
structure FrameOk (c : X86Frame) : Prop where
  slots : ∀ v, c.slot v = ⟨0, 0⟩ ∨ ((c.slot v).off.toInt < 0 ∧ 8 ≤ (c.slot v).size)
  statics : ∀ v, (c.lookupStaticAllocaOffset v).toInt ≤ 0

/-- A frame that stays below 2 GiB with `spare` more bytes. -/
structure Sound (spare : Nat) (c : X86Ctx) : Prop where
  ok : FrameOk c.frame
  room : c.frame.stackSize.toNat + spare < 2 ^ 31

section Frames
variable {c : X86Ctx} {spare : Nat}

theorem Sound.congr {c' : X86Ctx} (h : Sound spare c) (hframe : c'.frame = c.frame) :
    Sound spare c' := ⟨by rw [hframe]; exact h.ok, by rw [hframe]; exact h.room⟩

theorem Sound.less {k : Nat} (h : Sound spare c) (hk : k ≤ spare) : Sound k c := by
  refine ⟨h.ok, ?_⟩
  have hroom := h.room
  omega

theorem Sound.slotted (h : Sound spare c) {v : Nat} (hset : c.frame.slot v ≠ ⟨0, 0⟩) :
    Slotted c v := by
  obtain ⟨hoff, hsize⟩ := (h.ok.slots v).resolve_left hset
  refine ⟨fun hzero => ?_, hsize⟩
  rw [hzero] at hoff
  revert hoff
  decide

theorem Sound.ready (h : Sound spare c) {n : Nat} (hn : 16 * n ≤ spare) (v : Nat) : Ready n c v := by
  right
  have hroom := h.room
  unfold Room
  omega

theorem roundUp_le (value align : Nat) : roundUp value align ≤ value + align := by
  unfold roundUp
  split
  · omega
  · have hle := Nat.div_mul_le_self (value + align - 1) align
    omega

/-- An allocation gives a slot that is large enough, and takes at most its size and its
alignment. -/
theorem sound_slotOf {size align : SizeT} (v : Nat)
    (h : Sound (spare + max size.toNat 8 + max align.toNat 8) c) :
    Sound spare (slotOf v size align c).2 ∧
      ((slotOf v size align c).2.frame.slot v).off.toInt < 0 ∧
      Slotted (slotOf v size align c).2 v ∧
      size.toNat ≤ ((slotOf v size align c).2.frame.slot v).size.toNat := by
  change Sound spare { c with frame := (allocSlot c.frame v size align).2 } ∧
    ((allocSlot c.frame v size align).2.slot v).off.toInt < 0 ∧
    Slotted { c with frame := (allocSlot c.frame v size align).2 } v ∧
    size.toNat ≤ ((allocSlot c.frame v size align).2.slot v).size.toNat
  have hroom := h.room
  have hsize : (size.setWidth 32).toNat = size.toNat := by
    rw [toNat_setWidth]
    omega
  unfold allocSlot
  split
  · next hold =>
    have hset : c.frame.slot v ≠ ⟨0, 0⟩ := by
      intro hzero
      rw [hzero] at hold
      exact hold.1 rfl
    have hslot := (h.ok.slots v).resolve_left hset
    have hlarge : (size.setWidth 32).toNat ≤ (c.frame.slot v).size.toNat := hold.2
    rw [hsize] at hlarge
    exact ⟨h.less (by omega), hslot.1, h.slotted hset, hlarge⟩
  · have hround := roundUp_le c.frame.stackSize.toNat (max align.toNat 8)
    have hgrown : (c.frame.grown (atLeast8 size) (atLeast8 align)).toNat =
        roundUp c.frame.stackSize.toNat (max align.toNat 8) + max size.toNat 8 := by
      rw [FrameSlots.toNat_grown, FrameSlots.toNat_atLeast8]
      · rw [FrameSlots.toNat_atLeast8]
        omega
      · rw [FrameSlots.toNat_atLeast8]
        omega
    generalize c.frame.grown (atLeast8 size) (atLeast8 align) = stackSize at hgrown
    have hoff : (-stackSize).toInt < 0 := by
      rw [FrameSlots.toInt_neg hgrown (by omega)]
      omega
    have hne : -stackSize ≠ 0 := by
      intro hzero
      rw [hzero] at hoff
      revert hoff
      decide
    have hwidth : ((atLeast8 size).setWidth 32).toNat = max size.toNat 8 := by
      rw [toNat_setWidth, FrameSlots.toNat_atLeast8]
      omega
    have height : (8 : BitVec 32) ≤ (atLeast8 size).setWidth 32 := by
      change 8 ≤ ((atLeast8 size).setWidth 32).toNat
      omega
    refine ⟨⟨⟨fun w => ?_, h.ok.statics⟩, ?_⟩, ?_, ?_, ?_⟩
    · rw [slot_cons]
      split
      · exact .inr ⟨hoff, height⟩
      · exact h.ok.slots w
    · change stackSize.toNat + spare < 2 ^ 31
      omega
    · rw [slot_cons, if_pos rfl]
      exact hoff
    · rw [Slotted]
      simp only [slot_cons, if_true]
      exact ⟨hne, height⟩
    · rw [slot_cons, if_pos rfl]
      change size.toNat ≤ ((atLeast8 size).setWidth 32).toNat
      omega

/-- The frame stays as it is. -/
structure KeepsFrame {α : Type} (x : X86M α) : Prop where
  frame : ∀ c, (x c).2.frame = c.frame

theorem KeepsFrame.bind {α β : Type} {x : X86M α} {f : α → X86M β} (hx : KeepsFrame x)
    (hf : ∀ a, KeepsFrame (f a)) : KeepsFrame (x >>= f) :=
  ⟨fun c => ((hf _).frame _).trans (hx.frame c)⟩

theorem keepsFrame_emitInst (inst : X86Inst) : KeepsFrame (emitInst inst) := ⟨fun _ => rfl⟩

theorem keepsFrame_setCachedRegVreg (reg : Reg) (t : Nat) : KeepsFrame (setCachedRegVreg reg t) := by
  constructor
  intro c
  rw [setCachedRegVreg_snd]

theorem keepsFrame_emitMovImm (dst : Reg) (imm : BitVec 64) (preserve : Bool) :
    KeepsFrame (emitMovImm dst imm preserve) :=
  (keepsFrame_emitInst _).bind fun _ => keepsFrame_setCachedRegVreg ..

theorem keepsFrame_emitAddImm (dst : Reg) (imm : BitVec 64) : KeepsFrame (emitAddImm dst imm) := by
  unfold emitAddImm
  split
  · exact ⟨fun _ => rfl⟩
  · split
    · apply (keepsFrame_emitMovImm ..).bind
      intro _
      exact (keepsFrame_emitInst _).bind fun _ => keepsFrame_setCachedRegVreg ..
    · exact (keepsFrame_emitInst _).bind fun _ => keepsFrame_setCachedRegVreg ..

theorem keepsFrame_emitLoadGlobal (host : X86Host) (preserve : Bool) (id : Nat)
    (globalOffset : BitVec 64) (reg : Reg) :
    KeepsFrame (emitLoadGlobal host preserve id globalOffset reg) := by
  unfold emitLoadGlobal
  split
  · exact keepsFrame_emitMovImm ..
  · split
    · split
      · exact keepsFrame_emitMovImm ..
      · apply (keepsFrame_emitInst _).bind
        intro _
        exact (keepsFrame_emitAddImm ..).bind fun _ => keepsFrame_setCachedRegVreg ..
    · exact ⟨fun _ => rfl⟩

theorem keepsFrame_emitMemLoadSized (dst base : Reg) (disp : BitVec 32) (size : Nat) :
    KeepsFrame (emitMemLoadSized dst base disp size) := by
  unfold emitMemLoadSized
  split
  · exact (keepsFrame_emitInst _).bind fun _ => keepsFrame_setCachedRegVreg ..
  · exact keepsFrame_emitInst _

theorem KeepsFrame.onlyIf {p : Prop} [Decidable p] {x : X86M Unit} (hx : KeepsFrame x) :
    KeepsFrame (emitIf p x) := by
  unfold emitIf
  split
  · exact hx
  · exact ⟨fun _ => rfl⟩

theorem KeepsFrame.forM {f : Nat → X86M Unit} (hf : ∀ k, KeepsFrame (f k)) (ks : List Nat) :
    KeepsFrame (ks.forM f) := by
  induction ks with
  | nil => exact ⟨fun _ => rfl⟩
  | cons k ks ih => exact (hf k).bind fun _ => ih

theorem keepsFrame_emitMoves (h : ∀ off size, KeepsFrame (move off size)) (bytes : Nat) :
    KeepsFrame (emitMoves move bytes) := by
  apply (KeepsFrame.forM (fun k => h (8 * k) 8) _).bind
  intro _
  apply (h ..).onlyIf.bind
  intro _
  apply (h ..).onlyIf.bind
  intro _
  exact (h ..).onlyIf

theorem keepsFrame_emitMemCopyBaseToBase (dst src : Reg) (dstDisp srcDisp : BitVec 32)
    (bytes : Nat) : KeepsFrame (emitMemCopyBaseToBase dst dstDisp src srcDisp bytes) := by
  apply keepsFrame_emitMoves
  intro off size
  exact (keepsFrame_emitMemLoadSized ..).bind fun _ => keepsFrame_emitInst _

theorem frame_tagged (inst : X86Inst) (reg : Reg) (t : Nat) (c : X86Ctx) :
    ((do emitInst inst; setCachedRegVreg reg t : X86M Unit) c).2.frame = c.frame :=
  ((keepsFrame_emitInst inst).bind fun _ => keepsFrame_setCachedRegVreg reg t).frame c

theorem emitLoadSlot_apply (v : Nat) (reg : Reg) (c : X86Ctx) : emitLoadSlot v reg c =
    (if c.frame.lookupStaticAllocaOffset v ≠ 0 then do
      emitInst (.lea reg x86Rbp (c.frame.lookupStaticAllocaOffset v))
      setCachedRegVreg reg v
    else do
      let off ← slotOf v 8 8
      emitInst (.load 8 reg x86Rbp off)
      setCachedRegVreg reg v : X86M Unit) c := rfl

theorem emitLoadVreg_apply (v : Nat) (reg : Reg) (c : X86Ctx) : emitLoadVreg v reg c =
    (if c.frame.lookupStaticAllocaOffset v ≠ 0 then do
      emitInst (.lea reg x86Rbp (c.frame.lookupStaticAllocaOffset v))
      setCachedRegVreg reg v
    else if c.cachedRegHoldsVreg reg v then pure ()
    else match c.cachedScratch v reg with
      | some srcReg => do
        emitInst (.movReg reg srcReg)
        setCachedRegVreg reg v
      | none => emitLoadSlot v reg : X86M Unit) c := rfl

/-- A load of a vreg asks for at most one slot. -/
theorem frame_emitLoadVreg (v : Nat) (reg : Reg) (c : X86Ctx) :
    (emitLoadVreg v reg c).2.frame = c.frame ∨
      (emitLoadVreg v reg c).2.frame = (slotOf v 8 8 c).2.frame := by
  rw [emitLoadVreg_apply]
  by_cases hstatic : c.frame.lookupStaticAllocaOffset v ≠ 0
  · rw [if_pos hstatic]
    exact .inl (frame_tagged ..)
  · rw [if_neg hstatic]
    by_cases hcached : c.cachedRegHoldsVreg reg v = true
    · rw [if_pos hcached]
      exact .inl rfl
    · rw [if_neg hcached]
      cases hsrc : c.cachedScratch v reg with
      | some srcReg => exact .inl (frame_tagged ..)
      | none =>
        right
        change (emitLoadSlot v reg c).2.frame = _
        rw [emitLoadSlot_apply, if_neg hstatic]
        exact frame_tagged (.load 8 reg x86Rbp (slotOf v 8 8 c).1) reg v (slotOf v 8 8 c).2

theorem sound_emitLoadOperand {host : X86Host} {preserve : Bool} {op : LrOperand} {reg : Reg}
    (h : Sound (spare + 16) c) : Sound spare (emitLoadOperand host preserve op reg c).2 := by
  have hkeeps : ∀ {x : X86M Unit}, KeepsFrame x → Sound spare (x c).2 := fun hx =>
    (h.less (by omega)).congr (hx.frame c)
  cases hcase : op.value with
  | vreg v =>
    have hload : emitLoadOperand host preserve op reg = emitLoadVreg v reg := by
      rw [emitLoadOperand, hcase]
    rw [hload]
    rcases frame_emitLoadVreg v reg c with hframe | hframe
    · exact (h.less (by omega)).congr hframe
    · exact (sound_slotOf v h).1.congr hframe
  | immI64 | immF64 | null | undef =>
    simp only [emitLoadOperand, hcase]
    exact hkeeps (keepsFrame_emitMovImm ..)
  | global id =>
    simp only [emitLoadOperand, hcase]
    exact hkeeps (keepsFrame_emitLoadGlobal ..)
  | block b =>
    simp only [emitLoadOperand, hcase]
    exact h.less (by omega)

end Frames

/-- The slot has room for the value, or only for its address. -/
def HasRoom (c : X86Frame) (n v : Nat) : Prop :=
  c.lookupStaticAllocaOffset v ≠ 0 ∨ c.vregSlotSize v = 8 ∨ n ≤ c.vregSlotSize v

/-- Where a value of `n` bytes is in memory. -/
def valuePlace (c : X86Ctx) (σ : State) (n v : Nat) : BitVec 64 :=
  if n ≤ 8 then place σ x86Rbp (c.frame.slot v).off else dataPlace c σ v

/-- The cache and the static allocas are as before, and the frame is sound. -/
structure Moved (spare : Nat) (c c' : X86Ctx) : Prop where
  sound : Sound spare c'
  rax : c'.raxHoldsVreg = c.raxHoldsVreg
  rcx : c'.rcxHoldsVreg = c.rcxHoldsVreg
  statics : c'.frame.staticAllocaOffsets = c.frame.staticAllocaOffsets

section Vregs
variable {address : RelocRef → BitVec 64} {keep : Nat → Bool} {c d : X86Ctx} {σ : State}
  {n spare v : Nat} {base : Reg} {disp : BitVec 32}

theorem moved_sameBut {c₁ c₂ : X86Ctx} (h : Moved spare c c₁) (hc : SameBut c₁ c₂) :
    Moved spare c c₂ := by
  have hframe := SameBut.frame hc
  rw [SameBut] at hc
  refine ⟨h.sound.congr hframe, ?_, ?_, ?_⟩
  · rw [hc, h.rax]
  · rw [hc, h.rcx]
  · rw [hframe, h.statics]

theorem valuePlace_congr {σ' : State} (hbase : σ'.reg x86Rbp = σ.reg x86Rbp)
    (hmem : σ'.mem = σ.mem) (n v : Nat) : valuePlace d σ' n v = valuePlace d σ n v := by
  rw [valuePlace, valuePlace, dataPlace, dataPlace, freshValue_congr rfl hbase hmem, place, place,
    hbase]

theorem hasRoom_grows (h : Grows keep c d) (hkeep : keep v = true) (hroom : HasRoom c.frame n v) :
    HasRoom d.frame n v := by
  rcases hroom with hstatic | height | hle
  · left
    rwa [lookup_congr h.statics]
  · exact .inr (.inl (vregSlotSize_grows h hkeep height))
  · rcases h.slots v hkeep with hslot | ⟨-, hsize⟩
    · right
      right
      rwa [vregSlotSize, hslot]
    · right
      left
      rw [vregSlotSize, hsize]
      rfl

/-- The slot that an access of eight bytes finds or makes. -/
theorem moved_slotOf (h : Sound (spare + 16) c) (v : Nat) : Moved spare c (slotOf v 8 8 c).2 :=
  ⟨(sound_slotOf v h).1, rfl, rfl, statics_allocSlot ..⟩

theorem slotOf_eight (h : Sound (spare + 16) c) (v : Nat) :
    ((slotOf v 8 8 c).2.frame.slot v).off.toInt < 0 ∧ Slotted (slotOf v 8 8 c).2 v := by
  have hslot : Sound spare (slotOf v 8 8 c).2 ∧
      ((slotOf v 8 8 c).2.frame.slot v).off.toInt < 0 ∧ Slotted (slotOf v 8 8 c).2 v ∧ _ :=
    sound_slotOf v h
  exact ⟨hslot.2.1, hslot.2.2.1⟩

/-- An access of eight bytes leaves what is known of the sizes of slots. -/
theorem vregSlotSize_slotOf (h : Sound spare c) (w v : Nat) :
    (slotOf w 8 8 c).2.frame.vregSlotSize v = c.frame.vregSlotSize v := by
  have happ : Appends (target (fun _ => 0) (fun _ => true) false) (slotOf w 8 8) := appends_slotOf
  rcases (happ.step c).1.slots v rfl with hslot | ⟨hunset, hsize⟩
  · rw [vregSlotSize, vregSlotSize, hslot]
  · have hzero : c.frame.slot v = ⟨0, 0⟩ := by
      by_contra hset
      exact hunset (h.slotted hset)
    rw [vregSlotSize, vregSlotSize, hsize, hzero]
    rfl

theorem usesIndirect_iff {c : X86Frame} {size : SizeT}
    (hstatic : c.lookupStaticAllocaOffset v = 0) :
    c.usesIndirectAggregateStorage v size = true ↔ 8 < size.toNat ∧ c.vregSlotSize v = 8 := by
  have hlt : 8#64 < size ↔ 8 < size.toNat := Iff.rfl
  simp [usesIndirectAggregateStorage, hstatic, hlt]

/-- The value has room in the slot that an access of eight bytes finds or makes. -/
theorem hasRoom_slotOf (hroom : HasRoom c.frame n v)
    (hstatic : c.frame.lookupStaticAllocaOffset v = 0) :
    (slotOf v 8 8 c).2.frame.vregSlotSize v = 8 ∨ n ≤ (slotOf v 8 8 c).2.frame.vregSlotSize v := by
  have happ : Appends (target (fun _ => 0) (fun _ => true) false) (slotOf v 8 8) := appends_slotOf
  have hgrows : Grows (fun _ => true) c (slotOf v 8 8 c).2 := (happ.step c).1
  rcases hgrows.slots v rfl with hslot | ⟨-, hsize⟩
  · have hsame : (slotOf v 8 8 c).2.frame.vregSlotSize v = c.frame.vregSlotSize v := by
      rw [vregSlotSize, vregSlotSize, hslot]
    rw [hsame]
    exact hroom.resolve_left (not_not.2 hstatic)
  · left
    rw [vregSlotSize, hsize]
    rfl

/-- A value is in its slot unless it is longer than eight bytes and the slot is not. -/
theorem valuePlace_slot {e : X86Ctx} (hslot : d.frame.slot v = e.frame.slot v)
    (hstatic : d.frame.lookupStaticAllocaOffset v = 0)
    (hroom : 8 < n → e.frame.vregSlotSize v ≠ 8) :
    valuePlace d σ n v = place σ x86Rbp (e.frame.slot v).off := by
  have hsize : d.frame.vregSlotSize v = e.frame.vregSlotSize v := by
    rw [vregSlotSize, vregSlotSize, hslot]
  unfold valuePlace
  split
  · rw [hslot]
  · next hlong =>
    rw [dataPlace, if_neg, hslot]
    rintro (h | h)
    · exact h hstatic
    · exact hroom (Nat.not_le.1 hlong) (hsize ▸ h)

/-- A longer value whose slot has only room for a pointer is where it points. -/
theorem valuePlace_pointer {e : X86Ctx} (hslot : d.frame.slot v = e.frame.slot v)
    (hstatic : d.frame.lookupStaticAllocaOffset v = 0) (hn : 8 < n)
    (hsize : e.frame.vregSlotSize v = 8) :
    valuePlace d σ n v = load σ.mem (place σ x86Rbp (e.frame.slot v).off) 8 := by
  have hsame : d.frame.vregSlotSize v = 8 := by
    rw [← hsize, vregSlotSize, vregSlotSize, hslot]
  rw [valuePlace, if_neg (Nat.not_le.2 hn), dataPlace, if_pos (.inr hsame), freshValue,
    if_neg (not_not.2 hstatic), hslot]

instance appends_emitCopyVregValueBytesToBase (v n : Nat) (base : Reg) (disp : BitVec 32) :
    Appends (target address keep false) (emitCopyVregValueBytesToBase v n base disp) :=
  Appends.get

/-- The bytes of a value are copied from where they are. -/
theorem emits_emitCopyVregValueBytesToBase (hkeep : keep v = true) (hsound : Sound (spare + 16) c)
    (hroom : HasRoom c.frame n v) (hplain : c.frame.lookupStaticAllocaOffset v = 0 ∨ 8 < n)
    (hpos : 0 < n) (hn : n < 2 ^ 31)
    (hstatics : d.frame.staticAllocaOffsets = c.frame.staticAllocaOffsets)
    (h10 : base ≠ x86R10) (h11 : base ≠ x86R11) (hdisp : disp.toInt + n < 2 ^ 31)
    (hapart : ApartBytes (valuePlace d σ n v) n (place σ base disp) n) :
    Emits (target address keep false) (Fits d.frame.slot keep)
      (emitCopyVregValueBytesToBase v n base disp) c σ fun _ c' σ' =>
        Moved spare c c' ∧ KeepsRegs [x86R10, x86R11] σ σ' ∧
          Wrote σ.mem σ'.mem (place σ base disp)
            (fun i => σ.mem (valuePlace d σ n v + BitVec.ofNat 64 i)) n := by
  apply Emits.get
  rw [if_neg (Nat.ne_of_gt hpos)]
  apply Emits.ite
  · intro hstatic
    have hplace : valuePlace d σ n v =
        place σ x86Rbp (c.frame.lookupStaticAllocaOffset v) := by
      have hlong : ¬ n ≤ 8 := by
        have := hplain.resolve_left hstatic
        omega
      rw [valuePlace, if_neg hlong, dataPlace, lookup_congr hstatics, if_pos (.inl hstatic),
        freshValue, lookup_congr hstatics, if_pos hstatic]
    rw [hplace] at hapart ⊢
    have hdown := hsound.ok.statics v
    apply (emits_emitMemCopyBaseToBase fits_final h11 (by decide) hdisp (by omega) hapart).mono
    rintro _ c' σ' - ⟨hc', hregs, hwrote⟩
    exact ⟨moved_sameBut ⟨hsound.less (by omega), rfl, rfl, rfl⟩ hc', hregs.mono (by simp), hwrote⟩
  · intro hstatic
    replace hstatic : c.frame.lookupStaticAllocaOffset v = 0 := not_not.1 hstatic
    have hmoved := moved_slotOf hsound v
    obtain ⟨hdown, hslotted⟩ := slotOf_eight hsound v
    have hsize := hasRoom_slotOf hroom hstatic
    have hdstatic : d.frame.lookupStaticAllocaOffset v = 0 := by
      rw [lookup_congr hstatics, hstatic]
    apply Emits.bind fits_final
    apply Emits.silent rfl
    apply Emits.assume fits_final
    rw [slotOf_fst]
    generalize (slotOf v 8 8 c).2 = c₁ at *
    intro hfits
    have hslot := hfits v hkeep hslotted
    apply Emits.get
    apply Emits.ite
    · intro hle
      have hplace := valuePlace_slot (σ := σ) (n := n) hslot hdstatic (by omega)
      rw [hplace] at hapart ⊢
      apply (emits_emitMemCopyBaseToBase fits_final h11 (by decide) hdisp (by omega) hapart).mono
      rintro _ c' σ' - ⟨hc', hregs, hwrote⟩
      exact ⟨moved_sameBut hmoved hc', hregs.mono (by simp), hwrote⟩
    · intro hlong
      have height := hsize.resolve_right hlong
      rw [if_pos height]
      have hn8 : 8 < n := by omega
      have hplace := valuePlace_pointer (σ := σ) hslot hdstatic hn8 height
      rw [hplace] at hapart ⊢
      apply Emits.seq fits_final (emits_emitMemLoadSized fits_final ..)
      rintro _ c₂ σ₂ - ⟨-, hc₂, rfl⟩
      generalize hw : load σ.mem (place σ x86Rbp (c₁.frame.slot v).off) 8 = w at hapart ⊢
      have hload : load σ.mem (place σ x86Rbp (c₁.frame.slot v).off) (loadWidth 8) = w := hw
      rw [hload]
      have hsrc : w + (0 : BitVec 32).signExtend 64 = w := BitVec.add_zero w
      have hoff : (0 : BitVec 32).toInt + n < 2 ^ 31 := by
        have hzero : (0 : BitVec 32).toInt = 0 := rfl
        omega
      rw [← hsrc] at hapart
      apply (emits_copyLoaded fits_final h10 h11 (by decide) hdisp hoff hapart).mono
      rintro _ c' σ' - ⟨hc', hregs, hwrote⟩
      rw [hsrc] at hwrote
      exact ⟨moved_sameBut hmoved ((hc₂ (by decide) (by decide)).trans hc'), hregs, hwrote⟩

theorem vregSlotSize_slotted (h : Slotted c v) :
    c.frame.vregSlotSize v = (c.frame.slot v).size.toNat := by
  refine if_neg fun hzero => ?_
  have hsize := h.2
  rw [hzero] at hsize
  revert hsize
  decide

instance appends_emitStoreVreg (v n : Nat) :
    Appends (target address keep false) (emitStoreVreg v n) :=
  Appends.get

/-- A value of more than eight bytes goes to the address in RCX. -/
theorem emits_emitStoreVreg (hkeep : keep v = true) (hsound : Sound (spare + 16) c)
    (hroom : HasRoom c.frame n v) (hlong : 8 < n) (hn : n < 2 ^ 31)
    (hstatics : d.frame.staticAllocaOffsets = c.frame.staticAllocaOffsets)
    (hapart : ApartBytes (valuePlace d σ n v) n (σ.reg x86Rcx) n) :
    Emits (target address keep false) (Fits d.frame.slot keep) (emitStoreVreg v n) c σ
      fun _ _ σ' => KeepsRegs [x86Rax, x86R11] σ σ' ∧
        Wrote σ.mem σ'.mem (σ.reg x86Rcx)
          (fun i => σ.mem (valuePlace d σ n v + BitVec.ofNat 64 i)) n := by
  have hoff : (0 : BitVec 32).toInt + n < 2 ^ 31 := by
    have hzero : (0 : BitVec 32).toInt = 0 := rfl
    omega
  rw [← place_zero σ x86Rcx] at hapart ⊢
  apply Emits.get
  apply Emits.ite
  · intro hstatic
    have hplace : valuePlace d σ n v =
        place σ x86Rbp (c.frame.lookupStaticAllocaOffset v) := by
      rw [valuePlace, if_neg (Nat.not_le.2 hlong), dataPlace, lookup_congr hstatics,
        if_pos (.inl hstatic), freshValue, lookup_congr hstatics, if_pos hstatic]
    rw [hplace] at hapart ⊢
    have hdown := hsound.ok.statics v
    apply (emits_emitMemCopyBaseToBase fits_final (by decide) (by decide) hoff (by omega) hapart).mono
    rintro _ c' σ' - ⟨-, hregs, hwrote⟩
    exact ⟨hregs.mono (by simp), hwrote⟩
  · intro hstatic
    replace hstatic : c.frame.lookupStaticAllocaOffset v = 0 := not_not.1 hstatic
    obtain ⟨hdown, hslotted⟩ := slotOf_eight hsound v
    have hsize := hasRoom_slotOf hroom hstatic
    have hdstatic : d.frame.lookupStaticAllocaOffset v = 0 := by
      rw [lookup_congr hstatics, hstatic]
    apply Emits.bind fits_final
    apply Emits.silent rfl
    apply Emits.assume fits_final
    rw [slotOf_fst]
    generalize (slotOf v 8 8 c).2 = c₁ at *
    intro hfits
    have hslot := hfits v hkeep hslotted
    have hword := vregSlotSize_slotted hslotted
    apply Emits.get
    apply Emits.ite
    · intro hle
      have hplace := valuePlace_slot (σ := σ) (n := n) hslot hdstatic (by omega)
      rw [hplace] at hapart ⊢
      apply (emits_emitMemCopyBaseToBase fits_final (by decide) (by decide) hoff (by omega) hapart).mono
      rintro _ c' σ' - ⟨-, hregs, hwrote⟩
      exact ⟨hregs.mono (by simp), hwrote⟩
    · intro hshort
      have height := hsize.resolve_right (hword ▸ hshort)
      rw [if_pos (hword ▸ height)]
      have hplace := valuePlace_pointer (σ := σ) hslot hdstatic hlong height
      rw [hplace] at hapart ⊢
      apply Emits.seq fits_final (emits_emitInst _)
      rintro _ c₂ σ₂ - ⟨hc₂, rfl⟩
      generalize hw : load σ.mem (place σ x86Rbp (c₁.frame.slot v).off) 8 = w at hapart ⊢
      have hload : exec address σ (.load 8 x86Rax x86Rbp (c₁.frame.slot v).off) =
          σ.set x86Rax w := by
        rw [← hw]
        rfl
      rw [hload]
      have hsrc : w + (0 : BitVec 32).signExtend 64 = w := BitVec.add_zero w
      rw [← hsrc] at hapart
      apply (emits_copyLoaded fits_final (by decide) (by decide) (by decide) hoff hoff hapart).mono
      rintro _ c' σ' - ⟨hc', hregs, hwrote⟩
      rw [hsrc] at hwrote
      exact ⟨hregs, hwrote⟩

end Vregs

end Liric.Guarantees.X8664Memory
