import Liric.Guarantees.X8664Memory

/-!
# The code of LOAD, STORE, EXTRACTVALUE and INSERTVALUE

What each of the four does to the memory, for every size: the bytes that come into the slot
of the result, or to the address that is stored to.
-/
namespace Liric.Guarantees.AggregateCode
open Source.Ir Source.X8664 Lib Lib.X64
open Lib.A64 (load store)
open X8664Code X8664Values X8664Memory

variable {c' : X86Ctx} {σ' : State} {f : Nat → BitVec 8} {k m : Nat} {start : BitVec 64}

/-- The slot of the result has got the bytes `f`, and no other memory has changed. -/
structure Fills (c' : X86Ctx) (σ σ' : State) (dest n : Nat) (f : Nat → BitVec 8) : Prop where
  base : σ'.reg x86Rbp = σ.reg x86Rbp
  room : n ≤ 8 ∨ n ≤ (c'.frame.slot dest).size.toNat
  wrote : Wrote σ.mem σ'.mem (place σ x86Rbp (c'.frame.slot dest).off) f (max n 8)

/-- The bytes of a value that is loaded from `p`: a short one is extended with zeros. -/
def loadedByte (mem : Lib.A64.Mem) (p : BitVec 64) (n i : Nat) : BitVec 8 :=
  if n ≤ 8 then if i < loadWidth n then mem (p + BitVec.ofNat 64 i) else 0
  else mem (p + BitVec.ofNat 64 i)

section Code
variable {host : X86Host} {address : RelocRef → BitVec 64} {slot : Nat → StackSlot}
  {keep : Nat → Bool} {c : X86Ctx} {σ : State} {spare n : Nat} {dest : Nat}

theorem Fills.vregByte (h : Fills c' σ σ' dest n f)
    (hdest : c'.frame.lookupStaticAllocaOffset dest = 0) {i : Nat} (hi : i < n) :
    vregByte c' σ' n dest i = f i := by
  have hplace : place σ' x86Rbp (c'.frame.slot dest).off =
      place σ x86Rbp (c'.frame.slot dest).off := by
    rw [place, place, h.base]
  have hbyte := h.wrote.bytes i (by omega)
  unfold X8664Values.vregByte
  split
  · next hshort =>
    rw [freshValue, if_neg (not_not.2 hdest), hplace, load_byte _ _ (by omega), if_pos (by omega),
      hbyte]
  · next hlong =>
    have hsize := h.room.resolve_left hlong
    have hslot : dataPlace c' σ' dest = place σ x86Rbp (c'.frame.slot dest).off := by
      rw [dataPlace, if_neg, hplace]
      rintro (hstatic | height)
      · exact hstatic hdest
      · rw [X86Frame.vregSlotSize] at height
        split at height
        · next hzero =>
          rw [hzero] at hsize
          exact hlong (le_trans hsize (Nat.zero_le 8))
        · omega
    rw [hslot, hbyte]

/-- Loads of operands before it leave base and memory. -/
theorem Fills.after {σ₁ : State} {g : Nat → BitVec 8} (h : Fills c' σ₁ σ' dest n f)
    (hbase : σ₁.reg x86Rbp = σ.reg x86Rbp) (hmem : σ₁.mem = σ.mem) (hf : ∀ i < max n 8, f i = g i) :
    Fills c' σ σ' dest n g := by
  have hplace : place σ₁ x86Rbp (c'.frame.slot dest).off =
      place σ x86Rbp (c'.frame.slot dest).off := by
    rw [place, place, hbase]
  have hwrote := h.wrote.congr hf
  rw [hplace, hmem] at hwrote
  exact ⟨h.base.trans hbase, h.room, hwrote⟩

/-- A word in a slot. -/
theorem fills_of_store {w : BitVec 64} (hn : n ≤ 8) (hbase : σ'.reg x86Rbp = σ.reg x86Rbp)
    (hmem : σ'.mem = store σ.mem (place σ x86Rbp (c'.frame.slot dest).off) 8 w)
    (hf : ∀ i < 8, w.extractLsb' (8 * i) 8 = f i) : Fills c' σ σ' dest n f := by
  refine ⟨hbase, .inl hn, ?_⟩
  rw [hmem, max_eq_right hn]
  exact (Wrote.of_store _ _ _ (by decide)).congr hf

/-- Operands are loaded, and the frame grows by a slot at most. -/
theorem emits_operand {op : LrOperand} {reg : Reg} {p : BitVec 64} (hreg : Loadable reg)
    (hsound : Sound (spare + 16) c) (hp : Holds host address slot keep (k + 1) c σ op p) :
    Emits (target address keep false) (Fits slot keep) (emitLoadOperand host false op reg) c σ
      fun _ c' σ' => (Sound spare c' ∧ Grows keep c c') ∧
        Loaded host address slot keep k op reg c σ c' σ' := by
  have happ : Appends (target address keep false) (emitLoadOperand host false op reg) :=
    appends_emitLoadOperand reg
  exact Emits.withState ⟨sound_emitLoadOperand hsound, (happ.step c).1⟩
    (emits_emitLoadOperand hreg op ⟨p, hp⟩)

theorem toNat_sizeOr8 (size : SizeT) : (sizeOr8 size).toNat = if size.toNat = 0 then 8
    else size.toNat := by
  unfold sizeOr8
  by_cases h : size = 0
  · rw [if_pos h, h]
    rfl
  · have hne : size.toNat ≠ 0 := fun hzero => h (BitVec.eq_of_toNat_eq hzero)
    rw [if_neg h, if_neg hne]

theorem appends_emitLoadInst {desc : LrInst} {op0 : LrOperand} (hdest : keep desc.dest = false) :
    Appends (target address keep false) (emitLoadInst host desc op0) := by
  have hsize := slotSize_of_false hdest
  exact Appends.bind

/-- The long values of LOAD, from the address that the operand is loaded as. -/
theorem emits_loadLong {type : Option LrType} {size : SizeT} {p : BitVec 64}
    (hdest : keep dest = false) (hlong : 8 < size.toNat) (hbase : σ.reg x86Rax = p)
    (hsound : Sound (spare + max size.toNat 8 + max (typeAlign type).toNat 8) c) :
    Emits (target address keep false) (Fits slot keep) (do
        let dstOff ← slotOf dest size (typeAlign type)
        emitMemCopyBaseToBase x86Rbp dstOff x86Rax 0 size.toNat) c σ fun _ c' σ' =>
      ApartBytes p size.toNat (place σ x86Rbp (c'.frame.slot dest).off) size.toNat →
        Fills c' σ σ' dest size.toNat fun i => σ.mem (p + BitVec.ofNat 64 i) := by
  obtain ⟨hsound', hdown, -, hsize⟩ := sound_slotOf dest hsound
  have hroom := hsound.room
  have hcopy := fun off => keepsFrame_emitMemCopyBaseToBase x86Rbp x86Rax off 0 size.toNat
  have hfixed := slotSize_of_false hdest
  apply Emits.bind fits_final
  apply Emits.silent rfl
  rw [slotOf_fst]
  generalize (slotOf dest size (typeAlign type) c).2 = c₁ at *
  have hoff : (0 : BitVec 32).toInt + size.toNat < 2 ^ 31 := by
    have hzero : (0 : BitVec 32).toInt = 0 := rfl
    omega
  apply Emits.suppose
  · rw [(hcopy _).frame]
    exact id
  intro hapart
  have hsrc : place σ x86Rax 0 = p := by rw [place_zero, hbase]
  rw [← hsrc] at hapart ⊢
  apply (emits_emitMemCopyBaseToBase fits_final (by decide) (by decide) (by omega) hoff hapart).mono
  rintro _ c' σ' - ⟨hc', hregs, hwrote⟩
  rw [← SameBut.frame hc'] at hwrote hsize
  refine ⟨hregs.reg _ (by decide), .inr hsize, ?_⟩
  rw [max_eq_left (le_of_lt hlong)]
  exact hwrote

theorem emits_emitLoadInst {desc : LrInst} {op0 : LrOperand} {p : BitVec 64}
    (hdest : keep desc.dest = false) (hp : Holds host address slot keep 1 c σ op0 p)
    (hn : n = (sizeOr8 (typeSize desc.type)).toNat)
    (hsound : Sound (spare + max n 8 + max (typeAlign desc.type).toNat 8 + 16) c) :
    Emits (target address keep false) (Fits slot keep) (emitLoadInst host desc op0) c σ
      fun _ c' σ' => (8 < n → ApartBytes p n (place σ x86Rbp (c'.frame.slot desc.dest).off) n) →
        Fills c' σ σ' desc.dest n (loadedByte σ.mem p n) := by
  subst hn
  have hfixed := slotSize_of_false hdest
  apply Emits.seq fits_final (emits_operand (by decide) hsound hp)
  rintro _ c₁ σ₁ - ⟨⟨hsound₁, -⟩, hload⟩
  have hrax := hload.value p hp
  have hbase : σ₁.reg x86Rbp = σ.reg x86Rbp := hload.regs.reg x86Rbp (by decide)
  have hplace : ∀ off, place σ₁ x86Rbp off = place σ x86Rbp off := by
    intro off
    rw [place, place, hbase]
  apply Emits.ite
  · intro hlong
    replace hlong : 8 < (sizeOr8 (typeSize desc.type)).toNat := hlong
    apply (emits_loadLong hdest hlong hrax hsound₁).mono
    intro _ c' σ' _ hfills hapart
    rw [hplace] at hfills
    apply (hfills (hapart hlong)).after hbase hload.mem
    intro i _
    rw [loadedByte, if_neg (Nat.not_le.2 hlong), hload.mem]
  · intro hshort
    replace hshort : (sizeOr8 (typeSize desc.type)).toNat ≤ 8 := Nat.not_lt.1 hshort
    apply Emits.seq fits_final (emits_emitMemLoadSized fits_final ..)
    rintro _ c₂ σ₂ - ⟨-, -, rfl⟩
    rw [place_zero, hrax, hload.mem]
    generalize hw : load σ.mem p (loadWidth (sizeOr8 (typeSize desc.type)).toNat) = w
    have hslot : ∀ off, place (σ₁.set x86Rax w) x86Rbp off = place σ x86Rbp off := by
      intro off
      rw [← hplace, place, place, set_reg_of_ne _ _ (by decide)]
    apply (emits_emitStoreSlot fits_final desc.dest).mono
    rintro _ c' σ' - ⟨hreg, hmem, -⟩ -
    rw [hslot, set_mem, set_reg_self, hload.mem] at hmem
    refine fills_of_store hshort ?_ hmem fun i hi => ?_
    · rw [hreg, set_reg_of_ne _ _ (by decide), hbase]
    · rw [← hw, load_byte _ _ hi, loadedByte, if_pos hshort]

instance appends_emitStoreInst (op0 op1 : LrOperand) :
    Appends (target address keep false) (emitStoreInst host op0 op1) := by
  unfold emitStoreInst
  repeat' split
  all_goals infer_instance

section Store
variable {op0 op1 : LrOperand} {p w : BitVec 64}

/-- A store of at most eight bytes has the width of its size, or of four bytes. -/
theorem emits_storeShort (hp : Holds host address slot keep 2 c σ op1 p)
    (hw : Holds host address slot keep 2 c σ op0 w)
    (hshort : (sizeOr8 (typeSize op0.type)).toNat ≤ 8) (hsound : Sound (spare + 32) c) :
    Emits (target address keep false) (Fits slot keep) (emitStoreInst host op0 op1) c σ
      fun _ _ σ' => σ'.mem = store σ.mem p (storeWidth (sizeOr8 (typeSize op0.type)).toNat) w := by
  have hsmall : ¬ sizeOr8 (typeSize op0.type) > 8 := Nat.not_lt.2 hshort
  have hcode : emitStoreInst host op0 op1 = (do
      emitLoadOperand host false op1 x86Rcx
      emitLoadOperand host false op0 x86Rax
      emitMemStoreSized x86Rax x86Rcx 0 (sizeOr8 (typeSize op0.type)).toNat) := by
    unfold emitStoreInst
    simp only [if_neg hsmall]
  rw [hcode]
  apply Emits.seq fits_final (emits_operand (by decide) hsound hp)
  rintro _ c₁ σ₁ - ⟨⟨hsound₁, -⟩, hload₁⟩
  have hw₁ := hload₁.holds op0 w hw
  apply Emits.seq fits_final (emits_operand (by decide) hsound₁ hw₁)
  rintro _ c₂ σ₂ - ⟨-, hload₂⟩
  apply (emits_emitMemStoreSized ..).mono
  rintro _ c' σ' - ⟨-, rfl⟩
  have hrcx : σ₂.reg x86Rcx = p := by
    rw [hload₂.regs.reg x86Rcx (by decide), hload₁.value p hp]
  simp only [place_zero, hrcx, hload₂.value w hw₁, hload₂.mem, hload₁.mem]

/-- A longer vreg is copied from where its bytes are. -/
theorem emits_storeLong {d : X86Ctx} {v : Nat} (hvreg : op0.value = .vreg v)
    (hp : Holds host address d.frame.slot keep 1 c σ op1 p) (hkeep : keep v = true)
    (hn : n = (sizeOr8 (typeSize op0.type)).toNat) (hlong : 8 < n) (hbound : n < 2 ^ 31)
    (hroom : HasRoom c.frame n v) (hsound : Sound (spare + 32) c)
    (hstatics : d.frame.staticAllocaOffsets = c.frame.staticAllocaOffsets)
    (hapart : ApartBytes (valuePlace d σ n v) n p n) :
    Emits (target address keep false) (Fits d.frame.slot keep) (emitStoreInst host op0 op1) c σ
      fun _ _ σ' => Wrote σ.mem σ'.mem p
        (fun i => σ.mem (valuePlace d σ n v + BitVec.ofNat 64 i)) n := by
  have hbig : sizeOr8 (typeSize op0.type) > 8 := by
    change 8 < (sizeOr8 (typeSize op0.type)).toNat
    omega
  have hcode : emitStoreInst host op0 op1 = (do
      emitLoadOperand host false op1 x86Rcx
      emitStoreVreg v n) := by
    unfold emitStoreInst
    simp only [if_pos hbig, hvreg, hn]
  have hmore : Sound (spare + 16 + 16) c := hsound
  rw [hcode]
  apply Emits.seq fits_final (emits_operand (by decide) hmore hp)
  rintro _ c₁ σ₁ - ⟨⟨hsound₁, hgrows⟩, hload⟩
  have hrcx := hload.value p hp
  have hplace : valuePlace d σ₁ n v = valuePlace d σ n v :=
    valuePlace_congr (hload.regs.reg x86Rbp (by decide)) hload.mem n v
  rw [← hrcx, ← hplace] at hapart
  apply (emits_emitStoreVreg hkeep hsound₁ (hasRoom_grows hgrows hkeep hroom) hlong hbound
    (hstatics.trans hgrows.statics.symm) hapart).mono
  rintro _ c' σ' - ⟨-, hwrote⟩
  rw [hrcx, hplace, hload.mem] at hwrote
  exact hwrote

/-- A longer constant is zeros. -/
theorem emits_storeZero (hconst : ∀ v, op0.value ≠ .vreg v)
    (hp : Holds host address slot keep 1 c σ op1 p) (hn : n = (sizeOr8 (typeSize op0.type)).toNat)
    (hlong : 8 < n) (hbound : n < 2 ^ 31) (hsound : Sound (spare + 16) c) :
    Emits (target address keep false) (Fits slot keep) (emitStoreInst host op0 op1) c σ
      fun _ _ σ' => Wrote σ.mem σ'.mem p (fun _ => 0) n := by
  have hbig : sizeOr8 (typeSize op0.type) > 8 := by
    change 8 < (sizeOr8 (typeSize op0.type)).toNat
    omega
  have hcode : emitStoreInst host op0 op1 = (do
      emitLoadOperand host false op1 x86Rcx
      emitMemZeroBase x86Rcx 0 n) := by
    unfold emitStoreInst
    simp only [if_pos hbig, hn]
  rw [hcode]
  apply Emits.seq fits_final (emits_operand (by decide) hsound hp)
  rintro _ c₁ σ₁ - ⟨-, hload⟩
  have hoff : (0 : BitVec 32).toInt + n < 2 ^ 31 := by
    have hzero : (0 : BitVec 32).toInt = 0 := rfl
    omega
  apply (emits_emitMemZeroBase fits_final (by decide) hoff).mono
  rintro _ c' σ' - ⟨-, -, hwrote⟩
  rw [place_zero, hload.value p hp, hload.mem] at hwrote
  exact hwrote

end Store

instance appends_emitExtractLarge {dstAlign fieldOff fieldSz : SizeT} {v : Nat} {indirect : Bool}
    [∀ size, SlotSize keep dest size] :
    Appends (target address keep false)
      (emitExtractLarge dest dstAlign v indirect fieldOff fieldSz) :=
  Appends.bind

instance appends_emitExtractSmall (v : Nat) (indirect : Bool) (fieldOff fieldSz : SizeT) :
    Appends (target address keep false) (emitExtractSmall v indirect fieldOff fieldSz) :=
  Appends.bind

theorem appends_emitExtractvalue {desc : LrInst} {op0 : LrOperand}
    (hdest : keep desc.dest = false) :
    Appends (target address keep false) (emitExtractvalue host desc op0) := by
  have hsize := slotSize_of_false hdest
  unfold emitExtractvalue
  dsimp only
  split
  · exact Appends.get
  · exact Appends.ite
  · exact Appends.ite
  · exact Appends.bind

section Extract
variable {desc : LrInst} {op0 : LrOperand} {v : Nat} {off size : SizeT} {d : X86Ctx}

/-- The flag that the address of the aggregate is in the slot, and where the bytes are. -/
theorem valuePlace_flag (size : SizeT) (hsound : Sound (spare + 16) c)
    (hstatic : c.frame.lookupStaticAllocaOffset v = 0)
    (hstatics : d.frame.staticAllocaOffsets = c.frame.staticAllocaOffsets)
    (hslot : d.frame.slot v = (slotOf v 8 8 c).2.frame.slot v) :
    valuePlace d σ size.toNat v =
      if c.frame.usesIndirectAggregateStorage v size then
        load σ.mem (place σ x86Rbp ((slotOf v 8 8 c).2.frame.slot v).off) 8
      else place σ x86Rbp ((slotOf v 8 8 c).2.frame.slot v).off := by
  have hdstatic : d.frame.lookupStaticAllocaOffset v = 0 := by
    rw [lookup_congr hstatics, hstatic]
  have hsame := vregSlotSize_slotOf hsound v v
  split
  · next hindirect =>
    obtain ⟨hlong, height⟩ := (usesIndirect_iff hstatic).1 hindirect
    exact valuePlace_pointer hslot hdstatic hlong (hsame.trans height)
  · next hdirect =>
    apply valuePlace_slot hslot hdstatic
    intro hlong height
    exact hdirect ((usesIndirect_iff hstatic).2 ⟨hlong, hsame.symm.trans height⟩)

/-- A field of at most eight bytes is loaded from its place in the aggregate. -/
theorem emits_emitExtractSmall {field : SizeT} (hkeep : keep v = true)
    (hsound : Sound (spare + 16) c) (hstatic : c.frame.lookupStaticAllocaOffset v = 0)
    (hstatics : d.frame.staticAllocaOffsets = c.frame.staticAllocaOffsets)
    (hoff : off.toNat < 2 ^ 31) :
    Emits (target address keep false) (Fits d.frame.slot keep)
      (emitExtractSmall v (c.frame.usesIndirectAggregateStorage v size) off field) c σ
      fun _ _ σ' => KeepsRegs [x86Rax, x86R10] σ σ' ∧ σ'.mem = σ.mem ∧
        σ'.reg x86Rax = load σ.mem (valuePlace d σ size.toNat v + off) (loadWidth field.toNat) := by
  obtain ⟨hdown, hslotted⟩ := slotOf_eight hsound v
  have hflag := fun hslot => valuePlace_flag (σ := σ) (d := d) size hsound hstatic hstatics hslot
  apply Emits.bind fits_final
  apply Emits.silent rfl
  apply Emits.assume fits_final
  rw [slotOf_fst]
  generalize (slotOf v 8 8 c).2 = c₁ at *
  intro hfits
  rw [hflag (hfits v hkeep hslotted)]
  apply Emits.ite
  · intro hindirect
    rw [if_pos hindirect]
    apply Emits.seq fits_final (emits_emitMemLoadSized fits_final ..)
    rintro _ c₂ σ₂ - ⟨-, -, rfl⟩
    apply (emits_emitMemLoadSized fits_final ..).mono
    rintro _ c' σ' - ⟨-, -, rfl⟩
    have hplace : ∀ w, place (σ.set x86R10 w) x86R10 (off.setWidth 32) = w + off := by
      intro w
      rw [place_size _ _ hoff, set_reg_self]
    refine ⟨((keepsRegs_set σ x86R10 _).mono (by simp)).trans
      ((keepsRegs_set _ x86Rax _).mono (by simp)), rfl, ?_⟩
    rw [set_reg_self, hplace, set_mem]
    rfl
  · intro hdirect
    rw [if_neg hdirect]
    apply (emits_emitMemLoadSized fits_final ..).mono
    rintro _ c' σ' - ⟨-, -, rfl⟩
    refine ⟨(keepsRegs_set σ x86Rax _).mono (by simp), rfl, ?_⟩
    rw [set_reg_self, place_add_size _ _ (by omega)]

theorem keepsFrame_extractCopy (indirect : Bool) (dstOff srcOff off : BitVec 32) (n : Nat) :
    KeepsFrame (if indirect = true then do
        emitMemLoadSized x86R10 x86Rbp srcOff 8
        emitMemCopyBaseToBase x86Rbp dstOff x86R10 off n
      else emitMemCopyBaseToBase x86Rbp dstOff x86Rbp (srcOff + off) n) := by
  split
  · apply (keepsFrame_emitMemLoadSized ..).bind
    intro _
    exact keepsFrame_emitMemCopyBaseToBase ..
  · exact keepsFrame_emitMemCopyBaseToBase ..

instance appends_extractCopy (indirect : Bool) (dstOff srcOff off : BitVec 32) (n : Nat) :
    Appends (target address keep false) (if indirect = true then do
        emitMemLoadSized x86R10 x86Rbp srcOff 8
        emitMemCopyBaseToBase x86Rbp dstOff x86R10 off n
      else emitMemCopyBaseToBase x86Rbp dstOff x86Rbp (srcOff + off) n) :=
  Appends.ite

/-- A longer field is copied to the slot of the result. -/
theorem emits_extractCopy {field : Nat} (hkeep : keep v = true) (hne : v ≠ dest)
    (hsound : Sound (spare + 16) c) (hstatic : c.frame.lookupStaticAllocaOffset v = 0)
    (hstatics : d.frame.staticAllocaOffsets = c.frame.staticAllocaOffsets)
    (hbound : off.toNat + field < 2 ^ 31) (hlong : 8 < field)
    (hdst : (c.frame.slot dest).off.toInt + field < 2 ^ 31)
    (hroom : field ≤ (c.frame.slot dest).size.toNat) :
    Emits (target address keep false) (Fits d.frame.slot keep) (do
        let srcOff ← slotOf v 8 8
        if c.frame.usesIndirectAggregateStorage v size = true then do
          emitMemLoadSized x86R10 x86Rbp srcOff 8
          emitMemCopyBaseToBase x86Rbp (c.frame.slot dest).off x86R10 (off.setWidth 32) field
        else
          emitMemCopyBaseToBase x86Rbp (c.frame.slot dest).off x86Rbp
            (srcOff + off.setWidth 32) field) c σ fun _ c' σ' =>
      ApartBytes (valuePlace d σ size.toNat v + off) field
          (place σ x86Rbp (c'.frame.slot dest).off) field →
        Fills c' σ σ' dest field
          fun i => σ.mem (valuePlace d σ size.toNat v + off + BitVec.ofNat 64 i) := by
  obtain ⟨hdown, hslotted⟩ := slotOf_eight hsound v
  have hflag := fun hslot => valuePlace_flag (σ := σ) (d := d) size hsound hstatic hstatics hslot
  have hdest : (slotOf v 8 8 c).2.frame.slot dest = c.frame.slot dest :=
    slot_allocSlot c.frame v 8 8 dest (.inl hne.symm)
  apply Emits.bind fits_final
  apply Emits.silent rfl
  apply Emits.assume fits_final
  rw [slotOf_fst, ← hdest]
  rw [← hdest] at hdst hroom
  generalize (slotOf v 8 8 c).2 = c₁ at *
  intro hfits
  rw [hflag (hfits v hkeep hslotted)]
  apply Emits.suppose
  · rw [(keepsFrame_extractCopy ..).frame]
    exact id
  intro hapart
  have hfills : ∀ {c' : X86Ctx} {σ' : State} {f : Nat → BitVec 8}, SameBut c₁ c' →
      σ'.reg x86Rbp = σ.reg x86Rbp →
      Wrote σ.mem σ'.mem (place σ x86Rbp (c₁.frame.slot dest).off) f field →
      Fills c' σ σ' dest field f := by
    intro c' σ' f hc' hbase hwrote
    rw [← SameBut.frame hc'] at hwrote hroom
    refine ⟨hbase, .inr hroom, ?_⟩
    rw [max_eq_left (le_of_lt hlong)]
    exact hwrote
  apply Emits.ite
  · intro hindirect
    rw [if_pos hindirect] at hapart ⊢
    apply Emits.seq fits_final (emits_emitMemLoadSized fits_final ..)
    rintro _ c₂ σ₂ - ⟨-, hc₂, rfl⟩
    have hext : ∀ w : BitVec 64, w + (off.setWidth 32).signExtend 64 = w + off := by
      intro w
      have hplace : place ⟨fun _ => w, false, σ.mem⟩ x86Rax (off.setWidth 32) = w + off :=
        place_size _ _ (by omega)
      exact hplace
    have hoff : (off.setWidth 32).toInt = off.toNat := toInt_size (by omega)
    have hload : load σ.mem (place σ x86Rbp (c₁.frame.slot v).off) (loadWidth 8) =
        load σ.mem (place σ x86Rbp (c₁.frame.slot v).off) 8 := rfl
    rw [hload]
    rw [← hext] at hapart
    apply (emits_copyLoaded fits_final (by decide) (by decide) (by decide) hdst (by omega) hapart).mono
    rintro _ c' σ' - ⟨hc', hregs, hwrote⟩
    rw [hext] at hwrote
    exact hfills ((hc₂ (by decide) (by decide)).trans hc') (hregs.reg _ (by decide)) hwrote
  · intro hdirect
    rw [if_neg hdirect] at hapart ⊢
    have hsum : ((c₁.frame.slot v).off + off.setWidth 32).toInt =
        (c₁.frame.slot v).off.toInt + off.toNat := toInt_add_size (by omega)
    rw [← place_add_size σ x86Rbp (by omega)] at hapart ⊢
    apply (emits_emitMemCopyBaseToBase fits_final (by decide) (by decide) hdst (by omega) hapart).mono
    rintro _ c' σ' - ⟨hc', hregs, hwrote⟩
    exact hfills hc' (hregs.reg _ (by decide)) hwrote

/-- The index path of the instruction and the size of the field at its end. -/
def fieldPath (desc : LrInst) (type : Option LrType) : Option (SizeT × LrType) :=
  type.bind fun type => lrAggregateIndexPath type (instIndices desc)

/-- The alignment that EXTRACTVALUE and INSERTVALUE ask for. -/
def resultAlign (desc : LrInst) : SizeT := atLeast8 (desc.type.elim 8 lrTypeAlign)

theorem frame_slot_ne {e : X86Ctx} {size align : SizeT} (hne : v ≠ dest) :
    (slotOf dest size align e).2.frame.slot v = e.frame.slot v :=
  slot_allocSlot e.frame dest size align v (.inl hne)

/-- A field of an aggregate in a slot, or behind the pointer in it. -/
theorem emits_extractField {leaf : LrType} (hvreg : op0.value = .vreg v)
    (hpath : fieldPath desc op0.type = some (off, leaf)) (hkeep : keep v = true)
    (hdest : keep desc.dest = false) (hn : n = (sizeOr8 (lrTypeSize leaf)).toNat)
    (hsound : Sound (spare + 16 + max n 8 + max (resultAlign desc).toNat 8) c)
    (hstatic : c.frame.lookupStaticAllocaOffset v = 0)
    (hstatics : d.frame.staticAllocaOffsets = c.frame.staticAllocaOffsets)
    (hbound : off.toNat + n < 2 ^ 31) :
    Emits (target address keep false) (Fits d.frame.slot keep) (emitExtractvalue host desc op0) c σ
      fun _ c' σ' => (8 < n → ApartBytes (valuePlace d σ (typeSize op0.type).toNat v + off) n
          (place σ x86Rbp (c'.frame.slot desc.dest).off) n) →
        Fills c' σ σ' desc.dest n
          (loadedByte σ.mem (valuePlace d σ (typeSize op0.type).toNat v + off) n) := by
  have hne : v ≠ desc.dest := by
    rintro rfl
    rw [hkeep] at hdest
    cases hdest
  subst hn
  have hcode : emitExtractvalue host desc op0 = (do
      let c ← get
      if sizeOr8 (lrTypeSize leaf) > 8 then
        emitExtractLarge desc.dest (resultAlign desc) v
          (c.frame.usesIndirectAggregateStorage v (typeSize op0.type)) off
          (sizeOr8 (lrTypeSize leaf))
      else do
        emitExtractSmall v (c.frame.usesIndirectAggregateStorage v (typeSize op0.type)) off
          (sizeOr8 (lrTypeSize leaf))
        emitStoreSlot desc.dest x86Rax) := by
    have hpath' : (op0.type.bind fun type => lrAggregateIndexPath type (instIndices desc)) =
        some (off, leaf) := hpath
    unfold emitExtractvalue
    simp only [hpath', hvreg, Option.elim, resultAlign]
  rw [hcode]
  apply Emits.get
  apply Emits.ite
  · intro hlong
    replace hlong : 8 < (sizeOr8 (lrTypeSize leaf)).toNat := hlong
    obtain ⟨hsound₁, hdown, -, hsize⟩ := sound_slotOf desc.dest hsound
    have hfixed := slotSize_of_false hdest
    have hslot : (slotOf desc.dest (sizeOr8 (lrTypeSize leaf)) (resultAlign desc)
        c).2.frame.slot v = c.frame.slot v := frame_slot_ne hne
    have hsame : (slotOf desc.dest (sizeOr8 (lrTypeSize leaf)) (resultAlign desc)
        c).2.frame.staticAllocaOffsets = c.frame.staticAllocaOffsets := statics_allocSlot ..
    apply Emits.bind fits_final
    apply Emits.silent rfl
    rw [slotOf_fst]
    generalize (slotOf desc.dest (sizeOr8 (lrTypeSize leaf)) (resultAlign desc) c).2 = c₁ at *
    have hflag : c₁.frame.usesIndirectAggregateStorage v (typeSize op0.type) =
        c.frame.usesIndirectAggregateStorage v (typeSize op0.type) := by
      rw [X86Frame.usesIndirectAggregateStorage, X86Frame.usesIndirectAggregateStorage,
        lookup_congr hsame, X86Frame.vregSlotSize, X86Frame.vregSlotSize, hslot]
    rw [← hflag]
    apply (emits_extractCopy hkeep hne hsound₁ (by rw [lookup_congr hsame, hstatic])
      (hstatics.trans hsame.symm) hbound hlong (by omega) hsize).mono
    intro _ c' σ' _ hfills hapart
    apply (hfills (hapart hlong)).after rfl rfl
    intro i _
    rw [loadedByte, if_neg (Nat.not_le.2 hlong)]
  · intro hshort
    replace hshort : (sizeOr8 (lrTypeSize leaf)).toNat ≤ 8 := Nat.not_lt.1 hshort
    have hless : Sound (0 + 16) c := hsound.less (by omega)
    apply Emits.seq fits_final (emits_emitExtractSmall hkeep hless hstatic hstatics (by omega))
    rintro _ c₁ σ₁ - ⟨hregs, hmem, hrax⟩
    have hbase : σ₁.reg x86Rbp = σ.reg x86Rbp := hregs.reg _ (by decide)
    apply (emits_emitStoreSlot fits_final desc.dest).mono
    rintro _ c' σ' - ⟨hreg, hstore, -⟩ -
    have hplace : place σ₁ x86Rbp (c'.frame.slot desc.dest).off =
        place σ x86Rbp (c'.frame.slot desc.dest).off := by
      rw [place, place, hbase]
    rw [hplace, hmem, hrax] at hstore
    refine fills_of_store hshort (by rw [hreg, hbase]) hstore fun i hi => ?_
    rw [load_byte _ _ hi, loadedByte, if_pos hshort]

/-- A field of an undefined aggregate or of a null one is zeros. -/
theorem emits_extractZero (hop : op0.value = .undef ∨ op0.value = .null)
    (hdest : keep desc.dest = false)
    (hn : n = ((fieldPath desc op0.type).elim 8 fun p => sizeOr8 (lrTypeSize p.2)).toNat)
    (hsound : Sound (spare + max n 8 + max (resultAlign desc).toNat 8) c) :
    Emits (target address keep false) (Fits slot keep) (emitExtractvalue host desc op0) c σ
      fun _ c' σ' => Fills c' σ σ' desc.dest n fun _ => 0 := by
  have hcode : emitExtractvalue host desc op0 =
      (if ((fieldPath desc op0.type).elim 8 fun p => sizeOr8 (lrTypeSize p.2)) > 8 then do
        let dstOff ← slotOf desc.dest
          ((fieldPath desc op0.type).elim 8 fun p => sizeOr8 (lrTypeSize p.2)) (resultAlign desc)
        emitMemZeroBase x86Rbp dstOff n
      else do
        emitMovImm x86Rax 0 false
        emitStoreSlot desc.dest x86Rax) := by
    rw [hn]
    unfold emitExtractvalue
    rcases hop with hop | hop
    · rw [hop]
      rfl
    · rw [hop]
      rfl
  rw [hcode]
  generalize ((fieldPath desc op0.type).elim 8 fun p => sizeOr8 (lrTypeSize p.2)) = size at hn ⊢
  subst hn
  apply Emits.ite
  · intro hlong
    replace hlong : 8 < size.toNat := hlong
    obtain ⟨-, hdown, -, hsize⟩ := sound_slotOf desc.dest hsound
    have hroom := hsound.room
    have hfixed := slotSize_of_false hdest
    apply Emits.bind fits_final
    apply Emits.silent rfl
    rw [slotOf_fst]
    generalize (slotOf desc.dest size (resultAlign desc) c).2 = c₁ at *
    apply (emits_emitMemZeroBase fits_final (by decide) (by omega)).mono
    rintro _ c' σ' - ⟨htag, hregs, hwrote⟩
    rw [← htag.frame] at hwrote hsize
    refine ⟨hregs.reg _ (by decide), .inr hsize, ?_⟩
    rw [max_eq_left (le_of_lt hlong)]
    exact hwrote
  · intro hshort
    replace hshort : size.toNat ≤ 8 := Nat.not_lt.1 hshort
    apply Emits.seq fits_final (emits_emitMovImm fits_final x86Rax 0)
    rintro _ c₁ σ₁ - ⟨-, hregs, hmem, hrax⟩
    have hbase : σ₁.reg x86Rbp = σ.reg x86Rbp := hregs.reg _ (by decide)
    apply (emits_emitStoreSlot fits_final desc.dest).mono
    rintro _ c' σ' - ⟨hreg, hstore, -⟩
    have hplace : place σ₁ x86Rbp (c'.frame.slot desc.dest).off =
        place σ x86Rbp (c'.frame.slot desc.dest).off := by
      rw [place, place, hbase]
    rw [hplace, hmem, hrax] at hstore
    exact fills_of_store hshort (by rw [hreg, hbase]) hstore fun i _ => by simp

/-- Any other operand is taken for the field, as a word. -/
theorem emits_extractOther {w : BitVec 64} (hvreg : ∀ v, op0.value ≠ .vreg v)
    (hundef : op0.value ≠ .undef) (hnull : op0.value ≠ .null)
    (hw : Holds host address slot keep 1 c σ op0 w) :
    Emits (target address keep false) (Fits slot keep) (emitExtractvalue host desc op0) c σ
      fun _ c' σ' => σ'.reg x86Rbp = σ.reg x86Rbp ∧
        σ'.mem = store σ.mem (place σ x86Rbp (c'.frame.slot desc.dest).off) 8 w := by
  have hcode : emitExtractvalue host desc op0 = (do
      emitLoadOperand host false op0 x86Rax
      emitStoreSlot desc.dest x86Rax) := by
    unfold emitExtractvalue
    cases hcase : op0.value with
    | vreg v => exact absurd hcase (hvreg v)
    | undef => exact absurd hcase hundef
    | null => exact absurd hcase hnull
    | immI64 | immF64 | global | block => rfl
  rw [hcode]
  apply Emits.seq fits_final (emits_emitLoadOperand (by decide) op0 ⟨w, hw⟩)
  rintro _ c₁ σ₁ - hload
  have hbase : σ₁.reg x86Rbp = σ.reg x86Rbp := hload.regs.reg _ (by decide)
  apply (emits_emitStoreSlot fits_final desc.dest).mono
  rintro _ c' σ' - ⟨hreg, hstore, -⟩
  have hplace : place σ₁ x86Rbp (c'.frame.slot desc.dest).off =
      place σ x86Rbp (c'.frame.slot desc.dest).off := by
    rw [place, place, hbase]
  rw [hplace, hload.mem, hload.value w hw] at hstore
  exact ⟨by rw [hreg, hbase], hstore⟩

end Extract

/-- Null, undefined, or the number 0. -/
def IsZero (op : LrOperand) : Prop :=
  op.value = .null ∨ op.value = .undef ∨ op.value = .immI64 0

/-- The bytes of an operand that is a vreg or zero. -/
def storedByte (d : X86Ctx) (σ : State) (n : Nat) (op : LrOperand) (i : Nat) : BitVec 8 :=
  match op.value with
  | .vreg v => σ.mem (valuePlace d σ n v + BitVec.ofNat 64 i)
  | _ => 0

/-- The registers that are cached are as before, or they are not cached any more. -/
structure CacheKept (c c' : X86Ctx) (σ σ' : State) : Prop where
  rax : c'.raxHoldsVreg = uint32Max ∨
    (c'.raxHoldsVreg = c.raxHoldsVreg ∧ σ'.reg x86Rax = σ.reg x86Rax)
  rcx : c'.rcxHoldsVreg = uint32Max ∨
    (c'.rcxHoldsVreg = c.rcxHoldsVreg ∧ σ'.reg x86Rcx = σ.reg x86Rcx)

/-- What a part of the code leaves to the next. -/
structure Leaves (spare : Nat) (c c' : X86Ctx) (σ σ' : State) : Prop where
  sound : Sound spare c'
  statics : c'.frame.staticAllocaOffsets = c.frame.staticAllocaOffsets
  cache : CacheKept c c' σ σ'
  base : σ'.reg x86Rbp = σ.reg x86Rbp

theorem Leaves.of_moved (h : Moved spare c c') {rs : List Reg} (hregs : KeepsRegs rs σ σ')
    (hrs : x86Rax ∉ rs ∧ x86Rcx ∉ rs ∧ x86Rbp ∉ rs) :
    Leaves spare c c' σ σ' where
  sound := h.sound
  statics := h.statics
  cache := ⟨.inr ⟨h.rax, hregs.reg _ hrs.1⟩, .inr ⟨h.rcx, hregs.reg _ hrs.2.1⟩⟩
  base := hregs.reg _ hrs.2.2

theorem Leaves.of_tagged (hsound : Sound spare c) (h : Tagged x86Rax uint32Max c c')
    (hregs : KeepsRegs [x86Rax] σ σ') :
    Leaves spare c c' σ σ' where
  sound := hsound.congr h.frame
  statics := by rw [h.frame]
  cache := ⟨.inl h.rax, .inr ⟨h.rcx, hregs.reg _ (by decide)⟩⟩
  base := hregs.reg _ (by decide)

/-- An operand stays where it is while other bytes are written. -/
theorem holds_of_leaves {op : LrOperand} {a : BitVec 64} {k' : Nat}
    (h : Holds host address slot keep k c σ op a) (hleaves : Leaves spare c c' σ σ')
    (hk : 16 * k' ≤ spare) (hwrote : Wrote σ.mem σ'.mem start f n)
    (hapart : ∀ v, op.value = .vreg v → c.frame.lookupStaticAllocaOffset v = 0 →
      ApartBytes (place σ x86Rbp (slot v).off) 8 start n) :
    Holds host address slot keep k' c' σ' op a := by
  cases hcase : op.value with
  | immI64 | immF64 | block | global | null | undef =>
    rw [X8664Code.Holds, hcase] at h ⊢
    exact h
  | vreg v =>
    rw [X8664Code.Holds, hcase] at h ⊢
    replace h : VregHolds slot keep k c σ v a := h
    change VregHolds slot keep k' c' σ' v a
    have hplace : ∀ off, place σ' x86Rbp off = place σ x86Rbp off := by
      intro off
      rw [place, place, hleaves.base]
    refine ⟨h.isVreg, h.kept, hleaves.sound.ready hk v, fun htag => ?_, fun htag => ?_, ?_⟩
    · rcases hleaves.cache.rax with hnone | ⟨hsame, hreg⟩
      · exact absurd (htag.symm.trans hnone) (ne_of_lt h.isVreg)
      · rw [hreg, h.rax (hsame.symm.trans htag)]
    · rcases hleaves.cache.rcx with hnone | ⟨hsame, hreg⟩
      · exact absurd (htag.symm.trans hnone) (ne_of_lt h.isVreg)
      · rw [hreg, h.rcx (hsame.symm.trans htag)]
    · have hfresh := h.fresh
      rw [freshValue] at hfresh
      rw [freshValue, lookup_congr hleaves.statics, hplace, hplace]
      split at hfresh
      · next hstatic => rw [if_pos hstatic, hfresh]
      · next hstatic =>
        rw [if_neg hstatic, hwrote.load_eq (hapart v hcase (not_not.1 hstatic)), hfresh]

section Insert
variable {op0 op1 : LrOperand} {d : X86Ctx} {disp : BitVec 32} {size : SizeT}

instance appends_emitInsertBase (op0 : LrOperand) (disp : BitVec 32) (size : SizeT) :
    Appends (target address keep false) (emitInsertBase host op0 disp size) := by
  unfold emitInsertBase
  split <;> infer_instance

/-- The aggregate comes into the slot of the result. -/
theorem emits_emitInsertBase (hkeep : ∀ v, op0.value = .vreg v → keep v = true)
    (hsound : Sound (spare + 16) c)
    (hop : IsZero op0 ∨ ∃ v, op0.value = .vreg v ∧ HasRoom c.frame size.toNat v ∧
      c.frame.lookupStaticAllocaOffset v = 0)
    (hlow : 8 ≤ size.toNat) (hhigh : size.toNat < 2 ^ 31)
    (hstatics : d.frame.staticAllocaOffsets = c.frame.staticAllocaOffsets)
    (hdisp : disp.toInt + size.toNat < 2 ^ 31)
    (hapart : ∀ v, op0.value = .vreg v →
      ApartBytes (valuePlace d σ size.toNat v) size.toNat (place σ x86Rbp disp) size.toNat) :
    Emits (target address keep false) (Fits d.frame.slot keep) (emitInsertBase host op0 disp size)
      c σ fun _ c' σ' => Leaves spare c c' σ σ' ∧
        Wrote σ.mem σ'.mem (place σ x86Rbp disp) (storedByte d σ size.toNat op0) size.toNat := by
  have hless : Sound spare c := hsound.less (by omega)
  have hzero : (∀ v, op0.value ≠ .vreg v) →
      Emits (target address keep false) (Fits d.frame.slot keep)
        (emitMemZeroBase x86Rbp disp size.toNat) c σ fun _ c' σ' => Leaves spare c c' σ σ' ∧
          Wrote σ.mem σ'.mem (place σ x86Rbp disp) (storedByte d σ size.toNat op0) size.toNat := by
    intro hno
    apply (emits_emitMemZeroBase fits_final (by decide) hdisp).mono
    rintro _ c' σ' - ⟨htag, hregs, hwrote⟩
    refine ⟨Leaves.of_tagged hless htag hregs, hwrote.congr fun i _ => ?_⟩
    unfold storedByte
    split
    · next v hv => exact absurd hv (hno v)
    · rfl
  rcases hop with (hnull | hundef | himm) | ⟨v, hvreg, hroom, hstatic⟩
  · simp only [emitInsertBase, hnull]
    exact hzero (by simp [hnull])
  · simp only [emitInsertBase, hundef]
    exact hzero (by simp [hundef])
  · simp only [emitInsertBase, himm]
    apply Emits.ite
    · intro hshort
      have height : size.toNat = 8 := le_antisymm hshort hlow
      have hload : emitLoadOperand host false op0 x86Rax = emitMovImm x86Rax 0 false := by
        rw [emitLoadOperand, himm]
      rw [hload]
      apply Emits.seq fits_final (emits_emitMovImm fits_final x86Rax 0)
      rintro _ c₁ σ₁ - ⟨htag, hregs, hmem, hrax⟩
      apply (emits_emitMemStoreSized ..).mono
      rintro _ c' σ' - ⟨hc', rfl⟩
      have hkept : Tagged x86Rax uint32Max c c' := by
        rw [SameBut] at hc'
        rw [hc']
        exact ⟨htag.rax, htag.rcx, htag.frame⟩
      refine ⟨Leaves.of_tagged hless hkept ⟨hregs.reg⟩, ?_⟩
      have hplace : place σ₁ x86Rbp disp = place σ x86Rbp disp := by
        rw [place, place, hregs.reg _ (by decide)]
      simp only [hplace, hmem, hrax, height]
      apply (Wrote.of_store σ.mem (place σ x86Rbp disp) 0 (by decide)).congr
      intro i _
      simp [storedByte, himm]
    · intro _
      exact hzero (by simp [himm])
  · simp only [emitInsertBase, hvreg]
    apply (emits_emitCopyVregValueBytesToBase (hkeep v hvreg) hsound hroom (.inl hstatic)
      (by omega) hhigh hstatics (by decide) (by decide) hdisp (hapart v hvreg)).mono
    rintro _ c' σ' - ⟨hmoved, hregs, hwrote⟩
    refine ⟨Leaves.of_moved hmoved hregs (by decide), hwrote.congr fun i _ => ?_⟩
    rw [storedByte, hvreg]

instance appends_emitInsertField (op1 : LrOperand) (disp : BitVec 32) (size : SizeT) :
    Appends (target address keep false) (emitInsertField host op1 disp size) := by
  unfold emitInsertField
  repeat' split
  all_goals infer_instance

/-- The bytes of a field: those of its word, or those of memory. -/
def fieldByte (d : X86Ctx) (σ : State) (w : BitVec 64) (n : Nat) (op : LrOperand) (i : Nat) :
    BitVec 8 :=
  if n ≤ 8 then w.extractLsb' (8 * i) 8 else storedByte d σ n op i

/-- A field of a width that there is comes into the aggregate. -/
theorem emits_emitInsertField {w : BitVec 64} (hkeep : ∀ v, op1.value = .vreg v → keep v = true)
    (hsound : Sound (spare + 16) c) (hw : Holds host address d.frame.slot keep 1 c σ op1 w)
    (hwidth : size.toNat ≤ 8 → size.toNat = 0 ∨ storeWidth size.toNat = size.toNat)
    (hop : 8 < size.toNat → IsZero op1 ∨ ∃ v, op1.value = .vreg v ∧ HasRoom c.frame size.toNat v)
    (hhigh : size.toNat < 2 ^ 31)
    (hstatics : d.frame.staticAllocaOffsets = c.frame.staticAllocaOffsets)
    (hdisp : disp.toInt + size.toNat < 2 ^ 31)
    (hapart : 8 < size.toNat → ∀ v, op1.value = .vreg v →
      ApartBytes (valuePlace d σ size.toNat v) size.toNat (place σ x86Rbp disp) size.toNat) :
    Emits (target address keep false) (Fits d.frame.slot keep) (emitInsertField host op1 disp size)
      c σ fun _ _ σ' => σ'.reg x86Rbp = σ.reg x86Rbp ∧
        Wrote σ.mem σ'.mem (place σ x86Rbp disp) (fieldByte d σ w size.toNat op1) size.toNat := by
  apply Emits.ite
  · intro hnone
    apply Emits.pure
    rw [hnone]
    exact ⟨rfl, Wrote.nothing ..⟩
  intro hsome
  have hpos : size.toNat ≠ 0 := fun hzero => hsome (BitVec.eq_of_toNat_eq hzero)
  apply Emits.ite
  · intro hlong
    replace hlong : 8 < size.toNat := hlong
    rcases hop hlong with hzero | ⟨v, hvreg, hroom⟩
    · have hno : ∀ v, op1.value ≠ .vreg v := by
        intro v hv
        rcases hzero with h | h | h <;> rw [hv] at h <;> cases h
      split
      · next v hv => exact absurd hv (hno v)
      · apply (emits_emitMemZeroBase fits_final (by decide) hdisp).mono
        rintro _ c' σ' - ⟨-, hregs, hwrote⟩
        refine ⟨hregs.reg _ (by decide), hwrote.congr fun i _ => ?_⟩
        rw [fieldByte, if_neg (Nat.not_le.2 hlong), storedByte]
        split
        · next v hv => exact absurd hv (hno v)
        · rfl
    · simp only [hvreg]
      apply (emits_emitCopyVregValueBytesToBase (hkeep v hvreg) hsound hroom (.inr hlong)
        (by omega) hhigh hstatics (by decide) (by decide) hdisp (hapart hlong v hvreg)).mono
      rintro _ c' σ' - ⟨-, hregs, hwrote⟩
      refine ⟨hregs.reg _ (by decide), hwrote.congr fun i _ => ?_⟩
      rw [fieldByte, if_neg (Nat.not_le.2 hlong), storedByte, hvreg]
  · intro hshort
    replace hshort : size.toNat ≤ 8 := Nat.not_lt.1 hshort
    have hstore := (hwidth hshort).resolve_left hpos
    apply Emits.seq fits_final (emits_emitLoadOperand (by decide) op1 ⟨w, hw⟩)
    rintro _ c₁ σ₁ - hload
    apply (emits_emitMemStoreSized ..).mono
    rintro _ c' σ' - ⟨-, rfl⟩
    have hbase : σ₁.reg x86Rbp = σ.reg x86Rbp := hload.regs.reg _ (by decide)
    have hplace : place σ₁ x86Rbp disp = place σ x86Rbp disp := by rw [place, place, hbase]
    refine ⟨hbase, ?_⟩
    simp only [hplace, hload.mem, hload.value w hw, hstore]
    apply (Wrote.of_store _ _ _ hshort).congr
    intro i _
    rw [fieldByte, if_pos hshort]

/-- Bytes that are written elsewhere leave a value where it is. -/
theorem valuePlace_wrote {v : Nat} (hbase : σ'.reg x86Rbp = σ.reg x86Rbp)
    (hwrote : Wrote σ.mem σ'.mem start f m) (hapart : d.frame.lookupStaticAllocaOffset v = 0 →
      ApartBytes (place σ x86Rbp (d.frame.slot v).off) 8 start m) :
    valuePlace d σ' n v = valuePlace d σ n v := by
  have hplace : ∀ off, place σ' x86Rbp off = place σ x86Rbp off := by
    intro off
    rw [place, place, hbase]
  have hfresh : freshValue d d.frame.slot σ' v = freshValue d d.frame.slot σ v := by
    rw [freshValue, freshValue, hplace, hplace]
    split
    · rfl
    · next hstatic => rw [hwrote.load_eq (hapart (not_not.1 hstatic))]
  rw [valuePlace, valuePlace, dataPlace, dataPlace, hfresh, hplace]

theorem ApartBytes.inside {a b : BitVec 64} {n off : Nat} (h : ApartBytes a n b m)
    (hle : off + k ≤ m) : ApartBytes a n (b + BitVec.ofNat 64 off) k := by
  intro i hi j hj
  rw [add_ofNat_add]
  exact h i hi _ (by omega)

/-- The operands have no byte in the slot that the result is put into. -/
structure InsertApart (d : X86Ctx) (σ : State) (op0 op1 : LrOperand) (n field : Nat)
    (start : BitVec 64) : Prop where
  base : ∀ v, op0.value = .vreg v → ApartBytes (valuePlace d σ n v) n start n
  word : ∀ v, op1.value = .vreg v → d.frame.lookupStaticAllocaOffset v = 0 →
    ApartBytes (place σ x86Rbp (d.frame.slot v).off) 8 start n
  long : 8 < field → ∀ v, op1.value = .vreg v → ApartBytes (valuePlace d σ field v) field start n

/-- The bytes of the result: those of the field in their place, else those of the aggregate. -/
def insertedByte (d : X86Ctx) (σ : State) (w : BitVec 64) (op0 op1 : LrOperand)
    (n off field i : Nat) : BitVec 8 :=
  if off ≤ i ∧ i < off + field then fieldByte d σ w field op1 (i - off) else storedByte d σ n op0 i

theorem fieldByte_leaves {w : BitVec 64} (hbase : σ'.reg x86Rbp = σ.reg x86Rbp)
    (hwrote : Wrote σ.mem σ'.mem start f m)
    (hword : ∀ v, op1.value = .vreg v → d.frame.lookupStaticAllocaOffset v = 0 →
      ApartBytes (place σ x86Rbp (d.frame.slot v).off) 8 start m)
    (hlong : 8 < n → ∀ v, op1.value = .vreg v → ApartBytes (valuePlace d σ n v) n start m) {i : Nat}
    (hi : i < n) : fieldByte d σ' w n op1 i = fieldByte d σ w n op1 i := by
  unfold fieldByte
  split
  · rfl
  · next hbig =>
    unfold storedByte
    split
    · next v hv =>
      rw [valuePlace_wrote hbase hwrote (hword v hv)]
      exact hwrote.frame _ (hlong (Nat.not_le.1 hbig) v hv i hi)
    · rfl

/-- Behind the allocation of the result. -/
theorem emits_insertRest {off field : SizeT} {w : BitVec 64} (hslotted : Slotted c dest)
    (hdown : (c.frame.slot dest).off.toInt < 0) (hsound : Sound (spare + 64) c)
    (hop : IsZero op0 ∨ ∃ v, op0.value = .vreg v ∧ HasRoom c.frame size.toNat v ∧
      c.frame.lookupStaticAllocaOffset v = 0)
    (hlow : 8 ≤ size.toNat) (hhigh : size.toNat < 2 ^ 31)
    (hin : off.toNat + field.toNat ≤ size.toNat)
    (hw : Holds host address d.frame.slot (fun _ => true) 2 c σ op1 w)
    (hwidth : field.toNat ≤ 8 → field.toNat = 0 ∨ storeWidth field.toNat = field.toNat)
    (hfield : 8 < field.toNat → IsZero op1 ∨ ∃ v, op1.value = .vreg v ∧
      HasRoom c.frame field.toNat v)
    (hstatics : d.frame.staticAllocaOffsets = c.frame.staticAllocaOffsets)
    (hapart : InsertApart d σ op0 op1 size.toNat field.toNat
      (place σ x86Rbp (d.frame.slot dest).off)) :
    Emits (target address (fun _ => true) false) (Fits d.frame.slot fun _ => true) (do
        emitInsertBase host op0 (c.frame.slot dest).off size
        emitInsertField host op1 ((c.frame.slot dest).off + off.setWidth 32) field) c σ
      fun _ _ σ' => σ'.reg x86Rbp = σ.reg x86Rbp ∧
        Wrote σ.mem σ'.mem (place σ x86Rbp (d.frame.slot dest).off)
          (insertedByte d σ w op0 op1 size.toNat off.toNat field.toNat) size.toNat := by
  have hF : (target address (fun _ => true) false).Final (Fits d.frame.slot fun _ => true) :=
    fits_final
  apply Emits.assume hF
  intro hfits
  rw [hfits dest rfl hslotted] at hapart ⊢
  have hless : Sound (spare + 48 + 16) c := hsound
  have hfirst : Appends (target address (fun _ => true) false)
      (emitInsertBase host op0 (c.frame.slot dest).off size) := appends_emitInsertBase ..
  have hbase : Emits (target address (fun _ => true) false) (Fits d.frame.slot fun _ => true)
      (emitInsertBase host op0 (c.frame.slot dest).off size) c σ fun _ c' σ' =>
        Leaves (spare + 48) c c' σ σ' ∧ Wrote σ.mem σ'.mem (place σ x86Rbp (c.frame.slot dest).off)
          (storedByte d σ size.toNat op0) size.toNat :=
    emits_emitInsertBase (fun _ _ => rfl) hless hop hlow hhigh hstatics (by omega) hapart.base
  apply Emits.seq hF (Emits.withState (hfirst.step c).1 hbase)
  rintro _ c₁ σ₁ - ⟨hgrows, hleaves, hwrote⟩
  have hstatic : ∀ {v}, c.frame.lookupStaticAllocaOffset v = 0 →
      d.frame.lookupStaticAllocaOffset v = 0 := by
    intro v h
    rw [lookup_congr hstatics, h]
  have hw₁ : Holds host address d.frame.slot (fun _ => true) 1 c₁ σ₁ op1 w :=
    holds_of_leaves hw hleaves (by omega) hwrote fun v hv h => hapart.word v hv (hstatic h)
  have hsame : ∀ {i}, i < field.toNat →
      fieldByte d σ₁ w field.toNat op1 i = fieldByte d σ w field.toNat op1 i := fun hi =>
    fieldByte_leaves hleaves.base hwrote hapart.word hapart.long hi
  have hoff : off = BitVec.ofNat 64 off.toNat := by rw [BitVec.ofNat_toNat, BitVec.setWidth_eq]
  have hplace : place σ₁ x86Rbp ((c.frame.slot dest).off + off.setWidth 32) =
      place σ x86Rbp (c.frame.slot dest).off + BitVec.ofNat 64 off.toNat := by
    rw [place_add_size _ _ (by omega), ← hoff, place, place, hleaves.base]
  have hroom : Sound (0 + 16) c₁ := hleaves.sound.less (by omega)
  have hdisp : ((c.frame.slot dest).off + off.setWidth 32).toInt =
      (c.frame.slot dest).off.toInt + off.toNat := toInt_add_size (by omega)
  apply (emits_emitInsertField (fun _ _ => rfl) hroom hw₁ hwidth
    (fun hlong => (hfield hlong).imp_right
      (Exists.imp fun v hv => ⟨hv.1, hasRoom_grows hgrows rfl hv.2⟩))
    (by omega) (hstatics.trans hleaves.statics.symm) (by omega) fun hlong v hv => ?_).mono
  · rintro _ c' σ' - ⟨hbase', hwrote'⟩
    rw [hplace] at hwrote'
    refine ⟨hbase'.trans hleaves.base, ?_⟩
    exact hwrote.overwrite (hwrote'.congr fun i hi => hsame hi) hin (by omega)
  · rw [hplace, valuePlace_wrote hleaves.base hwrote (hapart.word v hv)]
    exact ApartBytes.inside (hapart.long hlong v hv) hin

end Insert

end Code

end Liric.Guarantees.AggregateCode
