import Liric.Guarantees.FrameSlots
import Liric.Lib.Runs

/-!
# The alignment of static allocas on x86_64

The offset of an alloca is the negative of the frame after its bytes were added. Rounding
comes before that sum, so the address is aligned when the sum is.
-/
namespace Liric.Guarantees.AllocaAlignment
open Lib Source.X8664 FrameSlots

def step (c : X86Frame) (call : FrameCall) : Option X86Frame := some (c.call call).2

/-- The alignment of the request and of the type, whichever is larger. -/
def wanted (desc : AllocaDesc) : Nat := max desc.align.toNat (typeAlign desc.type).toNat

/-- The address of an alloca is a multiple of the alignment that it wants. -/
def Aligned (c : X86Frame) : FrameCall → Prop
  | .alloca desc => ∀ rbp : Nat, 16 ∣ rbp →
    (wanted desc : Int) ∣ rbp + (c.call (.alloca desc)).1.toInt
  | _ => True

def totalSz (desc : AllocaDesc) : Nat := (desc.elemSz * desc.elems).toNat

/-- What must hold before an alloca. When the frame is rounded to what is wanted, the size
must be a multiple of it; when it is rounded to less, the frame after it must. -/
def Fits (c : X86Frame) : FrameCall → Prop
  | .alloca desc =>
    wanted desc ∣ 16 ∧
      if c.lookupStaticAllocaOffset desc.dest ≠ 0 then
        wanted desc ∣ (c.lookupStaticAllocaOffset desc.dest).toNat
      else if desc.elemAlign.toNat = wanted desc then wanted desc ∣ totalSz desc
      else wanted desc ∣ roundUp c.stackSize.toNat desc.elemAlign.toNat + totalSz desc
  | _ => True

instance (c : X86Frame) : (call : FrameCall) → Decidable (Fits c call)
  | .temp .. => .isTrue trivial
  | .slot .. => .isTrue trivial
  | .alloca _ => instDecidableAnd

variable {m : Nat}

theorem dvd_toNat_neg (hm : m ∣ 16) (x : BitVec 32) : m ∣ (-x).toNat ↔ m ∣ x.toNat := by
  have hword : m ∣ 2 ^ 32 := Nat.dvd_trans hm (by decide)
  have hlt := x.isLt
  rw [BitVec.toNat_neg, Nat.dvd_mod_iff hword, Nat.dvd_sub_iff_right (le_of_lt hlt) hword]

theorem dvd_toInt (hm : m ∣ 16) (x : BitVec 32) : (m : Int) ∣ x.toInt ↔ m ∣ x.toNat := by
  have hword : (m : Int) ∣ 2 ^ 32 := Int.natCast_dvd_natCast.2 (Nat.dvd_trans hm (by decide))
  have htoInt : x.toInt = x.toNat ∨ x.toInt = x.toNat - 2 ^ 32 := by
    rw [BitVec.toInt_eq_toNat_cond]
    split
    · exact .inl rfl
    · exact .inr rfl
  rw [← Int.natCast_dvd_natCast]
  rcases htoInt with heq | heq
  · rw [heq]
  · rw [heq]
    exact ⟨fun h => (Int.dvd_iff_dvd_of_dvd_sub h).2 hword, fun h => Int.dvd_sub h hword⟩

/-- An offset is right for each base that the ABI allows iff it is right for base 0 and
the alignment is no more than that of the base. -/
theorem forall_base_iff (m : Nat) (off : BitVec 32) :
    (∀ rbp : Nat, 16 ∣ rbp → (m : Int) ∣ rbp + off.toInt) ↔ m ∣ 16 ∧ m ∣ off.toNat := by
  constructor
  · intro h
    have hzero : (m : Int) ∣ off.toInt := by simpa using h 0 (Nat.dvd_zero 16)
    have hm : m ∣ 16 := by
      have hnext := h 16 (Nat.dvd_refl 16)
      exact Int.natCast_dvd_natCast.1 ((Int.dvd_add_left hzero).1 hnext)
    exact ⟨hm, (dvd_toInt hm off).1 hzero⟩
  · rintro ⟨hm, hoff⟩ rbp hrbp
    have hbase : (m : Int) ∣ rbp := Int.natCast_dvd_natCast.2 (Nat.dvd_trans hm hrbp)
    exact Int.dvd_add hbase ((dvd_toInt hm off).2 hoff)

variable {desc : AllocaDesc}

theorem elemAlign_le (hpos : 0 < wanted desc) : desc.elemAlign.toNat ≤ wanted desc := by
  have hchoice : (if desc.align ≠ 0 then desc.align.setWidth 64
      else typeAlign desc.type).toNat ≤ wanted desc := by
    split
    · rw [BitVec.toNat_setWidth]
      exact le_trans (Nat.mod_le ..) (le_max_left ..)
    · exact le_max_right ..
  unfold AllocaDesc.elemAlign
  by_cases hzero : (if desc.align ≠ 0 then desc.align.setWidth 64 else typeAlign desc.type) = 0
  · rw [if_pos hzero]
    exact hpos
  · rw [if_neg hzero]
    exact hchoice

theorem dvd_grown (hm : m ∣ 16) (c : X86Frame) (halign : desc.elemAlign.toNat ≤ 16) :
    m ∣ (c.grown (desc.elemSz * desc.elems) desc.elemAlign).toNat ↔
      m ∣ roundUp c.stackSize.toNat desc.elemAlign.toNat + totalSz desc := by
  have hword : m ∣ 2 ^ 32 := Nat.dvd_trans hm (by decide)
  have hround : (alignUpSize (c.stackSize.setWidth 64) desc.elemAlign).toNat =
      roundUp c.stackSize.toNat desc.elemAlign.toNat := by
    have hlt := c.stackSize.isLt
    rw [toNat_alignUpSize, toNat_stackSize]
    rw [toNat_stackSize]
    omega
  rw [X86Frame.grown, BitVec.toNat_add, BitVec.toNat_setWidth, BitVec.toNat_setWidth, hround,
    ← Nat.add_mod, Nat.dvd_mod_iff hword, totalSz]

theorem aligned_iff (c : X86Frame) (call : FrameCall) : Aligned c call ↔ Fits c call := by
  cases call with
  | temp size align => exact Iff.rfl
  | slot vreg size align => exact Iff.rfl
  | alloca desc =>
    refine (forall_base_iff ..).trans (and_congr_right fun hm => ?_)
    have hle : desc.elemAlign.toNat ≤ wanted desc := elemAlign_le (Nat.pos_of_dvd_of_pos hm (by decide))
    have hsixteen := Nat.le_of_dvd (by decide) hm
    simp only [X86Frame.call, emitStaticAlloca, allocStatic]
    split
    · exact Iff.rfl
    · rw [dvd_toNat_neg hm, dvd_grown hm c (le_trans hle hsixteen)]
      split
      · next heq =>
        rw [heq]
        exact Nat.dvd_add_right (dvd_roundUp _ (Nat.pos_of_dvd_of_pos hm (by decide)))
      · exact Iff.rfl

theorem along_aligned_iff (calls : List FrameCall) (c : X86Frame) :
    Along step Aligned c calls ↔ Along step Fits c calls := by
  induction calls generalizing c with
  | nil => exact Iff.rfl
  | cons call rest ih => exact and_congr (aligned_iff c call) (ih (c.call call).2)

/-- In every run, all allocas are aligned iff each of them fits where it stands. -/
theorem allocas_aligned_iff (calls : List FrameCall) :
    Along step Aligned {} calls ↔ Along step Fits {} calls :=
  along_aligned_iff calls {}

/-- One byte that asks for 16 is put right below the base. -/
theorem byte_at_sixteen :
    ∃ calls : List FrameCall,
      (∀ desc, .alloca desc ∈ calls → ∃ n, desc.align.toNat = 2 ^ n ∧ n ≤ 4) ∧
      ¬ Along step Aligned {} calls := by
  refine ⟨[.alloca ⟨1, some (.scalar 0 .i8), 16, none⟩], ?_, ?_⟩
  · intro desc hmem
    obtain rfl := FrameCall.alloca.inj (List.mem_singleton.1 hmem)
    exact ⟨4, rfl, by decide⟩
  · rw [along_aligned_iff]
    decide

end Liric.Guarantees.AllocaAlignment
