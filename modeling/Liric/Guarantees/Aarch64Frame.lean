import Liric.Guarantees.Aarch64Helpers
import Liric.Guarantees.FrameSlots
import Liric.Source.Target.Aarch64Frame

/-!
# Slots, temporaries and static allocas of the A64 frame

The allocators of this target are those of the x86_64 target with an alignment of a word at
least, as long as no vreg above 100000 asks for a slot: these all get the bytes below the frame
pointer. A vreg that has the number of a temporary shares its slot.
-/
namespace Liric.Guarantees.Aarch64Frame
open Source.Ir (SizeT)
open List
open Source.X8664 (AllocaDesc X86Frame)
open Source.Aarch64
open FrameSlots (FrameOwner Matches bytesAsked frameBytes)

inductive Owner where
  | vreg (v : Nat)
  | temp (v : Nat)
  | alloca (v : Nat)
  deriving DecidableEq

/-- The other target does not raise the alignment. -/
def plainDesc (desc : AllocaDesc) : AllocaDesc :=
  { desc with align := if desc.elemAlign < 8 then 8 else desc.align }

/-- The calls of the other target. -/
def plainCalls (c : A64Ctx) : FrameCall → List Source.X8664.FrameCall
  | .slot v size | .temp v size => [.slot v size 8]
  | .stage size => [.slot c.nextVreg (if size < 8 then 8 else size) 8]
  | .alloca desc => [.alloca (plainDesc desc)]
  | .note _ => []

/-- The context beside what its callers know: who holds a slot, the bytes of each static alloca,
and what the other target would have been asked for. -/
structure Traced where
  ctx : A64Ctx
  vregs : List Nat := []
  temps : List Nat := []
  allocaBytes : List (Nat × Nat) := []
  asked : List Source.X8664.FrameCall := []

/-- An empty frame. -/
def start (c : A64Ctx) : Traced where
  ctx := { c with stackSize := 0, stackSlots := [], staticAllocaOffsets := [] }

def Traced.call (t : Traced) (call : FrameCall) : Traced where
  ctx := (frameCall call t.ctx).2
  vregs := match call with
    | .slot v _ => v :: t.vregs
    | .alloca desc => desc.dest :: t.vregs
    | _ => t.vregs
  temps := match call with
    | .stage _ => t.ctx.nextVreg :: t.temps
    | _ => t.temps
  allocaBytes := match call with
    | .alloca desc =>
      if t.ctx.lookupStaticAllocaOffset desc.dest = 0 then
        (desc.dest, bytesAsked desc) :: t.allocaBytes
      else t.allocaBytes
    | _ => t.allocaBytes
  asked := t.asked ++ plainCalls t.ctx call

def Traced.calls (t : Traced) (calls : List FrameCall) : Traced := calls.foldl Traced.call t

/-- The place that a number of a vreg is given. -/
def slotRange (c : A64Ctx) (v : Nat) : Option (Int × Nat) :=
  if v > 100000 then some (-8, 8)
  else if (c.slot v).off = 0 then none
  else some ((c.slot v).off.toInt, (c.slot v).size.toNat)

/-- The lowest byte of an owner's range, relative to the frame pointer, and how many there are. -/
def Traced.range (t : Traced) : Owner → Option (Int × Nat)
  | .vreg v => if v ∈ t.vregs then slotRange t.ctx v else none
  | .temp v => if v ∈ t.temps then slotRange t.ctx v else none
  | .alloca v =>
    if t.ctx.lookupStaticAllocaOffset v = 0 then none
    else some ((t.ctx.lookupStaticAllocaOffset v).toInt, (t.allocaBytes.lookup v).getD 0)

/-- Ranges of different owners share no byte, and each lies in the frame. -/
structure Apart (t : Traced) : Prop where
  disjoint : ∀ k l r s, k ≠ l → t.range k = some r → t.range l = some s →
    r.1 + r.2 ≤ s.1 ∨ s.1 + s.2 ≤ r.1
  inside : ∀ k r, t.range k = some r → -(t.ctx.frameStackSize.toNat : Int) ≤ r.1 ∧ r.1 + r.2 ≤ 0

/-- The number of the slot is not too large, and no temporary's if it is a vreg's. -/
def Traced.Meets (t : Traced) : FrameCall → Prop
  | .slot v _ => v ≤ 100000 ∧ v ∉ t.temps
  | .stage _ => t.ctx.nextVreg ≤ 100000 ∧ t.ctx.nextVreg ∉ t.vregs
  | .temp v _ => v ∈ t.temps
  | .alloca desc => desc.dest ≤ 100000 ∧ desc.dest ∉ t.temps
  | .note _ => True

def Traced.AllMeet (t : Traced) : List FrameCall → Prop
  | [] => True
  | call :: rest => t.Meets call ∧ (t.call call).AllMeet rest

instance (t : Traced) : DecidablePred t.Meets
  | .slot .. | .stage _ | .alloca _ => inferInstanceAs (Decidable (_ ∧ _))
  | .temp .. => inferInstanceAs (Decidable (_ ∈ _))
  | .note _ => .isTrue trivial

instance decidableAllMeet : ∀ (t : Traced) (calls : List FrameCall), Decidable (t.AllMeet calls)
  | _, [] => .isTrue trivial
  | t, call :: rest =>
    have := decidableAllMeet (t.call call) rest
    inferInstanceAs (Decidable (_ ∧ _))

/-- The frame as the other target keeps it. -/
def plainFrame (c : A64Ctx) : X86Frame where
  stackSize := c.stackSize
  stackSlots := c.stackSlots.map fun s => (s.1, ⟨s.2.off, s.2.size⟩)
  staticAllocaOffsets := c.staticAllocaOffsets

theorem slot_plain (c : A64Ctx) (v : Nat) :
    (plainFrame c).slot v = ⟨(c.slot v).off, (c.slot v).size⟩ := by
  rw [X86Frame.slot, plainFrame, A64Ctx.slot]
  induction c.stackSlots with
  | nil => rfl
  | cons s rest ih =>
    rw [map_cons, lookup_cons, lookup_cons]
    cases v == s.1 with
    | true => rfl
    | false => exact ih

theorem allocSlot_plain {v : Nat} (hv : v ≤ 100000) (size : SizeT) (c : A64Ctx) :
    plainFrame (allocSlot v size c).2 = (Source.X8664.allocSlot (plainFrame c) v size 8).2 := by
  simp only [allocSlot, Source.X8664.allocSlot, slot_plain, if_neg (Nat.not_lt.2 hv)]
  split <;> rfl

theorem elemAlign_plainDesc (desc : AllocaDesc) : (plainDesc desc).elemAlign = staticAlign desc := by
  unfold staticAlign plainDesc
  split <;> rfl

theorem allocStatic_plain (desc : AllocaDesc) (c : A64Ctx) :
    plainFrame (allocStatic desc.dest (staticAlign desc) (desc.elemSz * desc.elems) c).2 =
      (Source.X8664.allocStatic (plainFrame c) (plainDesc desc)).2 := by
  rw [← elemAlign_plainDesc]
  by_cases hoff : c.lookupStaticAllocaOffset desc.dest = 0
  · have hplain : (plainFrame c).lookupStaticAllocaOffset (plainDesc desc).dest = 0 := hoff
    rw [allocStatic, if_neg (not_not_intro hoff), Source.X8664.allocStatic,
      if_neg (not_not_intro hplain)]
    rfl
  · have hplain : (plainFrame c).lookupStaticAllocaOffset (plainDesc desc).dest ≠ 0 := hoff
    rw [allocStatic, if_pos hoff, Source.X8664.allocStatic, if_pos hplain]

/-- Temporaries have numbers of their own, and no number is too large. -/
structure Owned (t : Traced) : Prop where
  vregs : ∀ v ∈ t.vregs, v ≤ 100000 ∧ v ∉ t.temps
  temps : ∀ v ∈ t.temps, v ≤ 100000

/-- Both targets have given out the same. -/
structure Alike (t : Traced) (x : FrameSlots.Traced) : Prop where
  frame : x.frame = plainFrame t.ctx
  bytes : x.allocaBytes = t.allocaBytes

section Steps
variable {t : Traced} {x : FrameSlots.Traced}

theorem Owned.call (h : Owned t) (call : FrameCall) (hmeets : t.Meets call) :
    Owned (t.call call) := by
  cases call with
  | slot v size => exact ⟨forall_mem_cons.2 ⟨hmeets, h.vregs⟩, h.temps⟩
  | alloca desc => exact ⟨forall_mem_cons.2 ⟨hmeets, h.vregs⟩, h.temps⟩
  | stage size =>
    refine ⟨fun w hw => ⟨(h.vregs w hw).1, ?_⟩, forall_mem_cons.2 ⟨hmeets.1, h.temps⟩⟩
    rintro (_ | ⟨_, hmem⟩)
    · exact hmeets.2 hw
    · exact (h.vregs w hw).2 hmem
  | temp v size => exact ⟨h.vregs, h.temps⟩
  | note v => exact ⟨h.vregs, h.temps⟩

theorem Alike.slot (h : Alike t x) {v : Nat} (hv : v ≤ 100000) (size : SizeT) {c : A64Ctx}
    (hc : plainFrame c = plainFrame t.ctx) :
    (x.call (.slot v size 8)).frame = plainFrame (allocSlot v size c).2 := by
  rw [allocSlot_plain hv, hc, ← h.frame]
  rfl

theorem Alike.call (h : Alike t x) (hown : Owned t) (call : FrameCall) (hmeets : t.Meets call) :
    Alike (t.call call) (x.calls (plainCalls t.ctx call)) := by
  cases call with
  | slot v size => exact ⟨h.slot hmeets.1 size rfl, h.bytes⟩
  | temp v size => exact ⟨h.slot (hown.temps v hmeets) size rfl, h.bytes⟩
  | stage size => exact ⟨h.slot hmeets.1 _ rfl, h.bytes⟩
  | note v =>
    have hnote : plainFrame (frameCall (.note v) t.ctx).2 = plainFrame t.ctx := by
      change plainFrame (if v ≥ t.ctx.nextVreg then _ else _) = _
      split <;> rfl
    exact ⟨h.frame.trans hnote.symm, h.bytes⟩
  | alloca desc =>
    constructor
    · have hcall : (x.call (.alloca (plainDesc desc))).frame = (Source.X8664.allocSlot
          (Source.X8664.allocStatic x.frame (plainDesc desc)).2 desc.dest 8 8).2 := rfl
      refine hcall.trans ?_
      rw [h.frame, ← allocStatic_plain, ← allocSlot_plain hmeets.1]
      rfl
    · have hlookup : x.frame.lookupStaticAllocaOffset desc.dest =
          t.ctx.lookupStaticAllocaOffset desc.dest := by
        rw [h.frame]
        rfl
      change (if x.frame.lookupStaticAllocaOffset desc.dest = 0 then
        (desc.dest, bytesAsked desc) :: x.allocaBytes else x.allocaBytes) = _
      rw [hlookup, h.bytes]
      rfl

theorem Alike.calls (h : Alike t x) (hown : Owned t) (calls : List FrameCall)
    (hmeet : t.AllMeet calls) :
    Owned (t.calls calls) ∧ ∃ more, (t.calls calls).asked = t.asked ++ more ∧
      Alike (t.calls calls) (x.calls more) := by
  induction calls generalizing t x with
  | nil => exact ⟨hown, [], by simp [Traced.calls], h⟩
  | cons call rest ih =>
    obtain ⟨hmeets, hrest⟩ := hmeet
    obtain ⟨howned, more, hasked, halike⟩ := ih (h.call hown call hmeets) (hown.call call hmeets) hrest
    refine ⟨howned, plainCalls t.ctx call ++ more, ?_, ?_⟩
    · rw [← append_assoc]
      exact hasked
    · rw [FrameSlots.Traced.calls, foldl_append]
      exact halike

/-- The owner by which the other target knows a range. -/
def Owner.plain : Owner → FrameOwner
  | .vreg v | .temp v => .slot v
  | .alloca v => .alloca v

theorem Alike.slotRange (h : Alike t x) {v : Nat} (hv : v ≤ 100000) :
    x.range (.slot v) = slotRange t.ctx v := by
  rw [FrameSlots.Traced.range, h.frame, slot_plain, Aarch64Frame.slotRange,
    if_neg (Nat.not_lt.2 hv)]

theorem Alike.range (h : Alike t x) (hown : Owned t) {k : Owner} {r : Int × Nat}
    (hr : t.range k = some r) : x.range k.plain = some r := by
  cases k with
  | vreg v =>
    obtain ⟨hmem, hr⟩ := Option.ite_none_right_eq_some.1 hr
    exact (h.slotRange (hown.vregs v hmem).1).trans hr
  | temp v =>
    obtain ⟨hmem, hr⟩ := Option.ite_none_right_eq_some.1 hr
    exact (h.slotRange (hown.temps v hmem)).trans hr
  | alloca v =>
    refine Eq.trans ?_ hr
    rw [Owner.plain, FrameSlots.Traced.range, h.frame, h.bytes]
    rfl

/-- Different owners are different owners of the other target. -/
theorem Owned.plain_ne (h : Owned t) {k l : Owner} {r s : Int × Nat} (hne : k ≠ l)
    (hr : t.range k = some r) (hs : t.range l = some s) : k.plain ≠ l.plain := by
  intro heq
  cases k with
  | vreg v =>
    obtain ⟨hv, -⟩ := Option.ite_none_right_eq_some.1 hr
    cases l with
    | vreg w => exact hne (congrArg Owner.vreg (FrameOwner.slot.inj heq))
    | temp w =>
      obtain ⟨hw, -⟩ := Option.ite_none_right_eq_some.1 hs
      exact (h.vregs v hv).2 (FrameOwner.slot.inj heq ▸ hw)
    | alloca w => cases heq
  | temp v =>
    obtain ⟨hv, -⟩ := Option.ite_none_right_eq_some.1 hr
    cases l with
    | vreg w =>
      obtain ⟨hw, -⟩ := Option.ite_none_right_eq_some.1 hs
      exact (h.vregs w hw).2 (FrameOwner.slot.inj heq ▸ hv)
    | temp w => exact hne (congrArg Owner.temp (FrameOwner.slot.inj heq))
    | alloca w => cases heq
  | alloca v =>
    cases l with
    | vreg w => cases heq
    | temp w => cases heq
    | alloca w => exact hne (congrArg Owner.alloca (FrameOwner.alloca.inj heq))

end Steps

/-- In a run whose calls all meet their condition, and whose frame stays below 2 ^ 31 bytes, all
that is given out lies apart. -/
theorem apart_of_run (c : A64Ctx) (calls : List FrameCall) (hmeet : (start c).AllMeet calls)
    (hfit : frameBytes ((start c).calls calls).asked < 2 ^ 31) : Apart ((start c).calls calls) := by
  have hstart : Alike (start c) {} := ⟨rfl, rfl⟩
  have hnone : Owned (start c) := ⟨by simp [start], by simp [start]⟩
  obtain ⟨hown, asked, hasked, halike⟩ := hstart.calls hnone calls hmeet
  rw [hasked] at hfit
  have hmatches := FrameSlots.matches_start.calls asked hfit
  constructor
  · intro k l r s hne hr hs
    exact hmatches.apart (hown.plain_ne hne hr hs) (halike.range hown hr) (halike.range hown hs)
  · intro k r hr
    have hin := hmatches.inside hfit (halike.range hown hr)
    rwa [halike.frame] at hin

/-- A value, the temporary of a phi, an alloca, and a value that needs more. -/
theorem apart_of_run_phi : Apart ((start Aarch64Helpers.emptyCtx).calls
    [.slot 1 8, .note 1, .stage 16, .temp 2 8, .alloca ⟨3, none, 0, some 3⟩, .slot 1 24]) :=
  apart_of_run _ _ (by decide) (by decide)

/-- The vreg 100001 is given the slot of the first one. -/
theorem large_vreg_shares : ¬ ∀ (c : A64Ctx) (calls : List FrameCall),
    frameBytes ((start c).calls calls).asked < 2 ^ 31 → Apart ((start c).calls calls) := by
  intro h
  have hapart := (h Aarch64Helpers.emptyCtx [.slot 1 8, .slot 100001 8] (by decide)).disjoint
    (.vreg 1) (.vreg 100001) (-8, 8) (-8, 8) (by decide) (by decide) (by decide)
  exact absurd hapart (by decide)

end Liric.Guarantees.Aarch64Frame
