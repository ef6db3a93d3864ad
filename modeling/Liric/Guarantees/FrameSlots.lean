import Liric.Lib.Padding
import Liric.Lib.StackFrame
import Liric.Source.Target.X8664Frame

/-!
# Slots, temporaries and static allocas of the x86_64 frame

The three allocators count in machine words. Beside them stands a frame that counts
without end: as long as it stays below 2 ^ 31 bytes, each offset of the code is the place
that this frame gave out, so the ranges of different owners do not meet.
-/
namespace Liric.Guarantees.FrameSlots
open Lib BitVec StackFrame List Option
open Source.Ir (SizeT)
open Source.X8664

/-- Who holds bytes of the frame: a vreg its slot, a call its temporary, a vreg its static
alloca. Temporaries are numbered as they are asked for. -/
inductive FrameOwner where
  | slot (vreg : Nat)
  | temp (place : Nat)
  | alloca (vreg : Nat)
  deriving DecidableEq

/-- The frame beside what its callers know: the temporaries and the bytes of each static
alloca, the last one first. -/
structure Traced where
  frame : X86Frame := {}
  temps : List (BitVec 32 × Nat) := []
  allocaBytes : List (Nat × Nat) := []
  deriving DecidableEq

/-- The bytes that an alloca asks for. -/
def bytesAsked (desc : AllocaDesc) : Nat := desc.elemSz.toNat * desc.elems.toNat

def Traced.call (t : Traced) (call : FrameCall) : Traced where
  frame := (t.frame.call call).2
  temps := match call with
    | .temp size _ => t.temps ++ [((t.frame.call call).1, (atLeast8 size).toNat)]
    | _ => t.temps
  allocaBytes := match call with
    | .alloca desc =>
      if t.frame.lookupStaticAllocaOffset desc.dest = 0 then
        (desc.dest, bytesAsked desc) :: t.allocaBytes
      else t.allocaBytes
    | _ => t.allocaBytes

def Traced.calls (t : Traced) (calls : List FrameCall) : Traced := calls.foldl Traced.call t

/-- The lowest byte of an owner's range, relative to `rbp`, and how many there are. -/
def Traced.range (t : Traced) : FrameOwner → Option (Int × Nat)
  | .slot vreg =>
    if (t.frame.slot vreg).off = 0 then none
    else some ((t.frame.slot vreg).off.toInt, (t.frame.slot vreg).size.toNat)
  | .temp place => t.temps[place]?.map fun temp => (temp.1.toInt, temp.2)
  | .alloca vreg =>
    if t.frame.lookupStaticAllocaOffset vreg = 0 then none
    else some ((t.frame.lookupStaticAllocaOffset vreg).toInt, (t.allocaBytes.lookup vreg).getD 0)

structure Asked where
  frame : StackFrame FrameOwner := .empty
  temps : Nat := 0

def Asked.call (a : Asked) : FrameCall → Asked
  | .temp size align =>
    { frame := a.frame.place (.temp a.temps) (atLeast8 size).toNat (atLeast8 align).toNat
      temps := a.temps + 1 }
  | .slot vreg size align =>
    { a with frame := a.frame.reserve (.slot vreg) size.toNat 8 (atLeast8 align).toNat }
  | .alloca desc =>
    let frame := if (a.frame.region (.alloca desc.dest)).isSome then a.frame
      else a.frame.place (.alloca desc.dest) (bytesAsked desc) desc.elemAlign.toNat
    { a with frame := frame.reserve (.slot desc.dest) 8 8 8 }

def Asked.calls (a : Asked) (calls : List FrameCall) : Asked := calls.foldl Asked.call a

/-- The bytes of the frame when no sum wraps. -/
def frameBytes (calls : List FrameCall) : Nat := (Asked.calls {} calls).frame.top

theorem top_le_call (a : Asked) (call : FrameCall) : a.frame.top ≤ (a.call call).frame.top := by
  cases call with
  | temp size align => exact top_le_place ..
  | slot vreg size align => exact top_le_reserve ..
  | alloca desc =>
    refine le_trans ?_ (top_le_reserve ..)
    split
    · exact le_rfl
    · exact top_le_place ..

theorem top_le_calls (calls : List FrameCall) (a : Asked) :
    a.frame.top ≤ (a.calls calls).frame.top := by
  induction calls generalizing a with
  | nil => exact le_rfl
  | cons call rest ih => exact le_trans (top_le_call a call) (ih (a.call call))

theorem toNat_atLeast8 (size : SizeT) : (atLeast8 size).toNat = max size.toNat 8 := by
  unfold atLeast8
  split
  · next h =>
    have hlt : size.toNat < 8 := h
    rw [max_eq_right (le_of_lt hlt)]
    rfl
  · next h =>
    have hge : ¬ size.toNat < 8 := h
    rw [Nat.max_eq_left (by omega)]

variable {align : SizeT}

theorem toNat_alignUpSize {value : SizeT} (hsum : value.toNat + align.toNat ≤ 2 ^ 64) :
    (alignUpSize value align).toNat = roundUp value.toNat align.toNat := by
  unfold alignUpSize roundUp
  by_cases hone : align ≤ 1
  · have hnat : align.toNat ≤ 1 := hone
    rw [if_pos hone, if_pos hnat]
  · have hnat : ¬ align.toNat ≤ 1 := hone
    rw [if_neg hone, if_neg hnat]
    have hadd : (value + align - 1).toNat = value.toNat + align.toNat - 1 := by
      bv_omega
    have hle := Nat.div_mul_le_self (value.toNat + align.toNat - 1) align.toNat
    rw [toNat_mul, toNat_udiv, hadd]
    exact Nat.mod_eq_of_lt (by omega)

theorem toNat_stackSize (c : X86Frame) :
    (c.stackSize.setWidth 64 : SizeT).toNat = c.stackSize.toNat := by
  have hlt := c.stackSize.isLt
  rw [toNat_setWidth]
  exact Nat.mod_eq_of_lt (by omega)

variable {size : SizeT}

/-- The counter of the code after an allocation that leaves the frame small. -/
theorem toNat_grown (c : X86Frame) (align : SizeT) {bytes : Nat}
    (hbytes : size.toNat = bytes % 2 ^ 64)
    (hfit : roundUp c.stackSize.toNat align.toNat + bytes < 2 ^ 31) :
    (c.grown size align).toNat = roundUp c.stackSize.toNat align.toNat + bytes := by
  have hsum : c.stackSize.toNat + align.toNat ≤ 2 ^ 64 := by
    have halign := align.isLt
    by_cases hzero : c.stackSize.toNat = 0
    · omega
    · have hstep : align.toNat ≤ roundUp c.stackSize.toNat align.toNat :=
        align_le_roundUp (Nat.pos_of_ne_zero hzero)
      omega
  have hround : (alignUpSize (c.stackSize.setWidth 64) align).toNat =
      roundUp c.stackSize.toNat align.toNat := by
    rw [toNat_alignUpSize, toNat_stackSize]
    rw [toNat_stackSize]
    exact hsum
  rw [X86Frame.grown, toNat_add, toNat_setWidth, toNat_setWidth, hround, hbytes]
  omega

/-- An offset of the code as a place in the frame. -/
theorem toInt_neg {x : BitVec 32} {depth : Nat} (hx : x.toNat = depth) (hdepth : depth < 2 ^ 31) :
    (-x).toInt = -(depth : Int) := by
  have hneg : (-x).toNat = (2 ^ 32 - depth) % 2 ^ 32 := by
    rw [toNat_neg, hx]
  rw [toInt_eq_toNat_cond, hneg]
  omega

theorem neg_ne_zero {x : BitVec 32} (hx : 0 < x.toNat) : -x ≠ 0 := by
  intro hzero
  have hnat : (-x).toNat = 0 := by rw [hzero]; rfl
  rw [toNat_neg] at hnat
  omega

def placed (r : Region) : Int × Nat := (-(r.depth : Int), r.size)

structure Matches (t : Traced) (a : Asked) : Prop where
  stack : t.frame.stackSize.toNat = a.frame.top
  temps : t.temps.length = a.temps
  ranges : ∀ k, t.range k = (a.frame.region k).map placed

theorem matches_start : Matches {} {} where
  stack := rfl
  temps := rfl
  ranges k := by
    cases k with
    | slot vreg => rfl
    | temp place => rfl
    | alloca vreg => rfl

section Steps
variable {t : Traced} {a : Asked}

/-- A new region takes the place of its owner's and leaves the others alone. -/
theorem Matches.placed {k : FrameOwner} {size align temps : Nat} (h : Matches t a) {t' : Traced}
    (hstack : t'.frame.stackSize.toNat = roundUp a.frame.top align + size)
    (htemps : t'.temps.length = temps)
    (hself : t'.range k = some (-((roundUp a.frame.top align + size : Nat) : Int), size))
    (hother : ∀ l, l ≠ k → t'.range l = t.range l) :
    Matches t' { frame := a.frame.place k size align, temps := temps } where
  stack := hstack
  temps := htemps
  ranges l := by
    by_cases hl : l = k
    · subst hl
      rw [hself, region_place_self]
      rfl
    · rw [hother l hl, region_place_ne _ _ _ hl]
      exact h.ranges l

theorem slot_cons (c : X86Frame) (stackSize : BitVec 32) (vreg : Nat) (slot : StackSlot) (v : Nat) :
    ({ c with stackSize := stackSize, stackSlots := (vreg, slot) :: c.stackSlots } : X86Frame).slot
      v = if v = vreg then slot else c.slot v := by
  by_cases hv : v = vreg
  · subst hv
    rw [if_pos rfl, X86Frame.slot, lookup_cons_self]
    rfl
  · rw [if_neg hv, X86Frame.slot, lookup_cons, beq_false_of_ne hv]
    rfl

theorem lookupStatic_cons (c : X86Frame) (stackSize : BitVec 32) (dest : Nat) (off : BitVec 32)
    (v : Nat) :
    ({ c with
      stackSize := stackSize
      staticAllocaOffsets := (dest, off) :: c.staticAllocaOffsets } :
        X86Frame).lookupStaticAllocaOffset v =
      if v = dest then off else c.lookupStaticAllocaOffset v := by
  by_cases hv : v = dest
  · subst hv
    rw [if_pos rfl, X86Frame.lookupStaticAllocaOffset, lookup_cons_self]
    rfl
  · rw [if_neg hv, X86Frame.lookupStaticAllocaOffset, lookup_cons, beq_false_of_ne hv]
    rfl

theorem Matches.temp (h : Matches t a) (hfit : (a.call (.temp size align)).frame.top < 2 ^ 31) :
    Matches (t.call (.temp size align)) (a.call (.temp size align)) := by
  have hgrown := toNat_grown t.frame (atLeast8 align)
    (Nat.mod_eq_of_lt (atLeast8 size).isLt).symm (by rw [h.stack]; exact hfit)
  rw [h.stack] at hgrown
  refine h.placed hgrown ?_ ?_ ?_
  · exact (length_append ..).trans (congrArg (· + 1) h.temps)
  · have hlast : (t.call (.temp size align)).temps[a.temps]? =
        some ((t.frame.call (.temp size align)).1, (atLeast8 size).toNat) := by
      rw [← h.temps]
      exact getElem?_concat_length
    rw [Traced.range, hlast]
    exact congrArg some (Prod.ext (toInt_neg hgrown hfit) rfl)
  · intro l hl
    cases l with
    | slot vreg => rfl
    | alloca vreg => rfl
    | temp place =>
      have hplace : place ≠ a.temps := fun heq => hl (congrArg FrameOwner.temp heq)
      refine congrArg (Option.map _) ?_
      have hlen := h.temps
      by_cases hlt : place < t.temps.length
      · exact getElem?_append_left hlt
      · rw [List.getElem?_eq_none (Nat.le_of_not_lt hlt)]
        refine List.getElem?_eq_none ?_
        rw [Traced.call, length_append, length_singleton]
        omega

theorem Matches.reserve (h : Matches t a) {vreg : Nat}
    (hfit : (a.frame.reserve (.slot vreg) size.toNat 8 (atLeast8 align).toNat).top < 2 ^ 31) :
    Matches { t with frame := (allocSlot t.frame vreg size align).2 }
      { a with frame := a.frame.reserve (.slot vreg) size.toNat 8 (atLeast8 align).toNat } := by
  have hslot := h.ranges (.slot vreg)
  rw [Traced.range] at hslot
  have hkept : (a.frame.region (.slot vreg)).any (fun r => decide (size.toNat ≤ r.size)) = true ↔
      (t.frame.slot vreg).off ≠ 0 ∧ size.toNat ≤ (t.frame.slot vreg).size.toNat := by
    by_cases hoff : (t.frame.slot vreg).off = 0
    · rw [if_pos hoff] at hslot
      rw [map_eq_none_iff.1 hslot.symm]
      exact ⟨fun hfalse => (Bool.false_ne_true hfalse).elim, fun hboth => (hboth.1 hoff).elim⟩
    · rw [if_neg hoff] at hslot
      obtain ⟨r, hr, hplaced⟩ := map_eq_some_iff.1 hslot.symm
      have hsize : r.size = (t.frame.slot vreg).size.toNat := congrArg Prod.snd hplaced
      rw [hr, any_some, decide_eq_true_eq, hsize]
      exact ⟨fun hle => ⟨hoff, hle⟩, And.right⟩
  by_cases hreuse : (t.frame.slot vreg).off ≠ 0 ∧ size.toNat ≤ (t.frame.slot vreg).size.toNat
  · have hword : size.setWidth 32 ≤ (t.frame.slot vreg).size := by
      rw [le_def, toNat_setWidth]
      exact le_trans (Nat.mod_le ..) hreuse.2
    rw [StackFrame.reserve, if_pos (hkept.2 hreuse), allocSlot, if_pos ⟨hreuse.1, hword⟩]
    exact h
  · rw [StackFrame.reserve, if_neg (mt hkept.1 hreuse)] at hfit ⊢
    rw [← toNat_atLeast8] at hfit ⊢
    -- a size that is cut to fit the slot asks for a frame that is too large
    have hword : ¬ ((t.frame.slot vreg).off ≠ 0 ∧
        size.setWidth 32 ≤ (t.frame.slot vreg).size) := by
      rintro ⟨hoff, hle⟩
      rw [top_place, toNat_atLeast8 size] at hfit
      rw [le_def, toNat_setWidth, Nat.mod_eq_of_lt (by omega)] at hle
      exact hreuse ⟨hoff, hle⟩
    have hgrown := toNat_grown t.frame (atLeast8 align)
      (Nat.mod_eq_of_lt (atLeast8 size).isLt).symm (by rw [h.stack]; exact hfit)
    rw [h.stack] at hgrown
    rw [allocSlot, if_neg hword]
    refine h.placed hgrown h.temps ?_ ?_
    · have hpos : 0 < (t.frame.grown (atLeast8 size) (atLeast8 align)).toNat := by
        rw [hgrown, toNat_atLeast8 size]
        omega
      have hsize : ((atLeast8 size).setWidth 32).toNat = (atLeast8 size).toNat := by
        rw [toNat_setWidth]
        rw [top_place] at hfit
        exact Nat.mod_eq_of_lt (by omega)
      simp only [Traced.range, slot_cons, if_true]
      rw [if_neg (neg_ne_zero hpos), toInt_neg hgrown hfit, hsize]
    · intro l hl
      cases l with
      | temp place => rfl
      | alloca v => rfl
      | slot v =>
        have hv : v ≠ vreg := fun heq => hl (congrArg FrameOwner.slot heq)
        simp only [Traced.range, slot_cons, if_neg hv]

theorem bytesAsked_pos (desc : AllocaDesc) : 0 < bytesAsked desc := by
  have helem : 0 < desc.elemSz.toNat := by
    unfold AllocaDesc.elemSz
    simp only
    split
    · exact Nat.one_pos
    · bv_omega
  have helems : 0 < desc.elems.toNat := by
    unfold AllocaDesc.elems
    simp only
    split
    · exact Nat.one_pos
    · next hcount =>
      by_contra hzero
      refine hcount ?_
      rw [toInt_eq_toNat_cond, Nat.eq_zero_of_not_pos hzero]
      decide
  exact Nat.mul_pos helem helems

theorem Matches.static (h : Matches t a) {desc : AllocaDesc} {asked : StackFrame FrameOwner}
    (hasked : asked = if (a.frame.region (.alloca desc.dest)).isSome then a.frame
      else a.frame.place (.alloca desc.dest) (bytesAsked desc) desc.elemAlign.toNat)
    (hfit : asked.top < 2 ^ 31) :
    Matches
      { t with
        frame := (allocStatic t.frame desc).2
        allocaBytes := if t.frame.lookupStaticAllocaOffset desc.dest = 0 then
          (desc.dest, bytesAsked desc) :: t.allocaBytes else t.allocaBytes }
      { a with frame := asked } := by
  have halloca := h.ranges (.alloca desc.dest)
  rw [Traced.range] at halloca
  by_cases hoff : t.frame.lookupStaticAllocaOffset desc.dest = 0
  · rw [if_pos hoff] at halloca
    have hnone := map_eq_none_iff.1 halloca.symm
    rw [hnone] at hasked
    subst hasked
    have hbytes : (desc.elemSz * desc.elems).toNat = bytesAsked desc % 2 ^ 64 := toNat_mul ..
    have hgrown := toNat_grown t.frame desc.elemAlign hbytes (by rw [h.stack]; exact hfit)
    rw [h.stack] at hgrown
    have hpos : 0 < (t.frame.grown (desc.elemSz * desc.elems) desc.elemAlign).toNat := by
      have := bytesAsked_pos desc
      omega
    rw [if_pos hoff, allocStatic, if_neg (not_not_intro hoff)]
    refine h.placed hgrown h.temps ?_ ?_
    · simp only [Traced.range, lookupStatic_cons, if_true, lookup_cons_self, getD_some]
      rw [if_neg (neg_ne_zero hpos), toInt_neg hgrown hfit]
    · intro l hl
      cases l with
      | temp place => rfl
      | slot v => rfl
      | alloca v =>
        have hv : v ≠ desc.dest := fun heq => hl (congrArg FrameOwner.alloca heq)
        simp only [Traced.range, lookupStatic_cons, if_neg hv, lookup_cons, beq_false_of_ne hv]
  · rw [if_neg hoff] at halloca
    obtain ⟨r, hr, -⟩ := map_eq_some_iff.1 halloca.symm
    rw [hr] at hasked
    subst hasked
    rw [if_neg hoff, allocStatic, if_pos hoff]
    exact h

/-- One call of an allocator, as long as the frame stays small. -/
theorem Matches.call (h : Matches t a) (call : FrameCall)
    (hfit : (a.call call).frame.top < 2 ^ 31) : Matches (t.call call) (a.call call) := by
  cases call with
  | temp size align => exact h.temp hfit
  | slot vreg size align => exact h.reserve hfit
  | alloca desc =>
    have hstatic := h.static rfl (lt_of_le_of_lt (top_le_reserve ..) hfit)
    exact hstatic.reserve hfit

end Steps

theorem Matches.calls {t : Traced} {a : Asked} (h : Matches t a) (calls : List FrameCall)
    (hfit : (a.calls calls).frame.top < 2 ^ 31) : Matches (t.calls calls) (a.calls calls) := by
  induction calls generalizing t a with
  | nil => exact h
  | cons call rest ih =>
    have hnext := lt_of_le_of_lt (top_le_calls rest (a.call call)) hfit
    exact ih (h.call call hnext) hfit

section Allocas
variable {v : Nat} {r : Region}

theorem alloca_ne_slot (v vreg : Nat) : FrameOwner.alloca v ≠ .slot vreg := by
  intro heq
  cases heq

theorem alloca_ne_temp (v place : Nat) : FrameOwner.alloca v ≠ .temp place := by
  intro heq
  cases heq

theorem reserve_alloca (f : StackFrame FrameOwner) (vreg size least align : Nat) :
    (f.reserve (.slot vreg) size least align).region (.alloca v) = f.region (.alloca v) := by
  unfold StackFrame.reserve
  split
  · rfl
  · exact region_place_ne _ _ _ (alloca_ne_slot _ _)

/-- Where an alloca has its bytes from: the frame before, or a call for it. -/
theorem region_call_alloca (a : Asked) (call : FrameCall)
    (h : (a.call call).frame.region (.alloca v) = some r) :
    a.frame.region (.alloca v) = some r ∨
      ∃ desc, call = .alloca desc ∧ desc.dest = v ∧ r.size = bytesAsked desc := by
  cases call with
  | temp size align =>
    exact .inl ((region_place_ne _ _ _ (alloca_ne_temp _ _)).symm.trans h)
  | slot vreg size align => exact .inl ((reserve_alloca ..).symm.trans h)
  | alloca desc =>
    have hplace := (reserve_alloca ..).symm.trans h
    split at hplace
    · exact .inl hplace
    · by_cases hv : v = desc.dest
      · subst hv
        rw [region_place_self] at hplace
        cases hplace
        exact .inr ⟨desc, rfl, rfl, rfl⟩
      · rw [region_place_ne _ _ _ (fun heq => hv (FrameOwner.alloca.inj heq))] at hplace
        exact .inl hplace

theorem region_calls_alloca (calls : List FrameCall) (a : Asked)
    (h : (a.calls calls).frame.region (.alloca v) = some r) :
    a.frame.region (.alloca v) = some r ∨
      ∃ desc, .alloca desc ∈ calls ∧ desc.dest = v ∧ r.size = bytesAsked desc := by
  induction calls generalizing a with
  | nil => exact .inl h
  | cons call rest ih =>
    rcases ih (a.call call) h with hfirst | ⟨desc, hmem, hdesc⟩
    · rcases region_call_alloca a call hfirst with hold | ⟨desc, rfl, hdesc⟩
      · exact .inl hold
      · exact .inr ⟨desc, mem_cons_self, hdesc⟩
    · exact .inr ⟨desc, mem_cons_of_mem call hmem, hdesc⟩

/-- A static alloca is given its bytes once. -/
theorem alloca_call (a : Asked) (call : FrameCall)
    (h : (a.frame.region (.alloca v)).isSome ∨ ∃ desc, call = .alloca desc ∧ desc.dest = v) :
    ((a.call call).frame.region (.alloca v)).isSome := by
  cases call with
  | temp size align =>
    rcases h with h | ⟨desc, hcall, -⟩
    · exact (congrArg _ (region_place_ne _ _ _ (alloca_ne_temp _ _))).trans h
    · cases hcall
  | slot vreg size align =>
    rcases h with h | ⟨desc, hcall, -⟩
    · exact (congrArg isSome (reserve_alloca ..)).trans h
    · cases hcall
  | alloca desc =>
    refine (congrArg isSome (reserve_alloca ..)).trans ?_
    split
    · next hsome =>
      rcases h with h | ⟨desc', hcall, hdest⟩
      · exact h
      · obtain rfl := FrameCall.alloca.inj hcall
        rw [← hdest]
        exact hsome
    · by_cases hv : v = desc.dest
      · rw [hv, region_place_self]
        rfl
      · rw [region_place_ne _ _ _ (fun heq => hv (FrameOwner.alloca.inj heq))]
        rcases h with h | ⟨desc', hcall, hdest⟩
        · exact h
        · obtain rfl := FrameCall.alloca.inj hcall
          exact absurd hdest.symm hv

theorem alloca_calls (calls : List FrameCall) (a : Asked)
    (h : (a.frame.region (.alloca v)).isSome ∨ ∃ desc, .alloca desc ∈ calls ∧ desc.dest = v) :
    ((a.calls calls).frame.region (.alloca v)).isSome := by
  induction calls generalizing a with
  | nil =>
    rcases h with h | ⟨desc, hmem, -⟩
    · exact h
    · cases hmem
  | cons call rest ih =>
    refine ih (a.call call) ?_
    rcases h with h | ⟨desc, hmem, hdest⟩
    · exact .inl (alloca_call a call (.inl h))
    · rcases mem_cons.1 hmem with heq | hrest
      · exact .inl (alloca_call a call (.inr ⟨desc, heq.symm, hdest⟩))
      · exact .inr ⟨desc, hrest, hdest⟩

end Allocas

theorem le_frameStackSize {c : X86Frame} (hfit : c.stackSize.toNat < 2 ^ 31) :
    c.stackSize.toNat ≤ c.frameStackSize.toNat := by
  have hsum : (c.stackSize + 15).toNat = c.stackSize.toNat + 15 := by
    bv_omega
  have hmask : (c.stackSize + 15).toNat &&& (15#32).toNat ≤ 15 := Nat.and_le_right
  have hround : c.frameStackSize.toNat =
      (c.stackSize + 15).toNat - ((c.stackSize + 15).toNat &&& (15#32).toNat) :=
    toNat_and_not ..
  omega

section Ranges
variable {t : Traced} {a : Asked} (h : Matches t a)
include h

theorem Matches.read {k : FrameOwner} {r : Int × Nat} (hr : t.range k = some r) :
    ∃ region, a.frame.region k = some region ∧ FrameSlots.placed region = r := by
  rw [h.ranges k] at hr
  exact map_eq_some_iff.1 hr

theorem Matches.apart {k l : FrameOwner} {r s : Int × Nat} (hne : k ≠ l)
    (hr : t.range k = some r) (hs : t.range l = some s) :
    r.1 + r.2 ≤ s.1 ∨ s.1 + s.2 ≤ r.1 := by
  obtain ⟨first, hfirst, rfl⟩ := h.read hr
  obtain ⟨second, hsecond, rfl⟩ := h.read hs
  simp only [FrameSlots.placed]
  rcases a.frame.apart hne hfirst hsecond with hapart | hapart
  · omega
  · omega

theorem Matches.inside (hfit : a.frame.top < 2 ^ 31) {k : FrameOwner} {r : Int × Nat}
    (hr : t.range k = some r) :
    -(t.frame.frameStackSize.toNat : Int) ≤ r.1 ∧ r.1 + r.2 ≤ 0 := by
  obtain ⟨region, hregion, rfl⟩ := h.read hr
  have hinside := a.frame.inside hregion
  have hframe := le_frameStackSize (by rw [h.stack]; exact hfit)
  rw [h.stack] at hframe
  simp only [FrameSlots.placed]
  omega

end Ranges

/-- While the frame that is asked for stays below 2 ^ 31 bytes, the ranges of different
owners share no byte, each lies in the frame that the prologue makes, and an alloca whose
vreg no other alloca defines has all the bytes that it asks for. -/
theorem frame_ranges_apart (calls : List FrameCall) (hfit : frameBytes calls < 2 ^ 31) :
    let t := Traced.calls {} calls
    (∀ k l r s, k ≠ l → t.range k = some r → t.range l = some s →
      r.1 + r.2 ≤ s.1 ∨ s.1 + s.2 ≤ r.1) ∧
    (∀ k r, t.range k = some r → -(t.frame.frameStackSize.toNat : Int) ≤ r.1 ∧ r.1 + r.2 ≤ 0) ∧
    ∀ desc, .alloca desc ∈ calls →
      (∀ desc', .alloca desc' ∈ calls → desc'.dest = desc.dest → desc' = desc) →
      ∃ off, t.range (.alloca desc.dest) = some (off, bytesAsked desc) := by
  intro t
  have hmatches : Matches t (Asked.calls {} calls) := matches_start.calls calls hfit
  refine ⟨fun k l r s hne hr hs => hmatches.apart hne hr hs,
    fun k r hr => hmatches.inside hfit hr, ?_⟩
  intro desc hmem honly
  have hsome := alloca_calls calls {} (.inr ⟨desc, hmem, rfl⟩)
  obtain ⟨region, hregion⟩ := isSome_iff_exists.1 hsome
  rcases region_calls_alloca calls {} hregion with hold | ⟨desc', hmem', hdest, hsize⟩
  · cases hold
  · obtain rfl := honly desc' hmem' hdest
    refine ⟨-(region.depth : Int), ?_⟩
    rw [hmatches.ranges, hregion, ← hsize]
    rfl

/-- A slot, a temporary, an alloca, and a slot that grows. -/
theorem mixed_frame_apart :
    let calls := [.slot 1 4 4, .temp 8 8, .alloca ⟨2, some (.scalar 0 .i8), 16, some 3⟩,
      .slot 1 24 8]
    ∀ k l r s, k ≠ l → (Traced.calls {} calls).range k = some r →
      (Traced.calls {} calls).range l = some s → r.1 + r.2 ≤ s.1 ∨ s.1 + s.2 ≤ r.1 :=
  (frame_ranges_apart _ (by decide)).1

end Liric.Guarantees.FrameSlots
