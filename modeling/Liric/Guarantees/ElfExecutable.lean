import Liric.Lib.Elf64
import Liric.Lib.InstructionFields
import Liric.Source.Object.ElfExecutable

/-!
# Static executables are linked

A relocation is one patch of the code and perhaps one write of a GOT slot; with
fields that do not overlap each is found again in the loaded segment.
-/
namespace Liric.Guarantees.ElfExecutable
open Lib Lib.Elf64 Source.Object List Option
open Source.Ir (CStr)

variable {i off place target n : Nat} {rels : List ObjReloc} {buf buf' file : List UInt8}
  {img' : Image} {rel : ObjReloc} {sym : ObjSymbol} {type : UInt8} {entrySymbol : CStr}

/-- Where code and data are loaded behind a start stub. -/
def codeBase (stub : List UInt8) : Nat := imageBase + (objAlignUp 120 16 + stub.length)

def dataBase (stub code : List UInt8) : Nat :=
  imageBase + objAlignUp (objAlignUp 120 16 + stub.length + code.length) 16

def symbolAddr (stub code : List UInt8) (sym : ObjSymbol) : Nat :=
  if sym.sectionId = 1 then codeBase stub + sym.offset.toNat
  else dataBase stub code + sym.offset.toNat

/-- The bytes of code that a relocation is for. -/
def fieldWidth (type : UInt8) : Nat := if type = lrRelocX866464 then 8 else 4

section
variable (file : List UInt8)

/-- The field at `place` points to `target`, or to a slot that holds `target`. -/
def FieldX8664 (type : UInt8) (place target slot : Nat) : Prop :=
  if type = lrRelocX8664Pc32 ∨ type = lrRelocX8664Plt32 then
    ∃ word, loaded32 file place = some word ∧ rel32Target place word = target
  else if type = lrRelocX8664Gotpcrel then
    (∃ word, loaded32 file place = some word ∧ rel32Target place word = slot) ∧
      loaded64 file slot = some target
  else if type = lrRelocX866464 then loaded64 file place = some target
  else False

/-- As above for A64, where a page and the offset in it come from two instructions. -/
def FieldAarch64 (type : UInt8) (place target slot : Nat) : Prop :=
  if type = lrRelocArm64Branch26 then
    ∃ word, loaded32 file place = some word ∧ branch26Target place word = target
  else if type = lrRelocArm64Page21 then
    ∃ word, loaded32 file place = some word ∧ adrpTarget place word = pageOf target
  else if type = lrRelocArm64Pageoff12 then
    ∃ word, loaded32 file place = some word ∧ imm12 word = target % 4096
  else if type = lrRelocArm64GotLoadPage21 then
    (∃ word, loaded32 file place = some word ∧ adrpTarget place word = pageOf slot) ∧
      loaded64 file slot = some target
  else if type = lrRelocArm64GotLoadPageoff12 then
    (∃ word, loaded32 file place = some word ∧ 8 * imm12 word = slot % 4096) ∧
      loaded64 file slot = some target
  else False

def FieldRiscv64 (type : UInt8) (place target _slot : Nat) : Prop :=
  if type = lrRelocRiscv64Jal then
    ∃ word, loaded32 file place = some word ∧ jalTarget place word = target
  else False

/-- The stub runs from the entry point to a call of `target`. -/
def CallsX8664 (entrySymbol : CStr) (file : List UInt8) (target : Nat) : Prop :=
  ∃ e, ehdr file = some e ∧
    loaded file e.entry (entryCallOff entrySymbol) =
      some ((startStubX8664 entrySymbol).take (entryCallOff entrySymbol)) ∧
    ∃ word, loaded32 file (e.entry + entryCallOff entrySymbol) = some word ∧
      rel32Target (e.entry + entryCallOff entrySymbol) word = target

def CallsAarch64 (target : Nat) : Prop :=
  ∃ e, ehdr file = some e ∧ ∃ word, loaded32 file e.entry = some word ∧
    word &&& branch26Mask = 0x94000000 ∧ branch26Target e.entry word = target

def CallsRiscv64 (target : Nat) : Prop :=
  ∃ e, ehdr file = some e ∧ ∃ word, loaded32 file e.entry = some word ∧
    word &&& jalMask = 0xEF ∧ jalTarget e.entry word = target

end

/-- The loaded program is the code and data with every relocation resolved. -/
structure Linked (stub code data : List UInt8) (oc : ObjfileCtx) (entrySymbol : CStr)
    (calls : List UInt8 → Nat → Prop) (field : List UInt8 → UInt8 → Nat → Nat → Nat → Prop)
    (isGot : UInt8 → Bool) (file : List UInt8) : Prop where
  entry : ∃ sym, findEntry oc entrySymbol = some sym ∧ calls file (symbolAddr stub code sym)
  fields : ∃ slot : Nat → Nat,
    (∀ rel ∈ oc.relocs, ∃ sym, oc.symbols[rel.symbolIdx.toNat]? = some sym ∧
      field file rel.type (codeBase stub + rel.offset.toNat) (symbolAddr stub code sym)
        (slot rel.symbolIdx.toNat)) ∧
    (∀ rel ∈ oc.relocs, isGot rel.type → Apart (slot rel.symbolIdx.toNat) 8
      (dataBase stub code) data.length) ∧
    (∀ rel ∈ oc.relocs, isGot rel.type → ∀ other ∈ oc.relocs, isGot other.type →
      rel.symbolIdx ≠ other.symbolIdx →
      Apart (slot rel.symbolIdx.toNat) 8 (slot other.symbolIdx.toNat) 8)
  codeKept : ∀ i (h : i < code.length),
    (∀ rel ∈ oc.relocs, i < rel.offset.toNat ∨ rel.offset.toNat + fieldWidth rel.type ≤ i) →
    loaded file (codeBase stub + i) 1 = some [code[i]]
  dataKept : ∀ i (h : i < data.length),
    (∀ rel ∈ oc.dataRelocs, i < rel.offset.toNat ∨ rel.offset.toNat + 8 ≤ i) →
    loaded file (dataBase stub code + i) 1 = some [data[i]]

/-- The fields of the relocations do not overlap, and those of the data lie in the data. -/
structure FieldsSeparate (data : List UInt8) (oc : ObjfileCtx) : Prop where
  text : oc.relocs.Pairwise (fun r s => Apart r.offset.toNat (fieldWidth r.type)
    s.offset.toNat (fieldWidth s.type))
  dataApart : oc.dataRelocs.Pairwise (fun r s => Apart r.offset.toNat 8 s.offset.toNat 8)
  dataInside : ∀ r ∈ oc.dataRelocs, r.offset.toNat + 8 ≤ data.length

/-- The slots stand behind the data, one behind the other. -/
structure SlotsInv (base : Nat) (plan : GotPlan) : Prop where
  start : base ≤ plan.dataRuntimeSize
  aligned : plan.dataRuntimeSize % 8 = base % 8
  inside : ∀ i s, plan.gotSlotOff.getD i none = some s →
    base ≤ s ∧ s + 8 ≤ plan.dataRuntimeSize ∧ s % 8 = base % 8
  apart : ∀ i j s t, i ≠ j → plan.gotSlotOff.getD i none = some s →
    plan.gotSlotOff.getD j none = some t → Apart s 8 t 8

theorem getD_set_none {l : List (Option Nat)} {j s : Nat} (hi : i < l.length) :
    (l.set i (some s)).getD j none = if j = i then some s else l.getD j none := by
  rw [getD_eq_getElem?_getD, getD_eq_getElem?_getD, getElem?_set]
  by_cases hji : j = i
  · rw [if_pos hji, if_pos hji.symm, if_pos (hji ▸ hi)]
    rfl
  · rw [if_neg hji, if_neg (Ne.symm hji)]

theorem SlotsInv.add {base : Nat} {plan : GotPlan} (h : SlotsInv base plan)
    (hi : i < plan.gotSlotOff.length) :
    SlotsInv base
      { gotSlotOff := plan.gotSlotOff.set i (some plan.dataRuntimeSize)
        dataRuntimeSize := plan.dataRuntimeSize + 8 } := by
  have hstart := h.start
  have haligned := h.aligned
  constructor
  · exact Nat.le_add_right_of_le hstart
  · simp only
    omega
  · intro j s hs
    rw [getD_set_none hi] at hs
    simp only
    by_cases hji : j = i
    · rw [if_pos hji] at hs
      cases hs
      exact ⟨hstart, le_rfl, haligned⟩
    · rw [if_neg hji] at hs
      obtain ⟨hlow, hhigh, hmod⟩ := h.inside j s hs
      exact ⟨hlow, by omega, hmod⟩
  · intro j k s t hjk hs ht
    rw [getD_set_none hi] at hs ht
    by_cases hji : j = i
    · rw [if_pos hji] at hs
      rw [if_neg (by omega)] at ht
      cases hs
      exact Or.inr (h.inside k t ht).2.1
    · rw [if_neg hji] at hs
      by_cases hki : k = i
      · rw [if_pos hki] at ht
        cases ht
        exact Or.inl (h.inside j s hs).2.1
      · rw [if_neg hki] at ht
        exact h.apart j k s t hjk hs ht

/-- The loop keeps the slots it has given and gives one to every symbol it meets. -/
theorem gotLoop_spec {isGot : UInt8 → Bool} {oc : ObjfileCtx} {base : Nat} {plan plan' : GotPlan}
    (hrun : gotLoop isGot oc rels plan = some plan') (h : SlotsInv base plan)
    (hlen : plan.gotSlotOff.length = oc.symbols.length) :
    SlotsInv base plan' ∧
      (∀ i s, plan.gotSlotOff.getD i none = some s → plan'.gotSlotOff.getD i none = some s) ∧
      (∀ rel ∈ rels, isGot rel.type →
        ∃ s, plan'.gotSlotOff.getD rel.symbolIdx.toNat none = some s) := by
  induction rels generalizing plan with
  | nil =>
    cases hrun
    exact ⟨h, fun _ _ hs => hs, fun rel hrel => absurd hrel not_mem_nil⟩
  | cons rel rels ih =>
    rw [gotLoop] at hrun
    by_cases hgot : isGot rel.type
    · rw [if_neg (by simp [hgot])] at hrun
      obtain ⟨hrange, hrun⟩ := ite_none_left_eq_some.1 hrun
      split at hrun
      · rename_i hsome
        obtain ⟨hinv, hkept, hall⟩ := ih hrun h hlen
        obtain ⟨s, hs⟩ := isSome_iff_exists.mp hsome
        refine ⟨hinv, hkept, ?_⟩
        intro r hr hrgot
        rcases mem_cons.mp hr with rfl | hr
        · exact ⟨s, hkept _ _ hs⟩
        · exact hall r hr hrgot
      · rename_i hnone
        obtain ⟨-, hrun⟩ := ite_none_left_eq_some.1 hrun
        have hidx : rel.symbolIdx.toNat < plan.gotSlotOff.length := by omega
        have hnone' : plan.gotSlotOff.getD rel.symbolIdx.toNat none = none := by
          simpa using hnone
        obtain ⟨hinv, hkept, hall⟩ := ih hrun (h.add hidx) (by simpa using hlen)
        refine ⟨hinv, ?_, ?_⟩
        · intro i s hs
          apply hkept
          rw [getD_set_none hidx, if_neg]
          · exact hs
          · rintro rfl
            rw [hnone'] at hs
            exact absurd hs (by simp)
        · intro r hr hrgot
          rcases mem_cons.mp hr with rfl | hr
          · exact ⟨plan.dataRuntimeSize, hkept _ _ (by rw [getD_set_none hidx, if_pos rfl])⟩
          · exact hall r hr hrgot
    · rw [if_pos (by simp [hgot])] at hrun
      obtain ⟨hinv, hkept, hall⟩ := ih hrun h hlen
      refine ⟨hinv, hkept, ?_⟩
      intro r hr hrgot
      rcases mem_cons.mp hr with rfl | hr
      · exact absurd hrgot hgot
      · exact hall r hr hrgot

theorem gotPlan_spec {isGot : UInt8 → Bool} {oc : ObjfileCtx} {dataSize : Nat} {plan : GotPlan}
    (hrun : gotPlan isGot oc dataSize = some plan) :
    SlotsInv (objAlignUp dataSize 8) plan ∧
      (∀ rel ∈ oc.relocs, isGot rel.type →
        ∃ s, plan.gotSlotOff.getD rel.symbolIdx.toNat none = some s) := by
  have hempty : ∀ i, (replicate oc.symbols.length (none : Option Nat)).getD i none = none := by
    intro i
    rw [getD_eq_getElem?_getD, getElem?_replicate]
    split <;> rfl
  have hstart : SlotsInv (objAlignUp dataSize 8)
      { gotSlotOff := replicate oc.symbols.length none
        dataRuntimeSize := objAlignUp dataSize 8 } := by
    constructor
    · exact le_rfl
    · rfl
    · intro i s hs
      rw [hempty] at hs
      exact absurd hs (by simp)
    · intro i j s t _ hs _
      rw [hempty] at hs
      exact absurd hs (by simp)
  obtain ⟨hinv, -, hall⟩ := gotLoop_spec hrun hstart length_replicate
  exact ⟨hinv, hall⟩

theorem writeU32Le_some {value : BitVec 32} (h : writeU32Le buf off value = some buf') :
    off + 4 ≤ buf.length ∧ buf' = applyPatch buf (patchWord off (fun _ => value)) := by
  rw [writeU32Le] at h
  obtain ⟨hlen, h⟩ := ite_none_left_eq_some.1 h
  exact ⟨by omega, (Option.some.inj h).symm⟩

theorem writeU64Le_some {value : Nat} (h : writeU64Le buf off value = some buf') :
    off + 8 ≤ buf.length ∧ buf' = overwrite buf off (leBytes 8 value) := by
  rw [writeU64Le] at h
  obtain ⟨hlen, h⟩ := ite_none_left_eq_some.1 h
  exact ⟨by omega, (Option.some.inj h).symm⟩

theorem patchRel32_some (h : patchRel32Vaddr buf off place target = some buf') :
    off + 4 ≤ buf.length ∧
      buf' = applyPatch buf
        (patchWord off (fun _ => BitVec.ofInt 32 ((target : Int) - (place + 4)))) ∧
      -2 ^ 31 ≤ (target : Int) - (place + 4) ∧ (target : Int) - (place + 4) < 2 ^ 31 := by
  simp only [patchRel32Vaddr] at h
  obtain ⟨hrange, h⟩ := ite_none_left_eq_some.1 h
  obtain ⟨hlen, hbuf⟩ := writeU32Le_some h
  exact ⟨hlen, hbuf, by omega, by omega⟩

/-- A word read, changed and written back. -/
theorem writeU32Le_read {f : BitVec 32 → BitVec 32}
    (h : writeU32Le buf off (f (readU32Le buf off)) = some buf') :
    off + 4 ≤ buf.length ∧ buf' = applyPatch buf (patchWord off f) :=
  writeU32Le_some h

def branch26Insert (imm : Int) (word : BitVec 32) : BitVec 32 :=
  (word &&& branch26Mask) ||| (BitVec.ofInt 32 imm &&& 0x03FFFFFF)

theorem patchBranch26_some (h : patchAarch64Branch26Vaddr buf off place target = some buf') :
    off + 4 ≤ buf.length ∧
      buf' = applyPatch buf
        (patchWord off (branch26Insert (((target : Int) - place).tdiv 4))) ∧
      -2 ^ 25 ≤ ((target : Int) - place).tdiv 4 ∧ ((target : Int) - place).tdiv 4 < 2 ^ 25 := by
  simp only [patchAarch64Branch26Vaddr] at h
  obtain ⟨-, h⟩ := ite_none_left_eq_some.1 h
  obtain ⟨hrange, h⟩ := ite_none_left_eq_some.1 h
  obtain ⟨hlen, hbuf⟩ := writeU32Le_read (f := branch26Insert (((target : Int) - place).tdiv 4)) h
  exact ⟨hlen, hbuf, by omega, by omega⟩

def pagesBetween (place target : Nat) : Int :=
  (((target - target % 4096 : Nat) : Int) - ((place - place % 4096 : Nat) : Int)) / 4096

theorem patchPage21_some (h : patchAarch64Page21Vaddr buf off place target = some buf') :
    off + 4 ≤ buf.length ∧
      buf' = applyPatch buf
        (patchWord off (fun word => adrpInsert word (BitVec.ofInt 32 (pagesBetween place target)))) ∧
      -2 ^ 20 ≤ pagesBetween place target ∧ pagesBetween place target < 2 ^ 20 := by
  simp only [patchAarch64Page21Vaddr] at h
  obtain ⟨-, h⟩ := ite_none_left_eq_some.1 h
  obtain ⟨hrange, h⟩ := ite_none_left_eq_some.1 h
  obtain ⟨hlen, hbuf⟩ := writeU32Le_read
    (f := fun word => adrpInsert word (BitVec.ofInt 32 (pagesBetween place target))) h
  rw [pagesBetween]
  exact ⟨hlen, hbuf, by omega, by omega⟩

theorem patchPageoff12_some {gotLoad : Bool}
    (h : patchAarch64Pageoff12Vaddr buf off target gotLoad = some buf') :
    off + 4 ≤ buf.length ∧
      buf' = applyPatch buf (patchWord off (fun word => imm12Insert word
        (BitVec.ofNat 32 (if gotLoad then target % 4096 / 8 else target % 4096)))) ∧
      (gotLoad → target % 4096 % 8 = 0) := by
  simp only [patchAarch64Pageoff12Vaddr] at h
  obtain ⟨-, h⟩ := ite_none_left_eq_some.1 h
  obtain ⟨haligned, h⟩ := ite_none_left_eq_some.1 h
  obtain ⟨hlen, hbuf⟩ := writeU32Le_read (f := fun word => imm12Insert word
    (BitVec.ofNat 32 (if gotLoad then target % 4096 / 8 else target % 4096))) h
  refine ⟨hlen, hbuf, ?_⟩
  intro hload
  simpa [hload] using haligned

theorem patchJal_some (h : patchRiscvJalVaddr buf off place target = some buf') :
    off + 4 ≤ buf.length ∧
      buf' = applyPatch buf
        (patchWord off (fun word => jalInsert word (BitVec.ofInt 32 ((target : Int) - place)))) ∧
      ((target : Int) - place) % 2 = 0 ∧ -2 ^ 20 ≤ (target : Int) - place ∧
      (target : Int) - place < 2 ^ 20 := by
  simp only [patchRiscvJalVaddr] at h
  obtain ⟨-, h⟩ := ite_none_left_eq_some.1 h
  obtain ⟨heven, h⟩ := ite_none_left_eq_some.1 h
  obtain ⟨hrange, h⟩ := ite_none_left_eq_some.1 h
  obtain ⟨hlen, hbuf⟩ := writeU32Le_read
    (f := fun word => jalInsert word (BitVec.ofInt 32 ((target : Int) - place))) h
  exact ⟨hlen, hbuf, by omega, by omega, by omega⟩

/-- What one step over the text relocations does: a patch of the code, writes of slots. -/
def StepDoes (codeSize dataSize : Nat) (patch : ObjReloc → Patch)
    (slots : ObjReloc → List (Nat × List UInt8)) (ok : ObjReloc → Prop)
    (step : Image → ObjReloc → Option Image) : Prop :=
  ∀ img rel img', step img rel = some img' → img.codeMut.length = codeSize →
    img.dataMut.length = dataSize →
    (img'.codeMut = applyPatch img.codeMut (patch rel) ∧ (patch rel).Fits codeSize) ∧
    (img'.dataMut = writes img.dataMut (slots rel) ∧ Inside dataSize (slots rel)) ∧ ok rel

variable {step : Image → ObjReloc → Option Image} {ok : ObjReloc → Prop}

/-- What the whole loop does. -/
theorem StepDoes.loop {codeSize dataSize : Nat} {patch : ObjReloc → Patch}
    {slots : ObjReloc → List (Nat × List UInt8)} (h : StepDoes codeSize dataSize patch slots ok step)
    {img : Image} (hrun : rels.foldlM step img = some img') (hcode : img.codeMut.length = codeSize)
    (hdata : img.dataMut.length = dataSize) :
    (img'.codeMut = patches img.codeMut (rels.map patch) ∧ ∀ p ∈ rels.map patch, p.Fits codeSize) ∧
    (img'.dataMut = writes img.dataMut (rels.flatMap slots) ∧
      Inside dataSize (rels.flatMap slots)) ∧
    ∀ rel ∈ rels, ok rel := by
  induction rels generalizing img with
  | nil =>
    cases hrun
    exact ⟨⟨rfl, fun p hp => absurd hp not_mem_nil⟩,
      ⟨rfl, fun w hw => absurd hw not_mem_nil⟩, fun rel hrel => absurd hrel not_mem_nil⟩
  | cons rel rels ih =>
    rw [foldlM_cons] at hrun
    obtain ⟨mid, hstep, hrest⟩ := bind_eq_some_iff.mp hrun
    obtain ⟨⟨hpatch, hfits⟩, ⟨hwrite, hinside⟩, hok⟩ := h img rel mid hstep hcode hdata
    have hcode' : mid.codeMut.length = codeSize := by
      rw [hpatch, length_applyPatch (by rw [hcode]; exact hfits), hcode]
    have hdata' : mid.dataMut.length = dataSize := by
      rw [hwrite, length_writes (by rw [hdata]; exact hinside), hdata]
    obtain ⟨⟨hpatches, hallFit⟩, ⟨hwrites, hallInside⟩, hallOk⟩ := ih hrest hcode' hdata'
    refine ⟨⟨?_, ?_⟩, ⟨?_, ?_⟩, ?_⟩
    · rw [hpatches, hpatch]
      rfl
    · exact forall_mem_cons.2 ⟨hfits, hallFit⟩
    · rw [hwrites, hwrite, flatMap_cons, writes_append]
    · intro w hw
      rw [flatMap_cons] at hw
      rcases mem_append.mp hw with hw | hw
      · exact hinside w hw
      · exact hallInside w hw
    · exact forall_mem_cons.2 ⟨hok, hallOk⟩

/-- The address a relocation is resolved to. -/
def targetOf (oc : ObjfileCtx) (l : ExecLayout) (codeSize dataRuntimeSize : Nat)
    (rel : ObjReloc) : Nat :=
  ((oc.symbols[rel.symbolIdx.toNat]?).bind (relocTarget l codeSize dataRuntimeSize)).getD 0

def slotOf (plan : GotPlan) (i : Nat) : Nat := (plan.gotSlotOff.getD i none).getD 0

variable {dataRuntimeSize : Nat}

/-- The checks a text relocation passes before it is patched. -/
theorem relocStep_some {oc : ObjfileCtx} {l : ExecLayout} {codeSize : Nat}
    {patch : ObjReloc → Nat → Nat → Image → Option Image} {img : Image}
    (h : relocStep oc l codeSize dataRuntimeSize patch img rel = some img') :
    (∃ sym, oc.symbols[rel.symbolIdx.toNat]? = some sym ∧
      relocTarget l codeSize dataRuntimeSize sym =
        some (targetOf oc l codeSize dataRuntimeSize rel)) ∧
    rel.offset.toNat + 4 ≤ codeSize ∧
    patch rel (l.codeVaddr + rel.offset.toNat) (targetOf oc l codeSize dataRuntimeSize rel) img =
      some img' := by
  rw [relocStep] at h
  obtain ⟨sym, hsym, h⟩ := bind_eq_some_iff.mp h
  obtain ⟨hlen, h⟩ := ite_none_left_eq_some.1 h
  obtain ⟨target, htarget, h⟩ := bind_eq_some_iff.mp h
  have heq : targetOf oc l codeSize dataRuntimeSize rel = target := by
    rw [targetOf, hsym, bind_some, htarget, getD_some]
  rw [heq]
  exact ⟨⟨sym, hsym, htarget⟩, by omega, h⟩

theorem relocTarget_some {l : ExecLayout} {codeSize : Nat}
    (h : relocTarget l codeSize dataRuntimeSize sym = some target) :
    target = if sym.sectionId = 1 then l.codeVaddr + sym.offset.toNat
      else l.dataVaddr + sym.offset.toNat := by
  rw [relocTarget] at h
  obtain ⟨-, h⟩ := ite_none_left_eq_some.1 h
  split at h
  · rename_i hone
    obtain ⟨-, h⟩ := ite_none_left_eq_some.1 h
    rw [if_pos hone]
    exact (Option.some.inj h).symm
  · rename_i hone
    split at h
    · obtain ⟨-, h⟩ := ite_none_left_eq_some.1 h
      rw [if_neg hone]
      exact (Option.some.inj h).symm
    · exact absurd h (by simp)

theorem patchCode_some {img : Image} {patched : Option (List UInt8)}
    (h : patchCode img patched = some img') :
    patched = some img'.codeMut ∧ img'.dataMut = img.dataMut := by
  obtain ⟨code, hcode, h⟩ := bind_eq_some_iff.mp h
  cases h
  exact ⟨hcode, rfl⟩

/-- The parts that a file is put together from. -/
structure FileParts (eMachine : Nat) (l : ExecLayout) (stub : List UInt8) (img : Image)
    (codeSize dataSize : Nat) : Prop where
  layout : l = execLayout stub.length codeSize dataSize
  codeLength : img.codeMut.length = codeSize
  dataLength : img.dataMut.length = dataSize
  small : l.totalSize < 2 ^ 63
  machine : eMachine < 2 ^ 16

/-- The file with the field of the call in the stub filled in. -/
def startedFile (eMachine : Nat) (l : ExecLayout) (stub : List UInt8) (img : Image) (k : Nat)
    (f : BitVec 32 → BitVec 32) : List UInt8 :=
  applyPatch (execFile eMachine l stub img) (patchWord (l.textOff + k) f)

section Loading
variable {eMachine : Nat} {l : ExecLayout} {stub : List UInt8} {img : Image}
  {codeSize dataSize k : Nat} {f : BitVec 32 → BitVec 32}

theorem FileParts.offsets (h : FileParts eMachine l stub img codeSize dataSize) :
    l.textOff = 128 ∧ l.codeOff = 128 + stub.length ∧ l.codeOff + codeSize ≤ l.dataOff ∧
      l.totalSize = l.dataOff + dataSize := by
  have hle : 128 + stub.length + codeSize ≤ objAlignUp (128 + stub.length + codeSize) 16 :=
    le_padUp _ (by omega)
  have htext : objAlignUp (64 + 56) 16 = 128 := by decide
  rw [h.layout]
  simp only [execLayout, htext]
  exact ⟨trivial, trivial, hle, trivial⟩

theorem length_execHeader (a b c : Nat) : (execHeader a b c).length = 120 := by
  simp [execHeader, w8, w16, w32, w64]

section
variable (h : FileParts eMachine l stub img codeSize dataSize)
include h

theorem execFile_ordered :
    Ordered 0 [(0, execHeader eMachine l.entryVaddr l.totalSize), (l.textOff, stub),
      (l.codeOff, img.codeMut), (l.dataOff, img.dataMut)] l.totalSize := by
  obtain ⟨htext, hcode, hdata, htotal⟩ := h.offsets
  simp only [Ordered, length_execHeader, h.codeLength, h.dataLength]
  omega

theorem length_execFile : (execFile eMachine l stub img).length = l.totalSize := by
  have hzeros : (wpad l.totalSize).length = l.totalSize := length_replicate
  have hinside := (execFile_ordered h).inside
  rw [execFile, length_writes (by rw [hzeros]; exact hinside), hzeros]

/-- A part of the file is found at its offset. -/
theorem bytesAt_execFile (off : Nat) (bs : List UInt8)
    (hmem : (off, bs) ∈ [(0, execHeader eMachine l.entryVaddr l.totalSize), (l.textOff, stub),
      (l.codeOff, img.codeMut), (l.dataOff, img.dataMut)]) :
    bytesAt (execFile eMachine l stub img) off bs.length = bs := by
  have hzeros : (wpad l.totalSize).length = l.totalSize := length_replicate
  have hordered := execFile_ordered h
  have hinside : Inside (wpad l.totalSize).length
      [(0, execHeader eMachine l.entryVaddr l.totalSize), (l.textOff, stub),
      (l.codeOff, img.codeMut), (l.dataOff, img.dataMut)] := by
    rw [hzeros]
    exact hordered.inside
  exact bytesAt_writes hinside hordered.apart.noClash hmem

theorem startPatch_fits (hk : k + 4 ≤ stub.length) :
    (patchWord (l.textOff + k) f).Fits (execFile eMachine l stub img).length := by
  obtain ⟨htext, hcode, hdata, htotal⟩ := h.offsets
  apply patchWord_fits
  rw [length_execFile h]
  omega

/-- The call leaves everything but its field alone. -/
theorem bytesAt_startedFile (hk : k + 4 ≤ stub.length) {a : Nat}
    (hapart : Apart a n (l.textOff + k) 4) :
    bytesAt (startedFile eMachine l stub img k f) a n =
      bytesAt (execFile eMachine l stub img) a n := by
  apply bytesAt_congr
  intro i hi
  rw [Apart] at hapart
  apply getElem?_applyPatch_of_apart (startPatch_fits h hk)
  simp only [patchWord]
  omega

end

def execEhdr (eMachine entryVaddr : Nat) : Ehdr :=
  { magic := [0x7F, 0x45, 0x4C, 0x46]
    fileClass := 2
    encoding := 1
    type := 2
    machine := eMachine
    entry := entryVaddr
    phoff := 64
    shoff := 0
    phentsize := 56
    phnum := 1
    shentsize := 0
    shnum := 0
    shstrndx := 0 }

def ehdrBytes (eMachine entryVaddr : Nat) : List UInt8 :=
  [w8 0x7F, w8 0x45, w8 0x4C, w8 0x46, w8 2, w8 1, w8 1, w8 0, w64 0, w16 2, w16 eMachine, w32 1,
    w64 entryVaddr, w64 64, w64 0, w32 0, w16 64, w16 56, w16 1, w16 0, w16 0, w16 0].flatten

def phdrBytes (totalSize : Nat) : List UInt8 :=
  [w32 1, w32 7, w64 0, w64 imageBase, w64 imageBase, w64 totalSize, w64 totalSize,
    w64 4096].flatten

theorem length_ehdrBytes (a b : Nat) : (ehdrBytes a b).length = 64 := by
  simp [ehdrBytes, w8, w16, w32, w64]

theorem length_phdrBytes (a : Nat) : (phdrBytes a).length = 56 := by
  simp [phdrBytes, w32, w64]

theorem execHeader_split (a b c : Nat) : execHeader a b c = ehdrBytes a b ++ phdrBytes c := by
  rw [execHeader, ehdrBytes, phdrBytes, ← flatten_append]
  rfl

theorem header_startedFile (h : FileParts eMachine l stub img codeSize dataSize)
    (hk : k + 4 ≤ stub.length) {a : Nat} (hle : a + n ≤ 120) :
    bytesAt (startedFile eMachine l stub img k f) a n =
      bytesAt (execHeader eMachine l.entryVaddr l.totalSize) a n := by
  have htext := h.offsets.1
  have hwhole := bytesAt_execFile h 0 (execHeader eMachine l.entryVaddr l.totalSize) (by simp)
  rw [length_execHeader] at hwhole
  rw [bytesAt_startedFile h hk (Or.inl (by omega)), ← hwhole, bytesAt_bytesAt _ hle, Nat.zero_add]

theorem ehdr_startedFile (h : FileParts eMachine l stub img codeSize dataSize)
    (hk : k + 4 ≤ stub.length) :
    ehdr (startedFile eMachine l stub img k f) = some (execEhdr eMachine l.entryVaddr) := by
  obtain ⟨htext, hcode, hdata, htotal⟩ := h.offsets
  have hentry : l.entryVaddr < 256 ^ 8 := by
    rw [ExecLayout.entryVaddr, imageBase]
    omega
  have hmachine : eMachine < 256 ^ 2 := h.machine
  have hlen := length_ehdrBytes eMachine l.entryVaddr
  rw [ehdr, header_startedFile h hk (by omega), execHeader_split,
    bytesAt_append_left (by rw [hlen]), bytesAt_all hlen, ehdrBytes]
  simp only [ehdrWidths, w8, w16, w32, w64, decodeFields_cons, decodeFields_nil, ehdrOf,
    Nat.mod_eq_of_lt hentry, Nat.mod_eq_of_lt hmachine]
  rfl

def execPhdr (totalSize : Nat) : Phdr :=
  { type := 1, flags := 7, offset := 0, vaddr := imageBase, filesz := totalSize, memsz := totalSize }

section
variable (h : FileParts eMachine l stub img codeSize dataSize) (hk : k + 4 ≤ stub.length)
include h hk

theorem phdr_startedFile :
    phdr (startedFile eMachine l stub img k f) (execEhdr eMachine l.entryVaddr) 0 =
      some (execPhdr l.totalSize) := by
  have hsize : l.totalSize < 256 ^ 8 := lt_trans h.small (by decide)
  have hbase : imageBase < 256 ^ 8 := by decide
  have hlen := length_ehdrBytes eMachine l.entryVaddr
  have hoff : (execEhdr eMachine l.entryVaddr).phoff + 0 * (execEhdr eMachine l.entryVaddr).phentsize
      = 64 := rfl
  rw [phdr, hoff, header_startedFile h hk (by omega), execHeader_split,
    bytesAt_append_right (by rw [hlen]), hlen, Nat.sub_self, bytesAt_all (length_phdrBytes _),
    phdrBytes]
  simp only [phdrWidths, w32, w64, decodeFields_cons, decodeFields_nil, phdrOf,
    Nat.mod_eq_of_lt hsize, Nat.mod_eq_of_lt hbase]
  rfl

/-- Loading puts the file at the image base. -/
theorem loaded_startedFile (hle : off + n ≤ l.totalSize) :
    loaded (startedFile eMachine l stub img k f) (imageBase + off) n =
      some (bytesAt (startedFile eMachine l stub img k f) off n) := by
  rw [loaded, ehdr_startedFile h hk]
  simp only [bind_eq_bind, bind_some]
  have hcond : (execPhdr l.totalSize).type = 1 ∧
      (execPhdr l.totalSize).vaddr ≤ imageBase + off ∧
      imageBase + off + n ≤ (execPhdr l.totalSize).vaddr + (execPhdr l.totalSize).filesz := by
    refine ⟨rfl, Nat.le_add_right _ _, ?_⟩
    simp only [execPhdr]
    omega
  rw [phdr_startedFile h hk, bind_some, if_pos hcond]
  simp only [execPhdr, Nat.zero_add, Nat.add_sub_cancel_left]

theorem loaded_code (hle : i + n ≤ codeSize) :
    loaded (startedFile eMachine l stub img k f) (l.codeVaddr + i) n =
      some (bytesAt img.codeMut i n) := by
  obtain ⟨htext, hcode, hdata, htotal⟩ := h.offsets
  have hpart := bytesAt_execFile h l.codeOff img.codeMut (by simp)
  rw [h.codeLength] at hpart
  rw [ExecLayout.codeVaddr, Nat.add_assoc, loaded_startedFile h hk (by omega),
    bytesAt_startedFile h hk (Or.inr (by omega)), ← hpart, bytesAt_bytesAt _ hle]

theorem loaded_data (hle : i + n ≤ dataSize) :
    loaded (startedFile eMachine l stub img k f) (l.dataVaddr + i) n =
      some (bytesAt img.dataMut i n) := by
  obtain ⟨htext, hcode, hdata, htotal⟩ := h.offsets
  have hpart := bytesAt_execFile h l.dataOff img.dataMut (by simp)
  rw [h.dataLength] at hpart
  rw [ExecLayout.dataVaddr, Nat.add_assoc, loaded_startedFile h hk (by omega),
    bytesAt_startedFile h hk (Or.inr (by omega)), ← hpart, bytesAt_bytesAt _ hle]

/-- The stub in front of the field of its call. -/
theorem loaded_stub :
    loaded (startedFile eMachine l stub img k f) l.entryVaddr k = some (stub.take k) := by
  obtain ⟨htext, hcode, hdata, htotal⟩ := h.offsets
  have hpart := bytesAt_execFile h l.textOff stub (by simp)
  rw [ExecLayout.entryVaddr, loaded_startedFile h hk (by omega),
    bytesAt_startedFile h hk (Or.inl (le_rfl))]
  have hsub : bytesAt (execFile eMachine l stub img) l.textOff k =
      bytesAt (bytesAt (execFile eMachine l stub img) l.textOff stub.length) 0 k := by
    rw [bytesAt_bytesAt _ (by omega), Nat.add_zero]
  rw [hsub, hpart, bytesAt, drop_zero]

/-- The field of the call. -/
theorem loaded_call :
    loaded32 (startedFile eMachine l stub img k f) (l.entryVaddr + k) =
      some (f (wordOf (bytesAt stub k 4))) := by
  obtain ⟨htext, hcode, hdata, htotal⟩ := h.offsets
  have hpart := bytesAt_execFile h l.textOff stub (by simp)
  have hfits := startPatch_fits (f := f) h hk
  have hfield : bytesAt (startedFile eMachine l stub img k f) (l.textOff + k) 4 =
      leBytes 4 (f (wordOf (bytesAt (execFile eMachine l stub img) (l.textOff + k) 4))).toNat :=
    bytesAt_applyPatch hfits
  have hword : bytesAt (execFile eMachine l stub img) (l.textOff + k) 4 = bytesAt stub k 4 := by
    rw [← bytesAt_bytesAt _ hk, hpart]
  rw [loaded32, ExecLayout.entryVaddr, Nat.add_assoc, loaded_startedFile h hk (by omega), hfield,
    hword, map_some, wordOf_leBytes]

end

end Loading

/-- The slot of a GOT relocation is written with the address of its symbol. -/
def slotWrites (isGot : UInt8 → Bool) (oc : ObjfileCtx) (l : ExecLayout) (plan : GotPlan)
    (codeSize : Nat) (rel : ObjReloc) : List (Nat × List UInt8) :=
  if isGot rel.type then
    [(slotOf plan rel.symbolIdx.toNat, leBytes 8 (targetOf oc l codeSize plan.dataRuntimeSize rel))]
  else []

/-- A data relocation adds the address to what stands in the data. -/
def dataPatch (oc : ObjfileCtx) (l : ExecLayout) (rel : ObjReloc) : Patch :=
  patchQuad rel.offset.toNat (fun addend =>
    ((oc.symbols[rel.symbolIdx.toNat]?).elim 0 (fun sym =>
      if sym.sectionId = 1 then l.codeVaddr + sym.offset.toNat
      else l.dataVaddr + sym.offset.toNat)) + addend)

section Data
variable {isGot : UInt8 → Bool} {oc : ObjfileCtx} {l : ExecLayout} {plan : GotPlan}
  {codeSize : Nat} {data : List UInt8}

theorem mem_slotWrites {w : Nat × List UInt8}
    (hw : w ∈ rels.flatMap (slotWrites isGot oc l plan codeSize)) :
    ∃ rel ∈ rels, isGot rel.type ∧ w = (slotOf plan rel.symbolIdx.toNat,
      leBytes 8 (targetOf oc l codeSize plan.dataRuntimeSize rel)) := by
  obtain ⟨rel, hrel, hmem⟩ := mem_flatMap.mp hw
  rw [slotWrites] at hmem
  by_cases hgot : isGot rel.type
  · rw [if_pos hgot] at hmem
    exact ⟨rel, hrel, hgot, mem_singleton.mp hmem⟩
  · rw [if_neg hgot] at hmem
    exact absurd hmem not_mem_nil

theorem slotOf_spec (hplan : gotPlan isGot oc data.length = some plan) (hrel : rel ∈ oc.relocs)
    (hgot : isGot rel.type) :
    plan.gotSlotOff.getD rel.symbolIdx.toNat none = some (slotOf plan rel.symbolIdx.toNat) ∧
      data.length ≤ slotOf plan rel.symbolIdx.toNat ∧
      slotOf plan rel.symbolIdx.toNat + 8 ≤ plan.dataRuntimeSize ∧
      slotOf plan rel.symbolIdx.toNat % 8 = 0 := by
  obtain ⟨hinv, hall⟩ := gotPlan_spec hplan
  obtain ⟨s, hs⟩ := hall rel hrel hgot
  have hslot : slotOf plan rel.symbolIdx.toNat = s := by rw [slotOf, hs, getD_some]
  obtain ⟨hlow, hhigh, hmod⟩ := hinv.inside _ _ hs
  have hpad : data.length ≤ objAlignUp data.length 8 := le_padUp _ (by omega)
  have haligned : objAlignUp data.length 8 % 8 = 0 := padUp_mod data.length 3
  rw [hslot]
  exact ⟨hs, by omega, hhigh, by omega⟩

theorem slots_apart (hplan : gotPlan isGot oc data.length = some plan) {r s : ObjReloc}
    (hr : r ∈ oc.relocs) (hrgot : isGot r.type) (hs : s ∈ oc.relocs) (hsgot : isGot s.type)
    (hne : r.symbolIdx.toNat ≠ s.symbolIdx.toNat) :
    Apart (slotOf plan r.symbolIdx.toNat) 8 (slotOf plan s.symbolIdx.toNat) 8 :=
  (gotPlan_spec hplan).1.apart _ _ _ _ hne (slotOf_spec hplan hr hrgot).1
    (slotOf_spec hplan hs hsgot).1

theorem slotWrites_noClash (hplan : gotPlan isGot oc data.length = some plan) :
    NoClash (oc.relocs.flatMap (slotWrites isGot oc l plan codeSize)) := by
  apply List.Pairwise.imp_of_mem (R := fun _ _ => True) _ (pairwise_of_forall (by simp))
  intro u w hu hw _
  obtain ⟨r, hr, hrgot, rfl⟩ := mem_slotWrites hu
  obtain ⟨s, hs, hsgot, rfl⟩ := mem_slotWrites hw
  by_cases hidx : r.symbolIdx.toNat = s.symbolIdx.toNat
  · left
    simp only [targetOf, hidx]
  · right
    rw [length_leBytes, length_leBytes]
    exact slots_apart hplan hr hrgot hs hsgot hidx

theorem length_dataStart (h : data.length ≤ plan.dataRuntimeSize) :
    (dataStart data plan.dataRuntimeSize).length = plan.dataRuntimeSize := by
  have hzeros : (wpad plan.dataRuntimeSize).length = plan.dataRuntimeSize := length_replicate
  rw [dataStart, length_overwrite (by rw [hzeros]; omega), hzeros]

theorem data_le_runtime (hplan : gotPlan isGot oc data.length = some plan) :
    data.length ≤ plan.dataRuntimeSize :=
  le_trans (le_padUp _ (by omega)) (gotPlan_spec hplan).1.start

/-- Code and data after all relocations. -/
structure RelocatedImage (isGot : UInt8 → Bool) (oc : ObjfileCtx) (l : ExecLayout)
    (plan : GotPlan) (code data : List UInt8) (patch : ObjReloc → Patch) (img : Image) : Prop where
  planned : gotPlan isGot oc data.length = some plan
  codeMut : img.codeMut = patches code (oc.relocs.map patch)
  codeFits : ∀ p ∈ oc.relocs.map patch, p.Fits code.length
  dataMut : img.dataMut =
    patches (writes (dataStart data plan.dataRuntimeSize)
      (oc.relocs.flatMap (slotWrites isGot oc l plan code.length)))
      (oc.dataRelocs.map (dataPatch oc l))
  dataFits : ∀ p ∈ oc.dataRelocs.map (dataPatch oc l), p.Fits plan.dataRuntimeSize
  slotsInside : Inside plan.dataRuntimeSize
    (oc.relocs.flatMap (slotWrites isGot oc l plan code.length))

variable {code : List UInt8} {patch : ObjReloc → Patch} {img : Image}

section
variable (h : RelocatedImage isGot oc l plan code data patch img)
include h

theorem RelocatedImage.length_code : img.codeMut.length = code.length := by
  rw [h.codeMut, length_patches h.codeFits]

theorem RelocatedImage.length_slots :
    (writes (dataStart data plan.dataRuntimeSize)
      (oc.relocs.flatMap (slotWrites isGot oc l plan code.length))).length =
      plan.dataRuntimeSize := by
  have hlen := length_dataStart (data_le_runtime h.planned)
  rw [length_writes (by rw [hlen]; exact h.slotsInside), hlen]

theorem RelocatedImage.length_data : img.dataMut.length = plan.dataRuntimeSize := by
  rw [h.dataMut, length_patches (by rw [h.length_slots]; exact h.dataFits), h.length_slots]

/-- Each field holds what its patch made of the code given. -/
theorem RelocatedImage.field (hoff : ∀ rel, (patch rel).off = rel.offset.toNat)
    (hwidth : ∀ rel ∈ oc.relocs, (patch rel).width = fieldWidth rel.type)
    (hsep : FieldsSeparate data oc) (hrel : rel ∈ oc.relocs) :
    bytesAt img.codeMut rel.offset.toNat (fieldWidth rel.type) =
      (patch rel).change (bytesAt code rel.offset.toNat (fieldWidth rel.type)) := by
  have hapart : (oc.relocs.map patch).Pairwise
      (fun p q => Apart p.off p.width q.off q.width) := by
    apply pairwise_map.mpr
    apply hsep.text.imp_of_mem
    intro r s hr hs hrs
    rw [hoff, hoff, hwidth r hr, hwidth s hs]
    exact hrs
  have hfound := bytesAt_patches h.codeFits hapart (mem_map_of_mem hrel)
  rw [hoff, hwidth rel hrel] at hfound
  rw [h.codeMut, hfound]

theorem RelocatedImage.code_kept (hoff : ∀ rel, (patch rel).off = rel.offset.toNat)
    (hwidth : ∀ rel ∈ oc.relocs, (patch rel).width = fieldWidth rel.type)
    (hi : ∀ rel ∈ oc.relocs, i < rel.offset.toNat ∨ rel.offset.toNat + fieldWidth rel.type ≤ i) :
    img.codeMut[i]? = code[i]? := by
  rw [h.codeMut]
  apply getElem?_patches_of_apart h.codeFits
  intro p hp
  obtain ⟨rel, hrel, rfl⟩ := mem_map.mp hp
  rw [hoff, hwidth rel hrel]
  exact hi rel hrel

/-- The slot of a GOT relocation holds the address of its symbol. -/
theorem RelocatedImage.slot (hsep : FieldsSeparate data oc) (hrel : rel ∈ oc.relocs)
    (hgot : isGot rel.type) :
    bytesAt img.dataMut (slotOf plan rel.symbolIdx.toNat) 8 =
      leBytes 8 (targetOf oc l code.length plan.dataRuntimeSize rel) := by
  have hlen := length_dataStart (data_le_runtime h.planned)
  have hbehind := (slotOf_spec h.planned hrel hgot).2.1
  have hmem : (slotOf plan rel.symbolIdx.toNat,
      leBytes 8 (targetOf oc l code.length plan.dataRuntimeSize rel)) ∈
      oc.relocs.flatMap (slotWrites isGot oc l plan code.length) := by
    apply mem_flatMap.mpr
    refine ⟨rel, hrel, ?_⟩
    rw [slotWrites, if_pos hgot]
    exact mem_singleton.mpr rfl
  have hwritten := bytesAt_writes (by rw [hlen]; exact h.slotsInside)
    (slotWrites_noClash h.planned) hmem
  rw [length_leBytes] at hwritten
  rw [h.dataMut, bytesAt_patches_of_apart (by rw [h.length_slots]; exact h.dataFits), hwritten]
  intro p hp
  obtain ⟨r, hr, rfl⟩ := mem_map.mp hp
  have hin := hsep.dataInside r hr
  exact Or.inr (le_trans hin hbehind)

theorem RelocatedImage.data_kept (hi : i < data.length)
    (hfree : ∀ rel ∈ oc.dataRelocs, i < rel.offset.toNat ∨ rel.offset.toNat + 8 ≤ i) :
    img.dataMut[i]? = data[i]? := by
  have hle := data_le_runtime h.planned
  have hlen := length_dataStart hle
  have hslots : (writes (dataStart data plan.dataRuntimeSize)
      (oc.relocs.flatMap (slotWrites isGot oc l plan code.length)))[i]? =
      (dataStart data plan.dataRuntimeSize)[i]? := by
    apply getElem?_writes_of_apart (by rw [hlen]; exact h.slotsInside)
    intro w hw
    obtain ⟨r, hr, hgot, rfl⟩ := mem_slotWrites hw
    exact Or.inl (lt_of_lt_of_le hi (slotOf_spec h.planned hr hgot).2.1)
  have hzeros : (wpad plan.dataRuntimeSize).length = plan.dataRuntimeSize := length_replicate
  rw [h.dataMut, getElem?_patches_of_apart (by rw [h.length_slots]; exact h.dataFits), hslots,
    dataStart, getElem?_overwrite (by rw [hzeros]; omega), if_pos (by omega), Nat.sub_zero]
  intro p hp
  obtain ⟨r, hr, rfl⟩ := mem_map.mp hp
  exact hfree r hr

end

end Data

theorem bytesAt_one {b : UInt8} (h : buf[i]? = some b) : bytesAt buf i 1 = [b] := by
  obtain ⟨hlt, hget⟩ := List.getElem?_eq_some_iff.mp h
  rw [bytesAt, drop_eq_getElem_cons hlt, take_succ_cons, take_zero, hget]

section Reading
variable {eMachine : Nat} {isGot : UInt8 → Bool} {oc : ObjfileCtx} {l : ExecLayout}
  {plan : GotPlan} {stub code data : List UInt8} {patch : ObjReloc → Patch} {img : Image} {k : Nat}
  {f : BitVec 32 → BitVec 32}

section
variable (hl : l = execLayout stub.length code.length plan.dataRuntimeSize)
include hl

theorem codeVaddr_eq : l.codeVaddr = codeBase stub := by
  rw [hl]
  rfl

theorem dataVaddr_eq : l.dataVaddr = dataBase stub code := by
  rw [hl]
  rfl

/-- The target of a relocation is the address of its symbol. -/
theorem targetOf_eq (htarget : relocTarget l code.length plan.dataRuntimeSize sym =
      some (targetOf oc l code.length plan.dataRuntimeSize rel)) :
    targetOf oc l code.length plan.dataRuntimeSize rel = symbolAddr stub code sym := by
  rw [relocTarget_some htarget, codeVaddr_eq hl, dataVaddr_eq hl, symbolAddr]

end

/-- Addresses fit into a word of 64 bits. -/
theorem symbolAddr_lt (hparts : FileParts eMachine l stub img code.length plan.dataRuntimeSize)
    (sym : ObjSymbol) : symbolAddr stub code sym < 256 ^ 8 := by
  obtain ⟨htext, hcode, hdata, htotal⟩ := hparts.offsets
  have hsmall := hparts.small
  have hoff := sym.offset.isLt
  have hc : codeBase stub = imageBase + l.codeOff := (codeVaddr_eq hparts.layout).symm
  have hd : dataBase stub code = imageBase + l.dataOff := (dataVaddr_eq hparts.layout).symm
  rw [symbolAddr, hc, hd, imageBase]
  split <;> omega

/-- A file put together from code and data relocated in place, where every patch changes the field
of its relocation. -/
structure Written (eMachine : Nat) (isGot : UInt8 → Bool) (oc : ObjfileCtx) (l : ExecLayout)
    (plan : GotPlan) (stub code data : List UInt8) (patch : ObjReloc → Patch) (img : Image)
    (k : Nat) : Prop where
  image : RelocatedImage isGot oc l plan code data patch img
  parts : FileParts eMachine l stub img code.length plan.dataRuntimeSize
  room : k + 4 ≤ stub.length
  off : ∀ rel, (patch rel).off = rel.offset.toNat
  width : ∀ rel ∈ oc.relocs, (patch rel).width = fieldWidth rel.type

section
variable (h : Written eMachine isGot oc l plan stub code data patch img k)
include h

/-- The word at a relocation's place, for a field of four bytes. -/
theorem Written.loaded_field (hsep : FieldsSeparate data oc) (hrel : rel ∈ oc.relocs)
    {g : BitVec 32 → BitVec 32} (hpatch : patch rel = patchWord off g) :
    loaded32 (startedFile eMachine l stub img k f) (codeBase stub + rel.offset.toNat) =
      some (g (wordOf (bytesAt code rel.offset.toNat 4))) := by
  have hfit := h.image.codeFits _ (mem_map_of_mem hrel)
  have hfield := h.image.field h.off h.width hsep hrel
  have hw := h.width rel hrel
  have hinside := hfit.inside
  rw [h.off] at hinside
  rw [hpatch] at hw hfield hinside
  have hfour : fieldWidth rel.type = 4 := hw.symm
  have hin : rel.offset.toNat + 4 ≤ code.length := hinside
  rw [hfour] at hfield
  rw [loaded32, ← codeVaddr_eq h.parts.layout, loaded_code h.parts h.room hin, hfield, map_some]
  simp only [patchWord, wordOf_leBytes]

/-- The slot of a GOT relocation in the loaded program. -/
theorem Written.loaded_slot (hsep : FieldsSeparate data oc) (hrel : rel ∈ oc.relocs)
    (hgot : isGot rel.type) (htarget : relocTarget l code.length plan.dataRuntimeSize sym =
      some (targetOf oc l code.length plan.dataRuntimeSize rel)) :
    loaded64 (startedFile eMachine l stub img k f)
      (dataBase stub code + slotOf plan rel.symbolIdx.toNat) = some (symbolAddr stub code sym) := by
  have hl := h.parts.layout
  have hin := (slotOf_spec h.image.planned hrel hgot).2.2.1
  rw [loaded64, ← dataVaddr_eq hl, loaded_data h.parts h.room hin, h.image.slot hsep hrel hgot,
    targetOf_eq hl htarget, map_some, leNat_leBytes, Nat.mod_eq_of_lt (symbolAddr_lt h.parts sym)]

/-- With the entry and the fields right the file is linked: the slots stand behind the user data
and apart from each other, and all else is as it was given. -/
theorem Written.linked {calls : List UInt8 → Nat → Prop}
    {field : List UInt8 → UInt8 → Nat → Nat → Nat → Prop}
    (hentry : ∃ sym, findEntry oc entrySymbol = some sym ∧
      calls (startedFile eMachine l stub img k f) (symbolAddr stub code sym))
    (hfield : ∀ rel ∈ oc.relocs, ∃ sym, oc.symbols[rel.symbolIdx.toNat]? = some sym ∧
      field (startedFile eMachine l stub img k f) rel.type (codeBase stub + rel.offset.toNat)
        (symbolAddr stub code sym) (dataBase stub code + slotOf plan rel.symbolIdx.toNat)) :
    Linked stub code data oc entrySymbol calls field isGot
      (startedFile eMachine l stub img k f) := by
  have hplan := h.image.planned
  constructor
  case entry => exact hentry
  case fields =>
    refine ⟨fun i => dataBase stub code + slotOf plan i, hfield, ?_, ?_⟩
    · intro rel hrel hgot
      exact Or.inr (Nat.add_le_add_left (slotOf_spec hplan hrel hgot).2.1 _)
    · intro r hr hrgot s hs hsgot hne
      have hnat : r.symbolIdx.toNat ≠ s.symbolIdx.toNat := fun h => hne (BitVec.eq_of_toNat_eq h)
      have hapart := slots_apart hplan hr hrgot hs hsgot hnat
      simp only [Apart] at hapart ⊢
      omega
  case codeKept =>
    intro i hi hfree
    have hbyte : img.codeMut[i]? = some code[i] := by
      rw [h.image.code_kept h.off h.width hfree, getElem?_eq_getElem hi]
    rw [← codeVaddr_eq h.parts.layout, loaded_code h.parts h.room (by omega), bytesAt_one hbyte]
  case dataKept =>
    intro i hi hfree
    have hle := data_le_runtime hplan
    have hbyte : img.dataMut[i]? = some data[i] := by
      rw [h.image.data_kept hi hfree, getElem?_eq_getElem hi]
    rw [← dataVaddr_eq h.parts.layout, loaded_data h.parts h.room (by omega), bytesAt_one hbyte]

end

end Reading

def isGotX8664 (type : UInt8) : Bool := type == lrRelocX8664Gotpcrel

def InRel32 (place target : Nat) : Prop :=
  -2 ^ 31 ≤ (target : Int) - (place + 4) ∧ (target : Int) - (place + 4) < 2 ^ 31

def rel32Patch (off place target : Nat) : Patch :=
  patchWord off (fun _ => BitVec.ofInt 32 ((target : Int) - (place + 4)))

section
variable (oc : ObjfileCtx)

def patchOfX8664 (l : ExecLayout) (plan : GotPlan) (codeSize : Nat) (rel : ObjReloc) : Patch :=
  let off := rel.offset.toNat
  if rel.type = lrRelocX8664Pc32 ∨ rel.type = lrRelocX8664Plt32 then
    rel32Patch off (l.codeVaddr + off) (targetOf oc l codeSize plan.dataRuntimeSize rel)
  else if rel.type = lrRelocX8664Gotpcrel then
    rel32Patch off (l.codeVaddr + off) (l.dataVaddr + slotOf plan rel.symbolIdx.toNat)
  else patchQuad off (fun _ => targetOf oc l codeSize plan.dataRuntimeSize rel)

/-- What the writer has checked of a relocation that it has applied. -/
def OkX8664 (l : ExecLayout) (plan : GotPlan) (codeSize : Nat) (rel : ObjReloc) : Prop :=
  (∃ sym, oc.symbols[rel.symbolIdx.toNat]? = some sym ∧
    relocTarget l codeSize plan.dataRuntimeSize sym =
      some (targetOf oc l codeSize plan.dataRuntimeSize rel)) ∧
  if rel.type = lrRelocX8664Pc32 ∨ rel.type = lrRelocX8664Plt32 then
    InRel32 (l.codeVaddr + rel.offset.toNat) (targetOf oc l codeSize plan.dataRuntimeSize rel)
  else if rel.type = lrRelocX8664Gotpcrel then
    InRel32 (l.codeVaddr + rel.offset.toNat) (l.dataVaddr + slotOf plan rel.symbolIdx.toNat)
  else rel.type = lrRelocX866464

theorem isGotX8664_iff : isGotX8664 type = true ↔ type = lrRelocX8664Gotpcrel := by
  rw [isGotX8664, beq_iff_eq]

/-- Code and slots as one relocation leaves them. -/
theorem slotWrites_none {isGot : UInt8 → Bool} {oc : ObjfileCtx} {l : ExecLayout} {plan : GotPlan}
    {codeSize : Nat} {img : Image} (hnot : ¬ isGot rel.type = true)
    (hdata : img'.dataMut = img.dataMut) :
    img'.dataMut = writes img.dataMut (slotWrites isGot oc l plan codeSize rel) ∧
      Inside plan.dataRuntimeSize (slotWrites isGot oc l plan codeSize rel) := by
  rw [slotWrites, if_neg hnot]
  exact ⟨hdata, fun w hw => absurd hw not_mem_nil⟩

theorem slotWrites_one {isGot : UInt8 → Bool} {oc : ObjfileCtx} {l : ExecLayout} {plan : GotPlan}
    {codeSize : Nat} {img : Image} {data : List UInt8} (hgot : isGot rel.type = true)
    (hlen : img.dataMut.length = plan.dataRuntimeSize)
    (hwrite : writeU64Le img.dataMut (slotOf plan rel.symbolIdx.toNat)
      (targetOf oc l codeSize plan.dataRuntimeSize rel) = some data) :
    data = writes img.dataMut (slotWrites isGot oc l plan codeSize rel) ∧
      Inside plan.dataRuntimeSize (slotWrites isGot oc l plan codeSize rel) := by
  obtain ⟨hin, hdata⟩ := writeU64Le_some hwrite
  rw [slotWrites, if_pos hgot]
  refine ⟨hdata, ?_⟩
  intro w hw
  rw [mem_singleton.mp hw, length_leBytes]
  omega

theorem stepDoes_x8664 (l : ExecLayout) (plan : GotPlan) (codeSize : Nat) :
    StepDoes codeSize plan.dataRuntimeSize (patchOfX8664 oc l plan codeSize)
      (slotWrites isGotX8664 oc l plan codeSize) (OkX8664 oc l plan codeSize)
      (relocStep oc l codeSize plan.dataRuntimeSize (patchX8664 plan l)) := by
  intro img rel img' hstep hcode hdata
  obtain ⟨hsym, -, hpatch⟩ := relocStep_some hstep
  rw [patchX8664] at hpatch
  by_cases hpc : rel.type = lrRelocX8664Pc32 ∨ rel.type = lrRelocX8664Plt32
  · rw [if_pos hpc] at hpatch
    obtain ⟨hcodeMut, hdataMut⟩ := patchCode_some hpatch
    obtain ⟨hlen, hbuf, hrange⟩ := patchRel32_some hcodeMut
    have hnot : ¬ isGotX8664 rel.type = true := by
      rw [isGotX8664_iff]
      rcases hpc with h | h <;> rw [h] <;> decide
    rw [patchOfX8664, if_pos hpc, OkX8664, if_pos hpc]
    exact ⟨⟨hbuf, patchWord_fits (by omega)⟩, slotWrites_none hnot hdataMut, hsym, hrange⟩
  · rw [if_neg hpc] at hpatch
    by_cases hgot : rel.type = lrRelocX8664Gotpcrel
    · rw [if_pos hgot] at hpatch
      obtain ⟨slot, hslot, hpatch⟩ := bind_eq_some_iff.mp hpatch
      obtain ⟨data, hwrite, hpatch⟩ := bind_eq_some_iff.mp hpatch
      have hslotOf : slotOf plan rel.symbolIdx.toNat = slot := by
        rw [slotOf, hslot, getD_some]
      rw [← hslotOf] at hwrite hpatch
      obtain ⟨hcodeMut, hdataMut⟩ := patchCode_some hpatch
      obtain ⟨hlen, hbuf, hrange⟩ := patchRel32_some hcodeMut
      rw [patchOfX8664, if_neg hpc, if_pos hgot, OkX8664, if_neg hpc, if_pos hgot, hdataMut]
      exact ⟨⟨hbuf, patchWord_fits (by omega)⟩,
        slotWrites_one (isGotX8664_iff.mpr hgot) hdata hwrite, hsym, hrange⟩
    · rw [if_neg hgot] at hpatch
      split at hpatch
      · rename_i habs
        obtain ⟨hcodeMut, hdataMut⟩ := patchCode_some hpatch
        obtain ⟨hlen, hbuf⟩ := writeU64Le_some hcodeMut
        have hnot : ¬ isGotX8664 rel.type = true := by rwa [isGotX8664_iff]
        rw [patchOfX8664, if_neg hpc, if_neg hgot, OkX8664, if_neg hpc, if_neg hgot]
        exact ⟨⟨hbuf, patchQuad_fits (by omega)⟩, slotWrites_none hnot hdataMut, hsym, habs⟩
      · exact absurd hpatch (by simp)

theorem dataRelocs_loop {oc : ObjfileCtx} {l : ExecLayout} {size : Nat}
    (hrun : rels.foldlM (dataRelocStep oc l size) buf = some buf') (hlen : buf.length = size) :
    buf' = patches buf (rels.map (dataPatch oc l)) ∧
      ∀ p ∈ rels.map (dataPatch oc l), p.Fits size := by
  induction rels generalizing buf with
  | nil =>
    cases hrun
    exact ⟨rfl, fun p hp => absurd hp not_mem_nil⟩
  | cons rel rels ih =>
    rw [foldlM_cons] at hrun
    obtain ⟨mid, hstep, hrest⟩ := bind_eq_some_iff.mp hrun
    have hdoes : mid = applyPatch buf (dataPatch oc l rel) ∧ (dataPatch oc l rel).Fits size := by
      rw [dataRelocStep] at hstep
      obtain ⟨sym, hsym, hstep⟩ := bind_eq_some_iff.mp hstep
      obtain ⟨-, hstep⟩ := ite_none_left_eq_some.1 hstep
      obtain ⟨hin, hstep⟩ := ite_none_left_eq_some.1 hstep
      obtain ⟨-, hstep⟩ := ite_none_left_eq_some.1 hstep
      obtain ⟨target, htarget, hstep⟩ := bind_eq_some_iff.mp hstep
      obtain ⟨-, hbuf⟩ := writeU64Le_some hstep
      have hvalue : (oc.symbols[rel.symbolIdx.toNat]?).elim 0 (fun sym =>
          if sym.sectionId = 1 then l.codeVaddr + sym.offset.toNat
          else l.dataVaddr + sym.offset.toNat) = target := by
        rw [hsym, elim_some]
        rw [sectionAddr] at htarget
        split at htarget
        · rename_i hone
          rw [if_pos hone]
          exact Option.some.inj htarget
        · rename_i hone
          rw [if_neg hone]
          split at htarget
          · exact Option.some.inj htarget
          · exact absurd htarget (by simp)
      rw [dataPatch, hvalue]
      exact ⟨hbuf, patchQuad_fits (by omega)⟩
    obtain ⟨hmid, hfits⟩ := hdoes
    have hlen' : mid.length = size := by
      rw [hmid, length_applyPatch (by rw [hlen]; exact hfits), hlen]
    obtain ⟨hpatches, hallFit⟩ := ih hrest hlen'
    constructor
    · rw [hpatches, hmid]
      rfl
    · exact forall_mem_cons.2 ⟨hfits, hallFit⟩

theorem patchOfX8664_off (l : ExecLayout) (plan : GotPlan) (codeSize : Nat)
    (rel : ObjReloc) : (patchOfX8664 oc l plan codeSize rel).off = rel.offset.toNat := by
  simp only [patchOfX8664]
  split
  · rfl
  · split <;> rfl

theorem patchOfX8664_width {oc : ObjfileCtx} {l : ExecLayout} {plan : GotPlan} {codeSize : Nat}
    (hok : OkX8664 oc l plan codeSize rel) :
    (patchOfX8664 oc l plan codeSize rel).width = fieldWidth rel.type := by
  have hkind := hok.2
  simp only [patchOfX8664]
  split
  · rename_i hpc
    rcases hpc with h | h <;> rw [h] <;> rfl
  · rename_i hpc
    rw [if_neg hpc] at hkind
    split
    · rename_i hgot
      rw [hgot]
      rfl
    · rename_i hgot
      rw [if_neg hgot] at hkind
      rw [hkind]
      rfl

/-- The loops over text and data leave an image that makes up the file. -/
theorem StepDoes.written {isGot : UInt8 → Bool} {oc : ObjfileCtx}
    {l : ExecLayout} {plan : GotPlan} {code data dataMut : List UInt8}
    {patch : ObjReloc → Patch}
    {img : Image}
    (h : StepDoes code.length plan.dataRuntimeSize patch (slotWrites isGot oc l plan code.length)
      ok step) (eMachine k : Nat) (stub : List UInt8)
    (hl : l = execLayout stub.length code.length plan.dataRuntimeSize)
    (hplan : gotPlan isGot oc data.length = some plan) (hsmall : l.totalSize < 2 ^ 63)
    (hmachine : eMachine < 2 ^ 16) (hroom : k + 4 ≤ stub.length)
    (hoff : ∀ rel, (patch rel).off = rel.offset.toNat)
    (hwidth : ∀ rel, ok rel → (patch rel).width = fieldWidth rel.type)
    (htext : oc.relocs.foldlM step
      { codeMut := code, dataMut := dataStart data plan.dataRuntimeSize } = some img)
    (hdata : oc.dataRelocs.foldlM (dataRelocStep oc l plan.dataRuntimeSize) img.dataMut =
      some dataMut) :
    Written eMachine isGot oc l plan stub code data patch { img with dataMut := dataMut } k ∧
      ∀ rel ∈ oc.relocs, ok rel := by
  have hstart := length_dataStart (data_le_runtime hplan)
  obtain ⟨⟨hcode, hfits⟩, ⟨hslots, hinside⟩, hok⟩ := h.loop htext rfl hstart
  have hslotLen : img.dataMut.length = plan.dataRuntimeSize := by
    rw [hslots, length_writes (by rw [hstart]; exact hinside)]
    exact hstart
  obtain ⟨hpatched, hdataFits⟩ := dataRelocs_loop hdata hslotLen
  have himg : RelocatedImage isGot oc l plan code data patch { img with dataMut := dataMut } :=
    { planned := hplan
      codeMut := hcode
      codeFits := hfits
      dataMut := by rw [← hslots]; exact hpatched
      dataFits := hdataFits
      slotsInside := hinside }
  have hparts : FileParts eMachine l stub { img with dataMut := dataMut } code.length
      plan.dataRuntimeSize :=
    { layout := hl
      codeLength := himg.length_code
      dataLength := himg.length_data
      small := hsmall
      machine := hmachine }
  exact ⟨⟨himg, hparts, hroom, hoff, fun rel hrel => hwidth rel (hok rel hrel)⟩, hok⟩

theorem callRoom_x8664 (entrySymbol : CStr) :
    entryCallOff entrySymbol + 4 ≤ (startStubX8664 entrySymbol).length := by
  rw [entryCallOff, startStubX8664]
  split <;> decide

/-- What the writer has done when it returns a file. -/
theorem writeX8664_some {code data : List UInt8} {oc : ObjfileCtx}
    (h : writeElfExecutableX8664 code data oc entrySymbol = some file) :
    ∃ plan l entrySym img,
      Written 62 isGotX8664 oc l plan (startStubX8664 entrySymbol) code data
        (patchOfX8664 oc l plan code.length) img (entryCallOff entrySymbol) ∧
      (∀ rel ∈ oc.relocs, OkX8664 oc l plan code.length rel) ∧
      findEntry oc entrySymbol = some entrySym ∧
      InRel32 (l.entryVaddr + entryCallOff entrySymbol) (l.codeVaddr + entrySym.offset.toNat) ∧
      file = startedFile 62 l (startStubX8664 entrySymbol) img (entryCallOff entrySymbol)
        (fun _ => BitVec.ofInt 32 (((l.codeVaddr + entrySym.offset.toNat : Nat) : Int) -
          ((l.entryVaddr + entryCallOff entrySymbol : Nat) + 4))) := by
  rw [writeElfExecutableX8664] at h
  obtain ⟨-, h⟩ := ite_none_left_eq_some.1 h
  obtain ⟨plan, hplan, h⟩ := bind_eq_some_iff.mp h
  obtain ⟨entrySym, hentry, h⟩ := bind_eq_some_iff.mp h
  obtain ⟨-, h⟩ := ite_none_left_eq_some.1 h
  obtain ⟨hsmall, h⟩ := ite_none_left_eq_some.1 h
  obtain ⟨img, htext, h⟩ := bind_eq_some_iff.mp h
  obtain ⟨dataMut, hdata, h⟩ := bind_eq_some_iff.mp h
  obtain ⟨hwritten, hok⟩ := (stepDoes_x8664 oc _ plan code.length).written 62 _ _ rfl hplan
    (by simpa [allocates] using hsmall) (by decide) (callRoom_x8664 entrySymbol)
    (patchOfX8664_off oc _ plan code.length) (fun _ => patchOfX8664_width) htext hdata
  obtain ⟨-, hfile, hrange⟩ := patchRel32_some h
  exact ⟨plan, _, entrySym, _, hwritten, hok, hentry, hrange, hfile⟩

theorem findEntry_section {oc : ObjfileCtx} (h : findEntry oc entrySymbol = some sym) :
    sym.sectionId = 1 := by
  have hprop := find?_some h
  simp only [Bool.and_eq_true, beq_iff_eq] at hprop
  exact hprop.1.2

/-- An x86-64 executable is linked whatever the relocations. -/
theorem linked_x8664 {code data : List UInt8} {oc : ObjfileCtx} (hsep : FieldsSeparate data oc)
    (h : writeElfExecutableX8664 code data oc entrySymbol = some file) :
    Linked (startStubX8664 entrySymbol) code data oc entrySymbol (CallsX8664 entrySymbol)
      FieldX8664 isGotX8664 file := by
  obtain ⟨plan, l, entrySym, img, hwritten, hok, hentry, hrange, rfl⟩ := writeX8664_some h
  have hparts := hwritten.parts
  have hk := hwritten.room
  have hl := hparts.layout
  apply hwritten.linked
  · refine ⟨entrySym, hentry, _, ehdr_startedFile hparts hk, loaded_stub hparts hk, _,
      loaded_call hparts hk, ?_⟩
    have haddr : symbolAddr (startStubX8664 entrySymbol) code entrySym =
        l.codeVaddr + entrySym.offset.toNat := by
      rw [symbolAddr, if_pos (findEntry_section hentry), codeVaddr_eq hl]
    rw [haddr]
    exact rel32Target_ofInt hrange.1 hrange.2
  · intro rel hrel
    obtain ⟨⟨sym, hsym, htarget⟩, hkind⟩ := hok rel hrel
    have haddr := targetOf_eq hl htarget
    refine ⟨sym, hsym, ?_⟩
    rw [FieldX8664]
    by_cases hpc : rel.type = lrRelocX8664Pc32 ∨ rel.type = lrRelocX8664Plt32
    · rw [if_pos hpc] at hkind ⊢
      have hpatch : patchOfX8664 oc l plan code.length rel = rel32Patch rel.offset.toNat
          (l.codeVaddr + rel.offset.toNat)
          (targetOf oc l code.length plan.dataRuntimeSize rel) := by
        simp only [patchOfX8664, if_pos hpc]
      refine ⟨_, hwritten.loaded_field hsep hrel hpatch, ?_⟩
      rw [← codeVaddr_eq hl, ← haddr]
      exact rel32Target_ofInt hkind.1 hkind.2
    · rw [if_neg hpc] at hkind ⊢
      by_cases hgot : rel.type = lrRelocX8664Gotpcrel
      · rw [if_pos hgot] at hkind ⊢
        have hpatch : patchOfX8664 oc l plan code.length rel = rel32Patch rel.offset.toNat
            (l.codeVaddr + rel.offset.toNat)
            (l.dataVaddr + slotOf plan rel.symbolIdx.toNat) := by
          simp only [patchOfX8664, if_neg hpc, if_pos hgot]
        refine ⟨⟨_, hwritten.loaded_field hsep hrel hpatch, ?_⟩, ?_⟩
        · rw [← codeVaddr_eq hl, ← dataVaddr_eq hl]
          exact rel32Target_ofInt hkind.1 hkind.2
        · exact hwritten.loaded_slot hsep hrel (isGotX8664_iff.mpr hgot) htarget
      · rw [if_neg hgot] at hkind ⊢
        rw [if_pos hkind]
        have hpatch : patchOfX8664 oc l plan code.length rel = patchQuad rel.offset.toNat
            (fun _ => targetOf oc l code.length plan.dataRuntimeSize rel) := by
          simp only [patchOfX8664, if_neg hpc, if_neg hgot]
        have height : fieldWidth rel.type = 8 := by rw [hkind]; rfl
        have hfield := hwritten.image.field hwritten.off hwritten.width hsep hrel
        have hfit := (hwritten.image.codeFits _ (mem_map_of_mem hrel)).inside
        rw [hpatch] at hfit
        rw [hpatch, height] at hfield
        have hin : rel.offset.toNat + 8 ≤ code.length := hfit
        rw [loaded64, ← codeVaddr_eq hl, loaded_code hparts hk hin, hfield, map_some]
        simp only [patchQuad, leNat_leBytes]
        rw [haddr, Nat.mod_eq_of_lt (symbolAddr_lt hparts sym)]

def isGotAarch64 (type : UInt8) : Bool :=
  type == lrRelocArm64GotLoadPage21 || type == lrRelocArm64GotLoadPageoff12

theorem isGotAarch64_iff : isGotAarch64 type = true ↔
    type = lrRelocArm64GotLoadPage21 ∨ type = lrRelocArm64GotLoadPageoff12 := by
  rw [isGotAarch64, Bool.or_eq_true, beq_iff_eq, beq_iff_eq]

def branch26Patch (off place target : Nat) : Patch :=
  patchWord off (branch26Insert (((target : Int) - place).tdiv 4))

def page21Patch (off place target : Nat) : Patch :=
  patchWord off (fun word => adrpInsert word (BitVec.ofInt 32 (pagesBetween place target)))

def pageoff12Patch (off imm : Nat) : Patch :=
  patchWord off (fun word => imm12Insert word (BitVec.ofNat 32 imm))

def patchOfAarch64 (l : ExecLayout) (plan : GotPlan) (codeSize : Nat) (rel : ObjReloc) : Patch :=
  let off := rel.offset.toNat
  let target := targetOf oc l codeSize plan.dataRuntimeSize rel
  let slot := l.dataVaddr + slotOf plan rel.symbolIdx.toNat
  if rel.type = lrRelocArm64Branch26 then branch26Patch off (l.codeVaddr + off) target
  else if rel.type = lrRelocArm64Page21 then page21Patch off (l.codeVaddr + off) target
  else if rel.type = lrRelocArm64Pageoff12 then pageoff12Patch off (target % 4096)
  else if rel.type = lrRelocArm64GotLoadPage21 then page21Patch off (l.codeVaddr + off) slot
  else pageoff12Patch off (slot % 4096 / 8)

def InBranch26 (place target : Nat) : Prop :=
  -2 ^ 25 ≤ ((target : Int) - place).tdiv 4 ∧ ((target : Int) - place).tdiv 4 < 2 ^ 25

def InPage21 (place target : Nat) : Prop :=
  -2 ^ 20 ≤ pagesBetween place target ∧ pagesBetween place target < 2 ^ 20

def OkAarch64 (l : ExecLayout) (plan : GotPlan) (codeSize : Nat) (rel : ObjReloc) : Prop :=
  let place := l.codeVaddr + rel.offset.toNat
  let target := targetOf oc l codeSize plan.dataRuntimeSize rel
  let slot := l.dataVaddr + slotOf plan rel.symbolIdx.toNat
  (∃ sym, oc.symbols[rel.symbolIdx.toNat]? = some sym ∧
    relocTarget l codeSize plan.dataRuntimeSize sym = some target) ∧
  if rel.type = lrRelocArm64Branch26 then InBranch26 place target
  else if rel.type = lrRelocArm64Page21 then InPage21 place target
  else if rel.type = lrRelocArm64Pageoff12 then True
  else if rel.type = lrRelocArm64GotLoadPage21 then InPage21 place slot
  else rel.type = lrRelocArm64GotLoadPageoff12 ∧ slot % 4096 % 8 = 0

theorem not_isGotAarch64 (h : type = lrRelocArm64Branch26 ∨
    type = lrRelocArm64Page21 ∨ type = lrRelocArm64Pageoff12) : ¬ isGotAarch64 type = true := by
  rw [isGotAarch64_iff]
  rcases h with rfl | rfl | rfl <;> decide

theorem stepDoes_aarch64 (l : ExecLayout) (plan : GotPlan) (codeSize : Nat) :
    StepDoes codeSize plan.dataRuntimeSize (patchOfAarch64 oc l plan codeSize)
      (slotWrites isGotAarch64 oc l plan codeSize) (OkAarch64 oc l plan codeSize)
      (relocStep oc l codeSize plan.dataRuntimeSize (patchAarch64 plan l)) := by
  intro img rel img' hstep hcode hdata
  obtain ⟨hsym, -, hpatch⟩ := relocStep_some hstep
  rw [patchAarch64] at hpatch
  simp only [patchOfAarch64, OkAarch64]
  by_cases hbranch : rel.type = lrRelocArm64Branch26
  · rw [if_pos hbranch] at hpatch
    obtain ⟨hcodeMut, hdataMut⟩ := patchCode_some hpatch
    obtain ⟨hlen, hbuf, hrange⟩ := patchBranch26_some hcodeMut
    have hnot := not_isGotAarch64 (Or.inl hbranch)
    rw [if_pos hbranch, if_pos hbranch]
    exact ⟨⟨hbuf, patchWord_fits (by omega)⟩, slotWrites_none hnot hdataMut, hsym, hrange⟩
  · rw [if_neg hbranch] at hpatch
    rw [if_neg hbranch, if_neg hbranch]
    by_cases hpage : rel.type = lrRelocArm64Page21
    · rw [if_pos hpage] at hpatch
      obtain ⟨hcodeMut, hdataMut⟩ := patchCode_some hpatch
      obtain ⟨hlen, hbuf, hrange⟩ := patchPage21_some hcodeMut
      have hnot := not_isGotAarch64 (Or.inr (Or.inl hpage))
      rw [if_pos hpage, if_pos hpage]
      exact ⟨⟨hbuf, patchWord_fits (by omega)⟩, slotWrites_none hnot hdataMut, hsym, hrange⟩
    · rw [if_neg hpage] at hpatch
      rw [if_neg hpage, if_neg hpage]
      by_cases hpageoff : rel.type = lrRelocArm64Pageoff12
      · rw [if_pos hpageoff] at hpatch
        obtain ⟨hcodeMut, hdataMut⟩ := patchCode_some hpatch
        obtain ⟨hlen, hbuf, -⟩ := patchPageoff12_some hcodeMut
        have hnot := not_isGotAarch64 (Or.inr (Or.inr hpageoff))
        rw [if_pos hpageoff, if_pos hpageoff]
        exact ⟨⟨hbuf, patchWord_fits (by omega)⟩, slotWrites_none hnot hdataMut, hsym, trivial⟩
      · rw [if_neg hpageoff] at hpatch
        rw [if_neg hpageoff, if_neg hpageoff]
        by_cases hgot : rel.type = lrRelocArm64GotLoadPage21 ∨
            rel.type = lrRelocArm64GotLoadPageoff12
        · rw [if_pos hgot] at hpatch
          obtain ⟨slot, hslot, hpatch⟩ := bind_eq_some_iff.mp hpatch
          obtain ⟨data, hwrite, hpatch⟩ := bind_eq_some_iff.mp hpatch
          have hslotOf : slotOf plan rel.symbolIdx.toNat = slot := by
            rw [slotOf, hslot, getD_some]
          rw [← hslotOf] at hwrite hpatch
          have hslots := slotWrites_one (isGotAarch64_iff.mpr hgot) hdata hwrite
          by_cases hgotPage : rel.type = lrRelocArm64GotLoadPage21
          · rw [if_pos hgotPage] at hpatch
            obtain ⟨hcodeMut, hdataMut⟩ := patchCode_some hpatch
            obtain ⟨hlen, hbuf, hrange⟩ := patchPage21_some hcodeMut
            rw [if_pos hgotPage, if_pos hgotPage, hdataMut]
            exact ⟨⟨hbuf, patchWord_fits (by omega)⟩, hslots, hsym, hrange⟩
          · rw [if_neg hgotPage] at hpatch
            obtain ⟨hcodeMut, hdataMut⟩ := patchCode_some hpatch
            obtain ⟨hlen, hbuf, haligned⟩ := patchPageoff12_some hcodeMut
            rw [if_neg hgotPage, if_neg hgotPage, hdataMut]
            exact ⟨⟨hbuf, patchWord_fits (by omega)⟩, hslots, hsym, hgot.resolve_left hgotPage,
              haligned rfl⟩
        · rw [if_neg hgot] at hpatch
          exact absurd hpatch (by simp)

theorem patchOfAarch64_off (l : ExecLayout) (plan : GotPlan) (codeSize : Nat)
    (rel : ObjReloc) : (patchOfAarch64 oc l plan codeSize rel).off = rel.offset.toNat := by
  simp only [patchOfAarch64]
  repeat' split
  all_goals rfl

theorem patchOfAarch64_width {oc : ObjfileCtx} {l : ExecLayout} {plan : GotPlan} {codeSize : Nat}
    (hok : OkAarch64 oc l plan codeSize rel) :
    (patchOfAarch64 oc l plan codeSize rel).width = fieldWidth rel.type := by
  have hne : rel.type ≠ lrRelocX866464 := by
    have hkind := hok.2
    intro h
    rw [h] at hkind
    simp only [show ¬ lrRelocX866464 = lrRelocArm64Branch26 by decide,
      show ¬ lrRelocX866464 = lrRelocArm64Page21 by decide,
      show ¬ lrRelocX866464 = lrRelocArm64Pageoff12 by decide,
      show ¬ lrRelocX866464 = lrRelocArm64GotLoadPage21 by decide,
      show ¬ lrRelocX866464 = lrRelocArm64GotLoadPageoff12 by decide, if_false, false_and] at hkind
  rw [fieldWidth, if_neg hne]
  simp only [patchOfAarch64]
  repeat' split
  all_goals rfl

/-- What the writer has done when it returns a file. -/
theorem writeAarch64_some {code data : List UInt8} {oc : ObjfileCtx}
    (h : writeElfExecutableAarch64 code data oc entrySymbol = some file) :
    ∃ plan l entrySym img,
      Written 183 isGotAarch64 oc l plan startStubAarch64 code data
        (patchOfAarch64 oc l plan code.length) img 0 ∧
      (∀ rel ∈ oc.relocs, OkAarch64 oc l plan code.length rel) ∧
      findEntry oc entrySymbol = some entrySym ∧
      InBranch26 l.entryVaddr (l.codeVaddr + entrySym.offset.toNat) ∧
      file = startedFile 183 l startStubAarch64 img 0
        (branch26Insert ((((l.codeVaddr + entrySym.offset.toNat : Nat) : Int) -
          (l.entryVaddr : Nat)).tdiv 4)) := by
  rw [writeElfExecutableAarch64] at h
  obtain ⟨-, h⟩ := ite_none_left_eq_some.1 h
  obtain ⟨hnodata, h⟩ := ite_none_left_eq_some.1 h
  obtain ⟨plan, hplan, h⟩ := bind_eq_some_iff.mp h
  obtain ⟨entrySym, hentry, h⟩ := bind_eq_some_iff.mp h
  obtain ⟨-, h⟩ := ite_none_left_eq_some.1 h
  obtain ⟨hsmall, h⟩ := ite_none_left_eq_some.1 h
  obtain ⟨img, htext, h⟩ := bind_eq_some_iff.mp h
  have hempty : oc.dataRelocs = [] := by simpa using hnodata
  obtain ⟨hwritten, hok⟩ := (stepDoes_aarch64 oc _ plan code.length).written 183 0
    startStubAarch64 rfl hplan (by simpa [allocates] using hsmall) (by decide) (by decide)
    (patchOfAarch64_off oc _ plan code.length)
    (fun _ => patchOfAarch64_width) htext (by rw [hempty]; rfl)
  obtain ⟨-, hfile, hrange⟩ := patchBranch26_some h
  exact ⟨plan, _, entrySym, _, hwritten, hok, hentry, hrange, hfile⟩

/-- Every branch goes to a whole number of instructions from its place. -/
def BranchesAligned (entrySymbol : CStr) : Prop :=
  (∀ rel ∈ oc.relocs, rel.type = lrRelocArm64Branch26 →
    ∀ sym, oc.symbols[rel.symbolIdx.toNat]? = some sym →
      sym.offset.toNat % 4 = rel.offset.toNat % 4) ∧
  ∀ sym, findEntry oc entrySymbol = some sym → sym.offset.toNat % 4 = 0

end

/-- The division by four rounds, so the branch is right only without a remainder. -/
theorem branch26Target_insert (hrange : InBranch26 place target) (word : BitVec 32) :
    branch26Target place (branch26Insert (((target : Int) - place).tdiv 4) word) = target ↔
      ((target : Int) - place) % 4 = 0 := by
  have hsplit := Int.mul_tdiv_add_tmod ((target : Int) - place) 4
  have hzero : ((target : Int) - place).tmod 4 = 0 ↔ (4 : Int) ∣ (target : Int) - place :=
    Int.dvd_iff_tmod_eq_zero.symm
  rw [branch26Target, branch26Insert, branch26Imm_insert word hrange.1 hrange.2]
  omega

theorem adrpTarget_insert (hrange : InPage21 place target) (word : BitVec 32) :
    adrpTarget place (adrpInsert word (BitVec.ofInt 32 (pagesBetween place target))) =
      pageOf target := by
  rw [adrpTarget, adrpImm_insert word hrange.1 hrange.2, pagesBetween, pageOf, pageOf]
  omega

theorem codeBase_aarch64 : codeBase startStubAarch64 = 0x40008C := by decide

theorem dataBase_mod (stub code : List UInt8) : dataBase stub code % 16 = 0 := by
  have hpad : padUp (objAlignUp 120 16 + stub.length + code.length) 16 % 16 = 0 := padUp_mod _ 4
  rw [dataBase, objAlignUp, imageBase]
  omega

theorem symbolAddr_mod (code : List UInt8) (sym : ObjSymbol) :
    symbolAddr startStubAarch64 code sym % 4 = sym.offset.toNat % 4 := by
  have hcode := codeBase_aarch64
  have hdata := dataBase_mod startStubAarch64 code
  rw [symbolAddr]
  split <;> omega

section Aarch64
variable {code data : List UInt8} {oc : ObjfileCtx} {l : ExecLayout} {plan : GotPlan} {img : Image}
  {f : BitVec 32 → BitVec 32}

section
variable (hsep : FieldsSeparate data oc)
  (hwritten : Written 183 isGotAarch64 oc l plan startStubAarch64 code data
    (patchOfAarch64 oc l plan code.length) img 0)
  (hok : ∀ rel ∈ oc.relocs, OkAarch64 oc l plan code.length rel) (hrel : rel ∈ oc.relocs)
include hsep hwritten hok hrel

/-- Every relocation but a branch is right as it is; a branch is right if it is aligned. -/
theorem field_aarch64 (hsym : oc.symbols[rel.symbolIdx.toNat]? = some sym)
    (haligned : rel.type = lrRelocArm64Branch26 → sym.offset.toNat % 4 = rel.offset.toNat % 4) :
    FieldAarch64 (startedFile 183 l startStubAarch64 img 0 f) rel.type
      (codeBase startStubAarch64 + rel.offset.toNat) (symbolAddr startStubAarch64 code sym)
      (dataBase startStubAarch64 code + slotOf plan rel.symbolIdx.toNat) := by
  obtain ⟨⟨sym', hsym', htarget⟩, hkind⟩ := hok rel hrel
  obtain rfl : sym = sym' := Option.some.inj (hsym.symm.trans hsym')
  have hl := hwritten.parts.layout
  have haddr := targetOf_eq hl htarget
  have hslot := fun hgot => hwritten.loaded_slot (f := f) hsep hrel hgot htarget
  have hword : ∀ g off, patchOfAarch64 oc l plan code.length rel = patchWord off g →
      loaded32 (startedFile 183 l startStubAarch64 img 0 f)
        (codeBase startStubAarch64 + rel.offset.toNat) =
        some (g (wordOf (bytesAt code rel.offset.toNat 4))) :=
    fun g off hpatch => hwritten.loaded_field hsep hrel hpatch
  have hmod := symbolAddr_mod code sym
  have hbase := codeBase_aarch64
  rw [haddr, codeVaddr_eq hl, dataVaddr_eq hl] at hkind
  simp only [patchOfAarch64] at hword
  rw [haddr, codeVaddr_eq hl, dataVaddr_eq hl] at hword
  rw [FieldAarch64]
  by_cases hbranch : rel.type = lrRelocArm64Branch26
  · rw [if_pos hbranch] at hkind hword ⊢
    refine ⟨_, hword _ _ rfl, ?_⟩
    apply (branch26Target_insert hkind _).mpr
    have := haligned hbranch
    omega
  · rw [if_neg hbranch] at hkind hword ⊢
    by_cases hpage : rel.type = lrRelocArm64Page21
    · rw [if_pos hpage] at hkind hword ⊢
      exact ⟨_, hword _ _ rfl, adrpTarget_insert hkind _⟩
    · rw [if_neg hpage] at hkind hword ⊢
      by_cases hpageoff : rel.type = lrRelocArm64Pageoff12
      · rw [if_pos hpageoff] at hword ⊢
        exact ⟨_, hword _ _ rfl, imm12_insert _ (Nat.mod_lt _ (by decide))⟩
      · rw [if_neg hpageoff] at hkind hword ⊢
        by_cases hgotPage : rel.type = lrRelocArm64GotLoadPage21
        · rw [if_pos hgotPage] at hkind hword ⊢
          exact ⟨⟨_, hword _ _ rfl, adrpTarget_insert hkind _⟩,
            hslot (isGotAarch64_iff.mpr (Or.inl hgotPage))⟩
        · rw [if_neg hgotPage] at hkind hword ⊢
          obtain ⟨hgotOff, height⟩ := hkind
          rw [if_pos hgotOff]
          refine ⟨⟨_, hword _ _ rfl, ?_⟩, hslot (isGotAarch64_iff.mpr (Or.inr hgotOff))⟩
          rw [imm12_insert _ (by omega)]
          omega

/-- Conversely, a branch that goes to its symbol is aligned. -/
theorem aligned_of_field (hbranch : rel.type = lrRelocArm64Branch26)
    (hsym : oc.symbols[rel.symbolIdx.toNat]? = some sym) {slot : Nat}
    (hfield : FieldAarch64 (startedFile 183 l startStubAarch64 img 0 f) rel.type
      (codeBase startStubAarch64 + rel.offset.toNat) (symbolAddr startStubAarch64 code sym) slot) :
    sym.offset.toNat % 4 = rel.offset.toNat % 4 := by
  obtain ⟨⟨sym', hsym', htarget⟩, hkind⟩ := hok rel hrel
  obtain rfl : sym = sym' := Option.some.inj (hsym.symm.trans hsym')
  have hl := hwritten.parts.layout
  have haddr := targetOf_eq hl htarget
  have hmod := symbolAddr_mod code sym
  have hbase := codeBase_aarch64
  rw [FieldAarch64, if_pos hbranch] at hfield
  obtain ⟨word, hword, htarget'⟩ := hfield
  have hpatch : patchOfAarch64 oc l plan code.length rel = branch26Patch rel.offset.toNat
      (l.codeVaddr + rel.offset.toNat) (targetOf oc l code.length plan.dataRuntimeSize rel) := by
    simp only [patchOfAarch64, if_pos hbranch]
  have hread := hwritten.loaded_field (f := f) hsep hrel hpatch
  rw [if_pos hbranch, haddr, codeVaddr_eq hl] at hkind
  rw [haddr, codeVaddr_eq hl] at hread
  obtain rfl := Option.some.inj (hword.symm.trans hread)
  have hfour := (branch26Target_insert hkind _).mp htarget'
  omega

end

end Aarch64

/-- An A64 executable is linked if and only if its branches are aligned. -/
theorem linked_aarch64_iff {code data : List UInt8} {oc : ObjfileCtx}
    (hsep : FieldsSeparate data oc)
    (h : writeElfExecutableAarch64 code data oc entrySymbol = some file) :
    Linked startStubAarch64 code data oc entrySymbol CallsAarch64 FieldAarch64 isGotAarch64 file ↔
      BranchesAligned oc entrySymbol := by
  obtain ⟨plan, l, entrySym, img, hwritten, hok, hentry, hrange, rfl⟩ := writeAarch64_some h
  have hparts := hwritten.parts
  have hk := hwritten.room
  have hl := hparts.layout
  have hbase := codeBase_aarch64
  have hstart : l.entryVaddr = 0x400080 := by
    rw [ExecLayout.entryVaddr, hparts.offsets.1]
    rfl
  have haddr : symbolAddr startStubAarch64 code entrySym =
      l.codeVaddr + entrySym.offset.toNat := by
    rw [symbolAddr, if_pos (findEntry_section hentry), codeVaddr_eq hl]
  have hcode := codeVaddr_eq hl
  have hcall := loaded_call (f := branch26Insert ((((l.codeVaddr + entrySym.offset.toNat : Nat) :
    Int) - (l.entryVaddr : Nat)).tdiv 4)) hparts hk
  rw [Nat.add_zero] at hcall
  constructor
  · intro hlinked
    constructor
    · intro rel hrel hbranch sym hsym
      obtain ⟨slot, hfields, -, -⟩ := hlinked.fields
      obtain ⟨sym', hsym', hfield⟩ := hfields rel hrel
      obtain rfl : sym = sym' := Option.some.inj (hsym.symm.trans hsym')
      exact aligned_of_field hsep hwritten hok hrel hbranch hsym hfield
    · intro sym hsym
      obtain ⟨sym', hsym', e, he, word, hword, -, htarget⟩ := hlinked.entry
      obtain rfl : sym = sym' := Option.some.inj (hsym.symm.trans hsym')
      obtain rfl : sym = entrySym := Option.some.inj (hsym.symm.trans hentry)
      obtain rfl := Option.some.inj (he.symm.trans (ehdr_startedFile hparts hk))
      obtain rfl := Option.some.inj (hword.symm.trans hcall)
      rw [haddr] at htarget
      have hfour := (branch26Target_insert hrange _).mp htarget
      omega
  · rintro ⟨haligned, hentryAligned⟩
    apply hwritten.linked
    · refine ⟨entrySym, hentry, _, ehdr_startedFile hparts hk, _, hcall, ?_, ?_⟩
      · rw [branch26Insert, branch26_rest]
        decide
      · rw [haddr]
        apply (branch26Target_insert hrange _).mpr
        have := hentryAligned entrySym hentry
        omega
    · intro rel hrel
      obtain ⟨⟨sym, hsym, -⟩, -⟩ := hok rel hrel
      exact ⟨sym, hsym, field_aarch64 hsep hwritten hok hrel hsym
        (fun hbranch => haligned rel hrel hbranch sym hsym)⟩

def jalPatch (oc : ObjfileCtx) (l : ExecLayout) (rel : ObjReloc) : Patch :=
  patchWord rel.offset.toNat (fun word => jalInsert word (BitVec.ofInt 32
    (((l.codeVaddr + ((oc.symbols[rel.symbolIdx.toNat]?).elim 0 (fun sym => sym.offset.toNat)) :
      Nat) : Int) - ((l.codeVaddr + rel.offset.toNat : Nat) : Int))))

def isJal (rel : ObjReloc) : Bool := rel.type == lrRelocRiscv64Jal

def InJal (place target : Nat) : Prop :=
  ((target : Int) - place) % 2 = 0 ∧ -2 ^ 20 ≤ (target : Int) - place ∧
    (target : Int) - place < 2 ^ 20

def OkRiscv64 (oc : ObjfileCtx) (l : ExecLayout) (rel : ObjReloc) : Prop :=
  ∃ sym, oc.symbols[rel.symbolIdx.toNat]? = some sym ∧ sym.sectionId = 1 ∧
    InJal (l.codeVaddr + rel.offset.toNat) (l.codeVaddr + sym.offset.toNat)

theorem riscvRelocs_loop {oc : ObjfileCtx} {l : ExecLayout} {size : Nat}
    (hrun : rels.foldlM (riscvRelocStep oc l) buf = some buf') (hlen : buf.length = size) :
    buf' = patches buf ((rels.filter isJal).map (jalPatch oc l)) ∧
      (∀ p ∈ (rels.filter isJal).map (jalPatch oc l), p.Fits size) ∧
      ∀ rel ∈ rels, rel.type = lrRelocRiscv64Jal → OkRiscv64 oc l rel := by
  induction rels generalizing buf with
  | nil =>
    cases hrun
    exact ⟨rfl, fun p hp => absurd hp not_mem_nil, fun rel hrel => absurd hrel not_mem_nil⟩
  | cons rel rels ih =>
    rw [foldlM_cons] at hrun
    obtain ⟨mid, hstep, hrest⟩ := bind_eq_some_iff.mp hrun
    rw [riscvRelocStep] at hstep
    by_cases hjal : rel.type = lrRelocRiscv64Jal
    · rw [if_neg (by simpa using hjal)] at hstep
      have hkeep : isJal rel = true := by rw [isJal, beq_iff_eq, hjal]
      obtain ⟨sym, hsym, hstep⟩ := bind_eq_some_iff.mp hstep
      obtain ⟨hsection, hstep⟩ := ite_none_left_eq_some.1 hstep
      obtain ⟨hin, hmid, hrange⟩ := patchJal_some hstep
      have hpatch : mid = applyPatch buf (jalPatch oc l rel) := by
        rw [jalPatch, hsym]
        exact hmid
      have hfits : (jalPatch oc l rel).Fits size := patchWord_fits (by omega)
      have hlen' : mid.length = size := by
        rw [hpatch, length_applyPatch (by rw [hlen]; exact hfits), hlen]
      obtain ⟨hpatches, hallFit, hallOk⟩ := ih hrest hlen'
      rw [filter_cons_of_pos hkeep]
      refine ⟨?_, ?_, ?_⟩
      · rw [hpatches, hpatch]
        rfl
      · exact forall_mem_cons.2 ⟨hfits, hallFit⟩
      · intro r hr hrjal
        rcases mem_cons.mp hr with rfl | hr
        · simp only [Bool.or_eq_true, Bool.not_eq_true', bne_iff_ne, not_or] at hsection
          exact ⟨sym, hsym, by simpa using hsection.2, hrange⟩
        · exact hallOk r hr hrjal
    · rw [if_pos hjal] at hstep
      cases hstep
      have hdrop : ¬ isJal rel = true := by rwa [isJal, beq_iff_eq]
      obtain ⟨hpatches, hallFit, hallOk⟩ := ih hrest hlen
      rw [filter_cons_of_neg hdrop]
      refine ⟨hpatches, hallFit, ?_⟩
      intro r hr hrjal
      rcases mem_cons.mp hr with rfl | hr
      · exact absurd hrjal hjal
      · exact hallOk r hr hrjal

/-- What the writer has done when it returns a file. -/
theorem writeRiscv64_some {code data : List UInt8} {oc : ObjfileCtx}
    (h : writeElfExecutableRiscv64 code data oc entrySymbol = some file) :
    ∃ l entrySym codeMut,
      codeMut = patches code ((oc.relocs.filter isJal).map (jalPatch oc l)) ∧
      (∀ p ∈ (oc.relocs.filter isJal).map (jalPatch oc l), p.Fits code.length) ∧
      (∀ rel ∈ oc.relocs, rel.type = lrRelocRiscv64Jal → OkRiscv64 oc l rel) ∧
      FileParts 243 l startStubRiscv64 { codeMut := codeMut, dataMut := data } code.length
        data.length ∧
      findEntry oc entrySymbol = some entrySym ∧ oc.dataRelocs = [] ∧
      InJal l.entryVaddr (l.codeVaddr + entrySym.offset.toNat) ∧
      file = startedFile 243 l startStubRiscv64 { codeMut := codeMut, dataMut := data } 0
        (fun word => jalInsert word (BitVec.ofInt 32
          (((l.codeVaddr + entrySym.offset.toNat : Nat) : Int) - (l.entryVaddr : Nat)))) := by
  rw [writeElfExecutableRiscv64] at h
  obtain ⟨-, h⟩ := ite_none_left_eq_some.1 h
  obtain ⟨hnodata, h⟩ := ite_none_left_eq_some.1 h
  obtain ⟨entrySym, hentry, h⟩ := bind_eq_some_iff.mp h
  obtain ⟨-, h⟩ := ite_none_left_eq_some.1 h
  obtain ⟨hsmall, h⟩ := ite_none_left_eq_some.1 h
  obtain ⟨codeMut, htext, h⟩ := bind_eq_some_iff.mp h
  obtain ⟨hcode, hfits, hok⟩ := riscvRelocs_loop htext rfl
  have hparts : FileParts 243
      (execLayout startStubRiscv64.length code.length data.length) startStubRiscv64
      { codeMut := codeMut, dataMut := data } code.length data.length :=
    { layout := rfl
      codeLength := by rw [hcode, length_patches hfits]
      dataLength := rfl
      small := by simpa [allocates] using hsmall
      machine := by decide }
  obtain ⟨-, hfile, hrange⟩ := patchJal_some h
  exact ⟨_, entrySym, codeMut, hcode, hfits, hok, hparts, hentry, by simpa using hnodata,
    hrange, hfile⟩

theorem jalTarget_insert (hrange : InJal place target) (word : BitVec 32) :
    jalTarget place (jalInsert word (BitVec.ofInt 32 ((target : Int) - place))) = target := by
  rw [jalTarget, jalImm_insert word hrange.1 hrange.2.1 hrange.2.2]
  omega

theorem jal_word {code data : List UInt8} {oc : ObjfileCtx} {l : ExecLayout}
    (hsep : FieldsSeparate data oc)
    (hfits : ∀ p ∈ (oc.relocs.filter isJal).map (jalPatch oc l), p.Fits code.length)
    (hrel : rel ∈ oc.relocs) (hjal : isJal rel = true) :
    bytesAt (patches code ((oc.relocs.filter isJal).map (jalPatch oc l))) rel.offset.toNat 4 =
      (jalPatch oc l rel).change (bytesAt code rel.offset.toNat 4) := by
  have hwidth : ∀ r : ObjReloc, isJal r = true → fieldWidth r.type = 4 := by
    intro r hr
    rw [isJal, beq_iff_eq] at hr
    rw [hr]
    rfl
  have hapart : ((oc.relocs.filter isJal).map (jalPatch oc l)).Pairwise
      (fun p q => Apart p.off p.width q.off q.width) := by
    apply pairwise_map.mpr
    apply (hsep.text.filter isJal).imp_of_mem
    intro r s hr hs hrs
    rw [hwidth r (mem_filter.mp hr).2, hwidth s (mem_filter.mp hs).2] at hrs
    exact hrs
  exact bytesAt_patches hfits hapart
    (mem_map_of_mem (mem_filter.mpr ⟨hrel, hjal⟩))

/-- An RV64 executable is linked if and only if every relocation is one the writer knows. -/
theorem linked_riscv64_iff {code data : List UInt8} {oc : ObjfileCtx}
    (hsep : FieldsSeparate data oc)
    (h : writeElfExecutableRiscv64 code data oc entrySymbol = some file) :
    Linked startStubRiscv64 code data oc entrySymbol CallsRiscv64 FieldRiscv64 (fun _ => false)
      file ↔ ∀ rel ∈ oc.relocs, rel.type = lrRelocRiscv64Jal := by
  obtain ⟨l, entrySym, codeMut, hcode, hfits, hok, hparts, hentry, hnodata, hrange, rfl⟩ :=
    writeRiscv64_some h
  have hk : 0 + 4 ≤ startStubRiscv64.length := by decide
  have hbase : l.codeVaddr = codeBase startStubRiscv64 := by
    rw [hparts.layout]
    rfl
  have hdataBase : l.dataVaddr = dataBase startStubRiscv64 code := by
    rw [hparts.layout]
    rfl
  constructor
  · intro hlinked rel hrel
    obtain ⟨slot, hfields, -, -⟩ := hlinked.fields
    obtain ⟨sym, -, hfield⟩ := hfields rel hrel
    rw [FieldRiscv64] at hfield
    by_contra hother
    rw [if_neg hother] at hfield
    exact hfield
  · intro hall
    have hcall := loaded_call (f := fun word => jalInsert word (BitVec.ofInt 32
      (((l.codeVaddr + entrySym.offset.toNat : Nat) : Int) - (l.entryVaddr : Nat)))) hparts hk
    rw [Nat.add_zero] at hcall
    have hisJal : ∀ rel ∈ oc.relocs, isJal rel = true := by
      intro rel hrel
      rw [isJal, beq_iff_eq, hall rel hrel]
    constructor
    case entry =>
      refine ⟨entrySym, hentry, _, ehdr_startedFile hparts hk, _, hcall, ?_, ?_⟩
      · rw [jal_rest]
        decide
      · rw [symbolAddr, if_pos (findEntry_section hentry), ← hbase]
        exact jalTarget_insert hrange _
    case fields =>
      refine ⟨fun _ => 0, ?_, ?_, ?_⟩
      · intro rel hrel
        obtain ⟨sym, hsym, hone, hjalRange⟩ := hok rel hrel (hall rel hrel)
        refine ⟨sym, hsym, ?_⟩
        have hfit := hfits _ (mem_map_of_mem (mem_filter.mpr ⟨hrel, hisJal rel hrel⟩))
        have hin : rel.offset.toNat + 4 ≤ code.length := hfit.inside
        rw [FieldRiscv64, if_pos (hall rel hrel), symbolAddr, if_pos hone, ← hbase]
        refine ⟨_, ?_, jalTarget_insert hjalRange (wordOf (bytesAt code rel.offset.toNat 4))⟩
        rw [loaded32, loaded_code hparts hk hin, hcode, jal_word hsep hfits hrel (hisJal rel hrel)]
        simp only [jalPatch, patchWord, hsym, elim_some, map_some, wordOf_leBytes]
      · exact fun rel _ hgot => absurd hgot (by simp)
      · exact fun rel _ hgot => absurd hgot (by simp)
    case codeKept =>
      intro i hi hfree
      have hbyte : codeMut[i]? = some code[i] := by
        rw [hcode, getElem?_patches_of_apart hfits, getElem?_eq_getElem hi]
        intro p hp
        obtain ⟨rel, hrel, rfl⟩ := mem_map.mp hp
        have hmem := (mem_filter.mp hrel).1
        have hapart := hfree rel hmem
        rw [hall rel hmem] at hapart
        exact hapart
      rw [← hbase, loaded_code hparts hk (by omega), bytesAt_one hbyte]
    case dataKept =>
      intro i hi _
      rw [← hdataBase, loaded_data hparts hk (by omega), bytesAt_one (getElem?_eq_getElem hi)]

/-- Static executables are linked: always on x86-64, on A64 if the branches are aligned,
on RV64 if there is no relocation of another kind. -/
theorem static_executables_linked_iff (code data : List UInt8) (oc : ObjfileCtx)
    (entrySymbol : CStr) (hsep : FieldsSeparate data oc) :
    (∀ file, writeElfExecutableX8664 code data oc entrySymbol = some file →
      Linked (startStubX8664 entrySymbol) code data oc entrySymbol (CallsX8664 entrySymbol)
        FieldX8664 isGotX8664 file) ∧
    (∀ file, writeElfExecutableAarch64 code data oc entrySymbol = some file →
      (Linked startStubAarch64 code data oc entrySymbol CallsAarch64 FieldAarch64 isGotAarch64
        file ↔ BranchesAligned oc entrySymbol)) ∧
    (∀ file, writeElfExecutableRiscv64 code data oc entrySymbol = some file →
      (Linked startStubRiscv64 code data oc entrySymbol CallsRiscv64 FieldRiscv64
        (fun _ => false) file ↔ ∀ rel ∈ oc.relocs, rel.type = lrRelocRiscv64Jal)) :=
  ⟨fun _ h => linked_x8664 hsep h, fun _ h => linked_aarch64_iff hsep h,
    fun _ h => linked_riscv64_iff hsep h⟩

/-- `main` calls `f`, which stands behind it. -/
def callContext (type : UInt8) : ObjfileCtx :=
  { relocs := [⟨0, 1, type⟩]
    dataRelocs := []
    symbols :=
      [{ name := mainName, hash := 0, offset := 0, sectionId := 1
         isDefined := true, isLocal := false, isWeak := false },
        { name := [0x66], hash := 0, offset := 8, sectionId := 1
          isDefined := true, isLocal := false, isWeak := false }] }

theorem callContext_separate (type : UInt8) : FieldsSeparate [] (callContext type) := by
  constructor
  · exact pairwise_singleton _ _
  · exact List.Pairwise.nil
  · exact fun r hr => absurd hr not_mem_nil

/-- `jal ra, 0; ret; ret` -/
def riscvCall : List UInt8 :=
  [0xEF, 0x00, 0x00, 0x00, 0x67, 0x80, 0x00, 0x00, 0x67, 0x80, 0x00, 0x00]

theorem static_executables_linked_sample :
    ∃ file, writeElfExecutableRiscv64 riscvCall [] (callContext lrRelocRiscv64Jal) mainName =
        some file ∧
      Linked startStubRiscv64 riscvCall [] (callContext lrRelocRiscv64Jal) mainName CallsRiscv64
        FieldRiscv64 (fun _ => false) file := by
  obtain ⟨file, hfile⟩ : ∃ file, writeElfExecutableRiscv64 riscvCall []
      (callContext lrRelocRiscv64Jal) mainName = some file :=
    isSome_iff_exists.mp (by decide +kernel)
  have hiff := (static_executables_linked_iff riscvCall [] (callContext lrRelocRiscv64Jal) mainName
    (callContext_separate lrRelocRiscv64Jal)).2.2 file hfile
  exact ⟨file, hfile, hiff.mpr (by decide)⟩

/-- An RV64 program with a relocation of another kind is written without it. -/
theorem unknown_relocation_passed_over :
    FieldsSeparate [] (callContext lrRelocX8664Pc32) ∧
      ∃ file, writeElfExecutableRiscv64 riscvCall [] (callContext lrRelocX8664Pc32) mainName =
          some file ∧
        ¬ Linked startStubRiscv64 riscvCall [] (callContext lrRelocX8664Pc32) mainName
          CallsRiscv64 FieldRiscv64 (fun _ => false) file := by
  obtain ⟨file, hfile⟩ : ∃ file, writeElfExecutableRiscv64 riscvCall []
      (callContext lrRelocX8664Pc32) mainName = some file :=
    isSome_iff_exists.mp (by decide +kernel)
  have hsep := callContext_separate lrRelocX8664Pc32
  refine ⟨hsep, file, hfile, ?_⟩
  rw [linked_riscv64_iff hsep hfile]
  decide

end Liric.Guarantees.ElfExecutable
