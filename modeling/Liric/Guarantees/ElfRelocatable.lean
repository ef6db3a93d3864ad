import Liric.Lib.Elf64
import Liric.Source.Object.ElfRelocatable

/-!
# ELF objects say what the context says

The parts of the file stand one behind the other, so each is found again where the
headers say. The order of the symbols is a permutation that puts the local
definitions first, and the relocations go through its inverse.
-/
namespace Liric.Guarantees.ElfRelocatable
open Lib Lib.Elf64 Source.Object List
open Nat (mod_eq_of_lt)
open Source.Ir (CStr)

variable {syms : List ObjSymbol} {i : Nat} {s : CStr × Shdr}

def dotText : CStr := chars ['.', 't', 'e', 'x', 't']
def dotData : CStr := chars ['.', 'd', 'a', 't', 'a']
def dotRelaText : CStr := chars ['.', 'r', 'e', 'l', 'a', '.', 't', 'e', 'x', 't']
def dotRelaData : CStr := chars ['.', 'r', 'e', 'l', 'a', '.', 'd', 'a', 't', 'a']
def dotSymtab : CStr := chars ['.', 's', 'y', 'm', 't', 'a', 'b']

/-- A symbol of the context as a linker should see it. -/
def expectedSymbol (sym : ObjSymbol) : SymbolView :=
  { name := sym.name
    bind := if sym.isDefined && sym.isLocal then 0 else if sym.isWeak then 2 else 1
    inSection :=
      if sym.isDefined then some (if sym.sectionId = 1 then dotText else dotData) else none
    value := if sym.isDefined then sym.offset.toNat else 0 }

/-- A relocation of the context as a linker should see it. -/
def expectedRela (relocMapper : UInt8 → RelocMapped) (index : Nat → Nat) (r : ObjReloc) : Rela :=
  { offset := r.offset.toNat
    type := (relocMapper r.type).nativeType.toNat
    sym := index r.symbolIdx.toNat
    addend := (relocMapper r.type).addend.toNat }

/-- The named section is a table of exactly the relocations listed. -/
def RelocationsAre (o : Object) (file : List UInt8) (name : CStr)
    (relocMapper : UInt8 → RelocMapped) (index : Nat → Nat) (relocs : List ObjReloc) : Prop :=
  ∃ sh, o.named name = some sh ∧ sh.type = 4 ∧ sh.size = relocs.length * 24 ∧
    ∀ i (h : i < relocs.length),
      relaAt (contents file sh) i = some (expectedRela relocMapper index relocs[i])

/-- The named section holds exactly the bytes. -/
def ContentsAre (o : Object) (file : List UInt8) (name : CStr) (bytes : List UInt8) : Prop :=
  ∃ sh, o.named name = some sh ∧ sh.type = 1 ∧ contents file sh = bytes

/-- What the object file says, with `index` the place of each symbol in `.symtab`. -/
structure Describes (code data : List UInt8) (oc : ObjfileCtx) (eMachine : BitVec 16)
    (relocMapper : UInt8 → RelocMapped) (file : List UInt8) (o : Object) (symtab : Shdr)
    (index : Nat → Nat) : Prop where
  magic : o.header.magic = [0x7F, 0x45, 0x4C, 0x46]
  kind : o.header.fileClass = 2 ∧ o.header.encoding = 1 ∧ o.header.type = 1
  machine : o.header.machine = eMachine.toNat
  codeBytes : ContentsAre o file dotText code
  dataBytes : if data = [] then o.named dotData = none else ContentsAre o file dotData data
  relaText : RelocationsAre o file dotRelaText relocMapper index oc.relocs
  relaData : if oc.dataRelocs = [] then o.named dotRelaData = none
    else RelocationsAre o file dotRelaData relocMapper index oc.dataRelocs
  table : o.named dotSymtab = some symtab ∧ symtab.type = 2
  symbol : ∀ i (h : i < oc.symbols.length),
    o.symbol file symtab (index i) = some (expectedSymbol oc.symbols[i])
  oneEach : ∀ i < oc.symbols.length, ∀ j < oc.symbols.length, index i = index j → i = j
  noOther : ∀ k, 1 + (if data = [] then 1 else 2) ≤ k → k < symtab.size / 24 →
    ∃ i < oc.symbols.length, index i = k
  inTable : ∀ i < oc.symbols.length, index i < symtab.size / 24
  localsFirst : ∀ i (h : i < oc.symbols.length),
    index i < symtab.info ↔ (expectedSymbol oc.symbols[i]).bind = 0
  apart : o.ranges.Pairwise (fun r s => Apart r.1 r.2 s.1 s.2)
  inside : ∀ r ∈ o.ranges, r.1 + r.2 ≤ file.length

/-- The file decodes to the given code, data, symbols and relocations. -/
def Faithful (code data : List UInt8) (oc : ObjfileCtx) (eMachine : BitVec 16)
    (relocMapper : UInt8 → RelocMapped) (file : List UInt8) : Prop :=
  ∃ o symtab index, decodeObject file = some o ∧
    Describes code data oc eMachine relocMapper file o symtab index

/-- All sizes are below `2 ^ 32`. -/
structure SizesFit (code data : List UInt8) (oc : ObjfileCtx) : Prop where
  codeSize : code.length < 2 ^ 32
  dataSize : data.length < 2 ^ 32
  relocs : oc.relocs.length * 24 < 2 ^ 32
  dataRelocs : oc.dataRelocs.length * 24 < 2 ^ 32
  symbols : (oc.symbols.length + 3) * 24 < 2 ^ 32
  names : 1 + (oc.symbols.map (fun sym => sym.name.length + 1)).sum < 2 ^ 32

/-- Names are C strings, symbol numbers are in range, a definition is of code or data. -/
structure ContextValid (oc : ObjfileCtx) : Prop where
  names : ∀ sym ∈ oc.symbols, 0 ∉ sym.name
  relocs : ∀ r ∈ oc.relocs, r.symbolIdx.toNat < oc.symbols.length
  dataRelocs : ∀ r ∈ oc.dataRelocs, r.symbolIdx.toNat < oc.symbols.length
  sections : ∀ sym ∈ oc.symbols, sym.isDefined → sym.sectionId = 1 ∨ sym.sectionId = 2

@[simp] theorem length_elfHeader (eMachine : BitVec 16) (a b c : Nat) :
    (elfHeader eMachine a b c).length = 64 := by
  simp [elfHeader, w8, w16, w32, w64]

@[simp] theorem length_elfRela (relocMapper : UInt8 → RelocMapped) (index : List Nat)
    (r : ObjReloc) : (elfRela relocMapper index r).length = 24 := by
  simp [elfRela, w32, w64]

@[simp] theorem length_elfSectionSym (shndx : Nat) : (elfSectionSym shndx).length = 24 := by
  simp [elfSectionSym, w8, w16, w32, w64]

@[simp] theorem length_elfSymRow (ix : ElfIndices) (plan : SymbolPlan) (oc : ObjfileCtx)
    (i : Nat) : (elfSymRow ix plan oc i).length = 24 := by
  simp [elfSymRow, elfSym, w8, w16, w32, w64]

/-- The header record behind its bytes. -/
def encodeShdr (sh : Shdr) : List UInt8 :=
  elfSectionHeader sh.name sh.type sh.flags sh.offset sh.size sh.link sh.info sh.addralign
    sh.entsize

@[simp] theorem length_encodeShdr (sh : Shdr) : (encodeShdr sh).length = 64 := by
  simp [encodeShdr, elfSectionHeader, w32, w64]

def encodeSection (s : CStr × Shdr) : List UInt8 := encodeShdr s.2

theorem length_encodeSection (s : CStr × Shdr) : (encodeSection s).length = 64 :=
  length_encodeShdr s.2

structure ShdrFits (sh : Shdr) : Prop where
  name : sh.name < 2 ^ 32
  type : sh.type < 2 ^ 32
  flags : sh.flags < 2 ^ 64
  addr : sh.addr = 0
  offset : sh.offset < 2 ^ 64
  size : sh.size < 2 ^ 64
  link : sh.link < 2 ^ 32
  info : sh.info < 2 ^ 32
  addralign : sh.addralign < 2 ^ 64
  entsize : sh.entsize < 2 ^ 64

theorem decode_encodeShdr {sh : Shdr} (h : ShdrFits sh) :
    shdrOf (decodeFields shdrWidths (encodeShdr sh)) = some sh := by
  obtain ⟨hname, htype, hflags, haddr, hoffset, hsize, hlink, hinfo, halign, hent⟩ := h
  simp only [encodeShdr, elfSectionHeader, shdrWidths, w32, w64, decodeFields_cons,
    decodeFields_nil, shdrOf, pow_four_bytes, pow_eight_bytes, mod_eq_of_lt hname,
    mod_eq_of_lt htype, mod_eq_of_lt hflags, mod_eq_of_lt hoffset,
    mod_eq_of_lt hsize, mod_eq_of_lt hlink, mod_eq_of_lt hinfo, mod_eq_of_lt halign,
    mod_eq_of_lt hent, Nat.zero_mod]
  rw [← haddr]

theorem strOffsetsLoop_size (syms : List ObjSymbol) (base : Nat) :
    (strOffsetsLoop syms base).2 = base + (syms.map (fun sym => sym.name.length + 1)).sum := by
  induction syms generalizing base with
  | nil => rfl
  | cons sym syms ih =>
    rw [strOffsetsLoop, ih, map_cons, sum_cons]
    omega

theorem strOffsetsLoop_getElem? (h : i < syms.length) (base : Nat) :
    (strOffsetsLoop syms base).1[i]? =
      some ((base + ((syms.take i).map (fun sym => sym.name.length + 1)).sum) % 2 ^ 32) := by
  induction syms generalizing base i with
  | nil => exact absurd h (Nat.not_lt_zero i)
  | cons sym syms ih =>
    rw [strOffsetsLoop]
    cases i with
    | zero => simp
    | succ i =>
      rw [getElem?_cons_succ, ih (Nat.lt_of_succ_lt_succ h), take_succ_cons,
        map_cons, sum_cons]
      congr 2
      omega

/-! ## The order of the symbols

`base` is the first place for a symbol of the context, `locals` the number of
local definitions; places are counted from `base` on. -/

/-- The loop has placed the first `done` symbols and is before the rest. -/
structure OrderInv (base locals : Nat) (syms rest : List ObjSymbol) (done : Nat)
    (s : SymOrder) : Prop where
  split : syms.drop done = rest
  indices : s.elfSymIndex.length = done
  places : s.symOrder.length = syms.length
  nextLocal : s.nextLocal = base + s.localPos
  nextGlobal : s.nextGlobal = base + s.globalPos
  localsLeft : s.localPos + rest.countP isLocalDefinition = locals
  globalsFrom : locals ≤ s.globalPos
  globalsLeft : s.globalPos + rest.countP (fun sym => !isLocalDefinition sym) = syms.length
  placed : ∀ j (h : j < syms.length), j < done → ∃ p, s.elfSymIndex[j]? = some (base + p) ∧
    (if isLocalDefinition syms[j] then p < s.localPos else locals ≤ p ∧ p < s.globalPos) ∧
    s.symOrder[p]? = some j
  covered : ∀ p, p < s.localPos ∨ (locals ≤ p ∧ p < s.globalPos) →
    ∃ j < done, s.elfSymIndex[j]? = some (base + p)

variable {rest : List ObjSymbol}

/-- The first symbol of the rest is put at place `p`, which no earlier one has. -/
theorem OrderInv.place {base locals : Nat} {sym : ObjSymbol} {done : Nat}
    {s t : SymOrder} (h : OrderInv base locals syms (sym :: rest) done s)
    (hdone : ∃ hd : done < syms.length, syms[done] = sym ∧ syms.drop (done + 1) = rest) {p : Nat}
    (hp : p = if isLocalDefinition sym then s.localPos else s.globalPos)
    (hindex : t.elfSymIndex = s.elfSymIndex ++ [base + p])
    (horder : t.symOrder = s.symOrder.set p done)
    (hlocalPos : t.localPos = if isLocalDefinition sym then s.localPos + 1 else s.localPos)
    (hglobalPos : t.globalPos = if isLocalDefinition sym then s.globalPos else s.globalPos + 1)
    (hnextLocal : t.nextLocal = base + t.localPos)
    (hnextGlobal : t.nextGlobal = base + t.globalPos) :
    OrderInv base locals syms rest (done + 1) t := by
  obtain ⟨hlt, hsym, hrest⟩ := hdone
  have hlocals := h.localsLeft
  have hglobals := h.globalsLeft
  have hfrom := h.globalsFrom
  have hindices := h.indices
  rw [countP_cons] at hlocals hglobals
  have hroom : p < syms.length := by
    cases hloc : isLocalDefinition sym <;> simp [hloc] at hp hlocals hglobals <;> omega
  constructor
  · exact hrest
  · rw [hindex, length_append, h.indices, length_singleton]
  · rw [horder, length_set, h.places]
  · exact hnextLocal
  · exact hnextGlobal
  · cases hloc : isLocalDefinition sym <;> simp [hloc] at hlocalPos hlocals <;> omega
  · cases hloc : isLocalDefinition sym <;> simp [hloc] at hglobalPos <;> omega
  · cases hloc : isLocalDefinition sym <;> simp [hloc] at hglobalPos hglobals <;> omega
  · intro j hj hle
    rcases Nat.lt_succ_iff_lt_or_eq.mp hle with hbefore | rfl
    · obtain ⟨q, hq, hside, hat⟩ := h.placed j hj hbefore
      have hne : p ≠ q := by
        cases hloc : isLocalDefinition sym <;> cases hlj : isLocalDefinition syms[j] <;>
          simp [hloc] at hp hlocals <;> simp [hlj] at hside <;> omega
      have hside' : if isLocalDefinition syms[j] then q < t.localPos
          else locals ≤ q ∧ q < t.globalPos := by
        cases hloc : isLocalDefinition sym <;> cases hlj : isLocalDefinition syms[j] <;>
          simp [hloc] at hlocalPos hglobalPos <;> simp [hlj] at hside ⊢ <;> omega
      refine ⟨q, ?_, hside', ?_⟩
      · rw [hindex, getElem?_append_left (by omega), hq]
      · rw [horder, getElem?_set_ne hne, hat]
    · refine ⟨p, ?_, ?_, ?_⟩
      · rw [hindex, getElem?_append_right (by omega), h.indices, Nat.sub_self]
        rfl
      · rw [hsym]
        cases hloc : isLocalDefinition sym <;>
          simp [hloc] at hp hlocalPos hglobalPos ⊢ <;> omega
      · rw [horder, getElem?_set_self (by rw [h.places]; exact hroom)]
  · intro q hq
    by_cases hqp : q = p
    · refine ⟨done, Nat.lt_succ_self done, ?_⟩
      rw [hindex, getElem?_append_right (by omega), h.indices, Nat.sub_self, hqp]
      rfl
    · have hold : q < s.localPos ∨ (locals ≤ q ∧ q < s.globalPos) := by
        cases hloc : isLocalDefinition sym <;>
          simp [hloc] at hp hlocalPos hglobalPos <;> omega
      obtain ⟨j, hj, hat⟩ := h.covered q hold
      refine ⟨j, Nat.lt_succ_of_lt hj, ?_⟩
      rw [hindex, getElem?_append_left (by omega), hat]

theorem OrderInv.loop {base locals : Nat} {done : Nat} {s : SymOrder}
    (h : OrderInv base locals syms rest done s) (hle : done ≤ syms.length) :
    OrderInv base locals syms [] syms.length (symOrderLoop rest done s) := by
  induction rest generalizing done s with
  | nil =>
    have hdone : done = syms.length := by
      have := drop_eq_nil_iff.mp h.split
      omega
    rw [symOrderLoop, ← hdone]
    exact h
  | cons sym rest ih =>
    have hlt : done < syms.length := by
      by_contra hge
      have := h.split
      rw [drop_eq_nil_of_le (by omega)] at this
      exact absurd this (by simp)
    have hsplit := h.split
    rw [drop_eq_getElem_cons hlt] at hsplit
    obtain ⟨hsym, hrest⟩ := cons.inj hsplit
    rw [symOrderLoop]
    have hnl := h.nextLocal
    have hng := h.nextGlobal
    by_cases hloc : isLocalDefinition sym
    · rw [if_pos hloc]
      apply ih _ hlt
      apply h.place ⟨hlt, hsym, hrest⟩ (by rw [if_pos hloc]) <;> simp [hloc, hnl, hng]
      omega
    · rw [if_neg hloc]
      apply ih _ hlt
      apply h.place ⟨hlt, hsym, hrest⟩ (by rw [if_neg hloc]) <;> simp [hloc, hnl, hng]
      omega

/-- The first place of `.symtab` for a symbol of the context. -/
def firstPlace (hasData : Bool) : Nat := 1 + (if hasData then 2 else 1)

/-- Where a symbol of the context stands in `.symtab`. -/
def place (hasData : Bool) (oc : ObjfileCtx) (i : Nat) : Nat :=
  (symbolPlan hasData oc).elfSymIndex.getD i 0

section
variable (hasData : Bool) (oc : ObjfileCtx)
include hasData oc

theorem order_inv :
    OrderInv (firstPlace hasData) (oc.symbols.countP isLocalDefinition) oc.symbols []
      oc.symbols.length
      (symOrderLoop oc.symbols 0
        { elfSymIndex := []
          symOrder := replicate oc.symbols.length 0
          nextLocal := firstPlace hasData
          nextGlobal := firstPlace hasData + oc.symbols.countP isLocalDefinition
          localPos := 0
          globalPos := oc.symbols.countP isLocalDefinition }) := by
  apply OrderInv.loop _ (Nat.zero_le _)
  have hcount := length_eq_countP_add_countP isLocalDefinition (l := oc.symbols)
  constructor <;> simp
  simpa using hcount.symm

theorem totalSyms_eq :
    (symbolPlan hasData oc).totalSyms = firstPlace hasData + oc.symbols.length := by
  have hle : oc.symbols.countP isLocalDefinition ≤ oc.symbols.length := countP_le_length
  simp only [symbolPlan, firstPlace]
  omega

theorem firstGlobal_eq :
    (symbolPlan hasData oc).firstGlobal =
      firstPlace hasData + oc.symbols.countP isLocalDefinition := rfl

theorem strtabSize_eq :
    (symbolPlan hasData oc).strtabSize =
      1 + (oc.symbols.map (fun sym => sym.name.length + 1)).sum :=
  strOffsetsLoop_size oc.symbols 1

theorem length_symOrder : (symbolPlan hasData oc).symOrder.length = oc.symbols.length :=
  (order_inv hasData oc).places

/-- A symbol's row is the one that its place in `.symtab` is filled from. -/
theorem place_spec (h : i < oc.symbols.length) :
    ∃ p < oc.symbols.length, place hasData oc i = firstPlace hasData + p ∧
      (symbolPlan hasData oc).symOrder[p]? = some i ∧
      (p < oc.symbols.countP isLocalDefinition ↔ isLocalDefinition oc.symbols[i] = true) := by
  obtain ⟨p, hindex, hside, hat⟩ := (order_inv hasData oc).placed i h h
  have hlocals := (order_inv hasData oc).localsLeft
  have hplace : place hasData oc i = firstPlace hasData + p := by
    rw [place, getD_eq_getElem?_getD]
    exact congrArg (Option.getD · 0) hindex
  have hlt := (List.getElem?_eq_some_iff.mp hat).1
  rw [(order_inv hasData oc).places] at hlt
  refine ⟨p, hlt, hplace, hat, ?_⟩
  rw [countP_nil, Nat.add_zero] at hlocals
  cases hloc : isLocalDefinition oc.symbols[i] <;> simp [hloc] at hside ⊢ <;> omega

theorem place_surj {p : Nat} (h : p < oc.symbols.length) :
    ∃ i < oc.symbols.length, place hasData oc i = firstPlace hasData + p := by
  have hlocals := (order_inv hasData oc).localsLeft
  have hglobals := (order_inv hasData oc).globalsLeft
  rw [countP_nil, Nat.add_zero] at hlocals hglobals
  obtain ⟨i, hi, hindex⟩ := (order_inv hasData oc).covered p (by omega)
  refine ⟨i, hi, ?_⟩
  rw [place, getD_eq_getElem?_getD]
  exact congrArg (Option.getD · 0) hindex

theorem place_inj {j : Nat} (hi : i < oc.symbols.length) (hj : j < oc.symbols.length)
    (h : place hasData oc i = place hasData oc j) : i = j := by
  obtain ⟨p, -, hp, hati, -⟩ := place_spec hasData oc hi
  obtain ⟨q, -, hq, hatj, -⟩ := place_spec hasData oc hj
  obtain rfl : p = q := by omega
  exact Option.some.inj (hati.symm.trans hatj)

end

/-- The parts of the file stand in order, with some padding between them. -/
structure LayoutFacts (code data : List UInt8) (oc : ObjfileCtx) (l : ElfLayout)
    (numSections : Nat) : Prop where
  textOff : l.textOff = 64
  dataOff : 64 + code.length ≤ l.dataOff
  relaTextOff : l.dataOff + data.length ≤ l.relaTextOff
  relaTextSize : l.relaTextSize = oc.relocs.length * 24
  relaDataOff : l.relaTextOff + l.relaTextSize ≤ l.relaDataOff
  relaDataSize : l.relaDataSize = oc.dataRelocs.length * 24
  symtabOff : l.relaDataOff + l.relaDataSize ≤ l.symtabOff
  symtabSize : l.symtabSize = (firstPlace (decide (data.length > 0)) + oc.symbols.length) * 24
  strtabOff : l.strtabOff = l.symtabOff + l.symtabSize
  strtabSize : l.strtabSize = 1 + (oc.symbols.map (fun sym => sym.name.length + 1)).sum
  shstrtabOff : l.shstrtabOff = l.strtabOff + l.strtabSize
  shdrOff : l.shstrtabOff + shstrtabContent.length ≤ l.shdrOff
  totalSize : l.totalSize = l.shdrOff + numSections * 64
  bound : l.shdrOff < 2 ^ 63

/-- Padding to eight bytes or none. -/
theorem padded_bounds (b : Bool) (v : Nat) :
    v ≤ (if b then objAlignUp v 8 else v) ∧ (if b then objAlignUp v 8 else v) ≤ v + 7 := by
  have hlow : v ≤ objAlignUp v 8 := le_padUp v (by omega)
  have hhigh : objAlignUp v 8 ≤ v + 7 := padUp_le v 8
  cases b
  · simp
  · exact ⟨hlow, hhigh⟩

theorem ite_positive (n : Nat) : (if decide (n > 0) then n else 0) = n := by
  rcases Nat.eq_zero_or_pos n with rfl | h <;> simp [*]

theorem layout_facts {code data : List UInt8} {oc : ObjfileCtx} (h : SizesFit code data oc)
    {numSections : Nat} {l : ElfLayout}
    (hl : l = elfLayout code.length data.length oc (symbolPlan (decide (data.length > 0)) oc)
      numSections) : LayoutFacts code data oc l numSections := by
  obtain ⟨hcode, hdata, hrelocs, hdataRelocs, hsymbols, hnames⟩ := h
  have hcontent : shstrtabContent.length = 61 := by decide
  have htotal := totalSyms_eq (decide (data.length > 0)) oc
  have hplaces : firstPlace (decide (data.length > 0)) ≤ 3 := by
    rw [firstPlace]
    split <;> omega
  have hdataOff : 64 + code.length ≤ l.dataOff ∧ l.dataOff ≤ 64 + code.length + 7 := by
    rw [hl]
    exact padded_bounds (decide (data.length > 0)) (64 + code.length)
  have hrelaTextOff : l.dataOff + data.length ≤ l.relaTextOff ∧
      l.relaTextOff ≤ l.dataOff + data.length + 7 := by
    have heq : l.relaTextOff =
        objAlignUp (l.dataOff + (if decide (data.length > 0) then data.length else 0)) 8 := by
      rw [hl]
      rfl
    rw [heq, ite_positive]
    exact padded_bounds true _
  have hrelaTextSize : l.relaTextSize = oc.relocs.length * 24 := by
    rw [hl]
    exact mod_eq_of_lt hrelocs
  have hrelaDataOff : l.relaTextOff + l.relaTextSize ≤ l.relaDataOff ∧
      l.relaDataOff ≤ l.relaTextOff + l.relaTextSize + 7 := by
    rw [hl]
    exact padded_bounds (decide (oc.dataRelocs.length > 0)) _
  have hrelaDataSize : l.relaDataSize = oc.dataRelocs.length * 24 := by
    have heq : l.relaDataSize =
        if decide (oc.dataRelocs.length > 0) then oc.dataRelocs.length * 24 % 2 ^ 32 else 0 := by
      rw [hl]
      rfl
    rw [heq, mod_eq_of_lt hdataRelocs]
    rcases Nat.eq_zero_or_pos oc.dataRelocs.length with hz | hpos <;> simp [*]
  have hsymtabOff : l.relaDataOff + l.relaDataSize ≤ l.symtabOff ∧
      l.symtabOff ≤ l.relaDataOff + l.relaDataSize + 7 := by
    rw [hl]
    exact padded_bounds true _
  have hsymtabSize : l.symtabSize =
      (firstPlace (decide (data.length > 0)) + oc.symbols.length) * 24 := by
    rw [← htotal, hl]
    exact mod_eq_of_lt (by rw [htotal]; omega)
  have hstrtabSize : l.strtabSize =
      1 + (oc.symbols.map (fun sym => sym.name.length + 1)).sum := by
    rw [hl]
    exact strtabSize_eq (decide (data.length > 0)) oc
  have hstrtabOff : l.strtabOff = l.symtabOff + l.symtabSize := by
    rw [hl]
    rfl
  have hshstrtabOff : l.shstrtabOff = l.strtabOff + l.strtabSize := by
    rw [hl]
    rfl
  have hshdrOff : l.shstrtabOff + shstrtabContent.length ≤ l.shdrOff ∧
      l.shdrOff ≤ l.shstrtabOff + shstrtabContent.length + 7 := by
    rw [hl]
    exact padded_bounds true _
  exact
    { textOff := by rw [hl]; rfl
      dataOff := hdataOff.1
      relaTextOff := hrelaTextOff.1
      relaTextSize := hrelaTextSize
      relaDataOff := hrelaDataOff.1
      relaDataSize := hrelaDataSize
      symtabOff := hsymtabOff.1
      symtabSize := hsymtabSize
      strtabOff := hstrtabOff
      strtabSize := hstrtabSize
      shstrtabOff := hshstrtabOff
      shdrOff := hshdrOff.1
      totalSize := by rw [hl]; rfl
      bound := by omega }

def indices (data : List UInt8) (oc : ObjfileCtx) : ElfIndices :=
  elfIndices (decide (data.length > 0)) (decide (oc.dataRelocs.length > 0))

section
variable (code data : List UInt8) (oc : ObjfileCtx)

def layout : ElfLayout :=
  elfLayout code.length data.length oc (symbolPlan (decide (data.length > 0)) oc)
    (indices data oc).numSections

def textSection : Shdr :=
  ⟨shNameText, 1, 6, 0, (layout code data oc).textOff, code.length, 0, 0, 16, 0⟩

def dataSection : Shdr :=
  ⟨shNameData, 1, 3, 0, (layout code data oc).dataOff, data.length, 0, 0, 8, 0⟩

def relaTextSection : Shdr :=
  ⟨shNameRelaText, 4, 0x40, 0, (layout code data oc).relaTextOff,
    (layout code data oc).relaTextSize, (indices data oc).symtabShndx, (indices data oc).textShndx,
    8, 24⟩

def relaDataSection : Shdr :=
  ⟨shNameRelaData, 4, 0x40, 0, (layout code data oc).relaDataOff,
    (layout code data oc).relaDataSize, (indices data oc).symtabShndx, (indices data oc).dataShndx,
    8, 24⟩

def symtabSection : Shdr :=
  ⟨shNameSymtab, 2, 0, 0, (layout code data oc).symtabOff, (layout code data oc).symtabSize,
    (indices data oc).strtabShndx, (symbolPlan (decide (data.length > 0)) oc).firstGlobal, 8, 24⟩

def strtabSection : Shdr :=
  ⟨shNameStrtab, 3, 0, 0, (layout code data oc).strtabOff, (layout code data oc).strtabSize, 0, 0,
    1, 0⟩

def shstrtabSection : Shdr :=
  ⟨shNameShstrtab, 3, 0, 0, (layout code data oc).shstrtabOff, shstrtabContent.length, 0, 0, 1, 0⟩

/-- The sections behind the null section, with their names. -/
def namedSections : List (CStr × Shdr) :=
  [(dotText, textSection code data oc)] ++
  (if decide (data.length > 0) then [(dotData, dataSection code data oc)] else []) ++
  [(dotRelaText, relaTextSection code data oc)] ++
  (if decide (oc.dataRelocs.length > 0) then [(dotRelaData, relaDataSection code data oc)]
  else []) ++
  [(dotSymtab, symtabSection code data oc),
    (chars ['.', 's', 't', 'r', 't', 'a', 'b'], strtabSection code data oc),
    (chars ['.', 's', 'h', 's', 't', 'r', 't', 'a', 'b'], shstrtabSection code data oc)]

theorem sectionHeaders_eq :
    elfSectionHeaders (indices data oc) (layout code data oc)
      (symbolPlan (decide (data.length > 0)) oc) code.length data.length
      (decide (data.length > 0)) (decide (oc.dataRelocs.length > 0)) =
      (namedSections code data oc).map encodeSection := by
  rw [elfSectionHeaders, namedSections, map_append, map_append, map_append,
    map_append, apply_ite (List.map encodeSection), apply_ite (List.map encodeSection)]
  rfl

theorem numSections_eq :
    (indices data oc).numSections = (namedSections code data oc).length + 1 := by
  simp only [indices, namedSections]
  cases decide (data.length > 0) <;> cases decide (oc.dataRelocs.length > 0) <;> rfl

theorem length_headers :
    ((namedSections code data oc).map encodeSection).flatten.length =
      (namedSections code data oc).length * 64 := by
  rw [← flatMap_def]
  exact length_flatMap_width encodeSection length_encodeSection _

/-- The contents of `.symtab` behind its null entry. -/
def symtabRows (data : List UInt8) (oc : ObjfileCtx) : List UInt8 :=
  elfSectionSym (indices data oc).textShndx ++
    (if decide (data.length > 0) then elfSectionSym (indices data oc).dataShndx else []) ++
    (symbolPlan (decide (data.length > 0)) oc).symOrder.flatMap
      (elfSymRow (indices data oc) (symbolPlan (decide (data.length > 0)) oc) oc)

def relaRows (data : List UInt8) (oc : ObjfileCtx) (relocMapper : UInt8 → RelocMapped)
    (rs : List ObjReloc) : List UInt8 :=
  rs.flatMap (elfRela relocMapper (symbolPlan (decide (data.length > 0)) oc).elfSymIndex)

/-- The parts before the section headers. -/
def bodyParts (eMachine : BitVec 16)
    (relocMapper : UInt8 → RelocMapped) : List (Nat × List UInt8) :=
  [(0, elfHeader eMachine (layout code data oc).shdrOff (indices data oc).numSections
      (indices data oc).shstrtabShndx),
    ((layout code data oc).textOff, code)] ++
  (if decide (data.length > 0) then [((layout code data oc).dataOff, data)] else []) ++
  [((layout code data oc).relaTextOff, relaRows data oc relocMapper oc.relocs)] ++
  (if decide (oc.dataRelocs.length > 0) then
    [((layout code data oc).relaDataOff, relaRows data oc relocMapper oc.dataRelocs)]
  else []) ++
  [((layout code data oc).symtabOff + 24, symtabRows data oc),
    ((layout code data oc).strtabOff, stringTable (oc.symbols.map (·.name))),
    ((layout code data oc).shstrtabOff, shstrtabContent)]

theorem elfParts_eq (eMachine : BitVec 16) (relocMapper : UInt8 → RelocMapped) :
    elfParts code data oc eMachine relocMapper =
      bodyParts code data oc eMachine relocMapper ++
        [((layout code data oc).shdrOff + 64,
          ((namedSections code data oc).map encodeSection).flatten)] := by
  rw [← sectionHeaders_eq, bodyParts, stringTable, flatMap_map, append_assoc]
  rfl

end

theorem length_relaRows (data : List UInt8) (oc : ObjfileCtx)
    (relocMapper : UInt8 → RelocMapped) (rs : List ObjReloc) :
    (relaRows data oc relocMapper rs).length = rs.length * 24 :=
  length_flatMap_width _ (length_elfRela relocMapper _) rs

theorem length_symtabRows (data : List UInt8) (oc : ObjfileCtx) :
    24 + (symtabRows data oc).length =
      (firstPlace (decide (data.length > 0)) + oc.symbols.length) * 24 := by
  have hrows := length_flatMap_width _
    (length_elfSymRow (indices data oc) (symbolPlan (decide (data.length > 0)) oc) oc)
    (symbolPlan (decide (data.length > 0)) oc).symOrder
  rw [length_symOrder] at hrows
  rw [symtabRows, length_append, length_append, hrows, length_elfSectionSym, firstPlace]
  cases decide (data.length > 0) <;> simp <;> omega

theorem length_names_eq (oc : ObjfileCtx) :
    (stringTable (oc.symbols.map (·.name))).length =
      1 + (oc.symbols.map (fun sym => sym.name.length + 1)).sum := by
  rw [length_stringTable, map_map]
  rfl

theorem laid_out {code data : List UInt8} {oc : ObjfileCtx} (h : SizesFit code data oc) :
    LayoutFacts code data oc (layout code data oc) (indices data oc).numSections :=
  layout_facts h rfl

section
variable {code data : List UInt8} {oc : ObjfileCtx} (h : SizesFit code data oc)
  (eMachine : BitVec 16) (relocMapper : UInt8 → RelocMapped)
include h eMachine relocMapper

theorem bodyParts_ordered :
    Ordered 0 (bodyParts code data oc eMachine relocMapper) (layout code data oc).shdrOff := by
  have hsymtab := length_symtabRows data oc
  have hnames := length_names_eq oc
  obtain ⟨h1, h2, h3, h4, h5, h6, h7, h8, h9, h10, h11, h12, -, -⟩ := laid_out h
  rw [bodyParts]
  apply Ordered.append (m := (layout code data oc).symtabOff)
  · apply Ordered.append (m := (layout code data oc).relaDataOff)
    · apply Ordered.append (m := (layout code data oc).relaTextOff)
      · apply Ordered.append (m := (layout code data oc).dataOff)
        · simp only [Ordered, length_elfHeader]
          omega
        · exact Ordered.optional (le_rfl) h3
      · apply Ordered.single (le_rfl)
        rw [length_relaRows]
        omega
    · apply Ordered.optional (le_rfl)
      rw [length_relaRows]
      omega
  · simp only [Ordered]
    omega

theorem parts_ordered :
    Ordered 0 (elfParts code data oc eMachine relocMapper) (layout code data oc).totalSize := by
  have hl := laid_out h
  have htotal := hl.totalSize
  have hsections := numSections_eq code data oc
  rw [elfParts_eq]
  apply (bodyParts_ordered h eMachine relocMapper).append
  apply Ordered.single (Nat.le_add_right _ _)
  rw [length_headers]
  omega

end

section Decoding
variable {code data : List UInt8} {oc : ObjfileCtx} {eMachine : BitVec 16}
  {relocMapper : UInt8 → RelocMapped} {file : List UInt8}

def header (code data : List UInt8) (oc : ObjfileCtx) (eMachine : BitVec 16) : Ehdr :=
  { magic := [0x7F, 0x45, 0x4C, 0x46]
    fileClass := 2
    encoding := 1
    type := 1
    machine := eMachine.toNat
    entry := 0
    phoff := 0
    shoff := (layout code data oc).shdrOff
    phentsize := 0
    phnum := 0
    shentsize := 64
    shnum := (indices data oc).numSections
    shstrndx := (indices data oc).shstrtabShndx }

theorem indices_small (data : List UInt8) (oc : ObjfileCtx) :
    (indices data oc).numSections ≤ 8 ∧
      (indices data oc).shstrtabShndx + 1 = (indices data oc).numSections := by
  simp only [indices]
  cases decide (data.length > 0) <;> cases decide (oc.dataRelocs.length > 0) <;> decide

theorem section_fits (h : SizesFit code data oc) (hs : s ∈ namedSections code data oc) :
    ShdrFits s.2 := by
  have hcontent : shstrtabContent.length = 61 := by decide
  have hix : (indices data oc).symtabShndx ≤ 8 ∧ (indices data oc).strtabShndx ≤ 8 ∧
      (indices data oc).textShndx = 1 ∧ (indices data oc).dataShndx ≤ 8 := by
    simp only [indices]
    cases decide (data.length > 0) <;> cases decide (oc.dataRelocs.length > 0) <;> decide
  have hplaces : firstPlace (decide (data.length > 0)) ≤ 3 := by
    rw [firstPlace]
    split <;> omega
  have hcount : oc.symbols.countP isLocalDefinition ≤ oc.symbols.length := countP_le_length
  have hglobal := firstGlobal_eq (decide (data.length > 0)) oc
  obtain ⟨h1, h2, h3, h4, h5, h6, h7, h8, h9, h10, h11, h12, -, h14⟩ := laid_out h
  obtain ⟨hcode, hdata, hrelocs, hdataRelocs, hsymbols, hnames⟩ := h
  simp only [namedSections, mem_append, mem_cons, not_mem_nil, or_false, mem_ite_nil_right] at hs
  rcases hs with (((rfl | ⟨-, rfl⟩) | rfl) | ⟨-, rfl⟩) | rfl | rfl | rfl
  all_goals
    constructor <;> simp only [textSection, dataSection, relaTextSection, relaDataSection,
      symtabSection, strtabSection, shstrtabSection, shNameText, shNameData, shNameRelaText,
      shNameSymtab, shNameStrtab, shNameShstrtab, shNameRelaData] <;> omega

def nullSection : Shdr := ⟨0, 0, 0, 0, 0, 0, 0, 0, 0, 0⟩

/-- The object that the file decodes to. -/
def object (code data : List UInt8) (oc : ObjfileCtx) (eMachine : BitVec 16) : Object :=
  { header := header code data oc eMachine
    sections := ([], nullSection) :: namedSections code data oc }

/-- The names stand where the headers say. -/
theorem sectionName_eq (hs : s ∈ namedSections code data oc) :
    cstrAt shstrtabContent s.2.name = s.1 := by
  simp only [namedSections, mem_append, mem_cons, not_mem_nil, or_false, mem_ite_nil_right] at hs
  rcases hs with (((rfl | ⟨-, rfl⟩) | rfl) | ⟨-, rfl⟩) | rfl | rfl | rfl <;> rfl

theorem shstrtab_at (code data : List UInt8) (oc : ObjfileCtx) :
    (nullSection :: (namedSections code data oc).map (·.2))[(indices data oc).shstrtabShndx]? =
      some (shstrtabSection code data oc) := by
  simp only [indices, namedSections]
  cases decide (data.length > 0) <;> cases decide (oc.dataRelocs.length > 0) <;> rfl

theorem named_text : (object code data oc eMachine).named dotText =
    some (textSection code data oc) := rfl

theorem named_data : (object code data oc eMachine).named dotData =
    if data.length > 0 then some (dataSection code data oc) else none := by
  simp only [Object.named, object, namedSections]
  by_cases hdata : data.length > 0 <;> by_cases hrel : oc.dataRelocs.length > 0 <;>
    simp only [hdata, hrel] <;> rfl

theorem named_relaText : (object code data oc eMachine).named dotRelaText =
    some (relaTextSection code data oc) := by
  simp only [Object.named, object, namedSections]
  cases decide (data.length > 0) <;> rfl

theorem named_relaData : (object code data oc eMachine).named dotRelaData =
    if oc.dataRelocs.length > 0 then some (relaDataSection code data oc) else none := by
  simp only [Object.named, object, namedSections]
  by_cases hdata : data.length > 0 <;> by_cases hrel : oc.dataRelocs.length > 0 <;>
    simp only [hdata, hrel] <;> rfl

theorem named_symtab : (object code data oc eMachine).named dotSymtab =
    some (symtabSection code data oc) := by
  simp only [Object.named, object, namedSections]
  cases decide (data.length > 0) <;> cases decide (oc.dataRelocs.length > 0) <;> rfl

theorem strtab_linked (code data : List UInt8) (oc : ObjfileCtx) (eMachine : BitVec 16) :
    (object code data oc eMachine).sections[(symtabSection code data oc).link]? =
      some (chars ['.', 's', 't', 'r', 't', 'a', 'b'], strtabSection code data oc) := by
  simp only [object, symtabSection, indices, namedSections]
  cases decide (data.length > 0) <;> cases decide (oc.dataRelocs.length > 0) <;> rfl

theorem strOffset_eq (h : SizesFit code data oc) (hi : i < oc.symbols.length) :
    (symbolPlan (decide (data.length > 0)) oc).strOffsets.getD i 0 =
      stringOffset (oc.symbols.map (·.name)) i := by
  have hat := strOffsetsLoop_getElem? hi 1
  have hle : ((oc.symbols.take i).map (fun sym => sym.name.length + 1)).sum ≤
      (oc.symbols.map (fun sym => sym.name.length + 1)).sum := by
    conv_rhs => rw [← take_append_drop i oc.symbols, map_append, sum_append]
    omega
  have hnames := h.names
  rw [mod_eq_of_lt (by omega)] at hat
  have hplan : (symbolPlan (decide (data.length > 0)) oc).strOffsets =
      (strOffsetsLoop oc.symbols 1).1 := rfl
  rw [hplan, getD_eq_getElem?_getD, hat, Option.getD_some, stringOffset, ← map_take, map_map]
  rfl

theorem symInfo_split (sym : ObjSymbol) :
    (symBind sym * 16 + symType sym) % 256 ^ 1 / 16 = symBind sym := by
  have hbind : symBind sym ≤ 2 := by
    rw [symBind]
    split
    · omega
    · split <;> omega
  have htype : symType sym ≤ 2 := by
    rw [symType]
    split <;> omega
  omega

/-- The section number of a symbol leads to the section it is defined in. -/
theorem inSection_eq {sym : ObjSymbol}
    (hsection : sym.isDefined → sym.sectionId = 1 ∨ (sym.sectionId = 2 ∧ data.length > 0)) :
    (if symShndx (indices data oc) sym = 0 then none
      else ((object code data oc eMachine).sections[symShndx (indices data oc) sym]?).map (·.1)) =
      if sym.isDefined then some (if sym.sectionId = 1 then dotText else dotData) else none := by
  cases hdef : sym.isDefined with
  | false =>
    have hzero : symShndx (indices data oc) sym = 0 := by simp [symShndx, hdef]
    rw [if_pos hzero]
    rfl
  | true =>
    rcases hsection hdef with hone | ⟨htwo, hdata⟩
    · have hshndx : symShndx (indices data oc) sym = 1 := by
        simp only [symShndx, hdef, hone]
        rfl
      rw [hshndx, if_pos rfl, if_pos hone]
      rfl
    · have hshndx : symShndx (indices data oc) sym = 2 := by
        simp only [symShndx, hdef, htwo, indices, decide_eq_true hdata]
        rfl
      have hne : ¬ (2 : UInt8) = 1 := by decide
      rw [hshndx, if_pos rfl, htwo, if_neg hne]
      simp only [object, namedSections, decide_eq_true hdata]
      rfl

theorem relaAt_rows (hfit : SizesFit code data oc) {rs : List ObjReloc} (hi : i < rs.length)
    (hsym : (rs[i]).symbolIdx.toNat < oc.symbols.length) :
    relaAt (relaRows data oc relocMapper rs) i =
      some (expectedRela relocMapper (place (decide (data.length > 0)) oc) rs[i]) := by
  obtain ⟨p, hp, hplace, -, -⟩ := place_spec (decide (data.length > 0)) oc hsym
  have hsyms := hfit.symbols
  have hfirst : firstPlace (decide (data.length > 0)) ≤ 3 := by
    rw [firstPlace]
    split <;> omega
  have hindex : place (decide (data.length > 0)) oc rs[i].symbolIdx.toNat < 256 ^ 4 := by
    rw [hplace]
    omega
  have hoffset : rs[i].offset.toNat < 256 ^ 8 := by
    have := rs[i].offset.isLt
    omega
  have htype : (relocMapper rs[i].type).nativeType.toNat < 256 ^ 4 := by
    have := (relocMapper rs[i].type).nativeType.isLt
    omega
  have haddend : (relocMapper rs[i].type).addend.toNat < 256 ^ 8 := by
    have := (relocMapper rs[i].type).addend.isLt
    omega
  have hrow : bytesAt (relaRows data oc relocMapper rs) (i * 24) 24 =
      elfRela relocMapper (symbolPlan (decide (data.length > 0)) oc).elfSymIndex rs[i] :=
    bytesAt_flatMap _ (length_elfRela relocMapper _) rs hi
  rw [relaAt, hrow, elfRela]
  simp only [relaWidths, w32, w64, decodeFields_cons, decodeFields_nil, relaOf]
  rw [← place, mod_eq_of_lt hindex, mod_eq_of_lt hoffset, mod_eq_of_lt htype,
    mod_eq_of_lt haddend]
  rfl

/-- The range of a section as a write of as many bytes. -/
def sectionRange (s : CStr × Shdr) : Nat × List UInt8 := (s.2.offset, replicate s.2.size 0)

theorem sections_ordered (h : SizesFit code data oc) :
    Ordered 64 ((namedSections code data oc).map sectionRange) (layout code data oc).shdrOff := by
  obtain ⟨h1, h2, h3, h4, h5, h6, h7, h8, h9, h10, h11, h12, -, -⟩ := laid_out h
  rw [namedSections, map_append, map_append, map_append, map_append,
    apply_ite (List.map sectionRange), apply_ite (List.map sectionRange)]
  apply Ordered.append (m := (layout code data oc).symtabOff)
  · apply Ordered.append (m := (layout code data oc).relaDataOff)
    · apply Ordered.append (m := (layout code data oc).relaTextOff)
      · apply Ordered.append (m := (layout code data oc).dataOff)
        · apply Ordered.single
          · exact le_of_eq h1.symm
          · simp only [textSection, length_replicate]
            omega
        · apply Ordered.optional
          · exact le_rfl
          · simp only [dataSection, length_replicate]
            omega
      · apply Ordered.single
        · exact le_rfl
        · simp only [relaTextSection, length_replicate]
          omega
    · apply Ordered.optional
      · exact le_rfl
      · simp only [relaDataSection, length_replicate]
        omega
  · simp only [map_cons, map_nil, sectionRange, Ordered, symtabSection, strtabSection,
      shstrtabSection, length_replicate]
    omega

theorem section_bounds (h : SizesFit code data oc) (hs : s ∈ namedSections code data oc) :
    64 ≤ s.2.offset ∧ s.2.offset + s.2.size ≤ (layout code data oc).shdrOff := by
  have hb := (sections_ordered h).bounds.2 (sectionRange s) (mem_map_of_mem hs)
  simpa only [sectionRange, length_replicate] using hb

theorem sections_apart (h : SizesFit code data oc) :
    (namedSections code data oc).Pairwise
      (fun s t => Apart s.2.offset s.2.size t.2.offset t.2.size) := by
  have hpair := pairwise_map.mp (sections_ordered h).apart
  simpa only [sectionRange, length_replicate] using hpair

theorem ranges_eq : (object code data oc eMachine).ranges =
    (0, 64) :: ((layout code data oc).shdrOff, (indices data oc).numSections * 64) ::
      (namedSections code data oc).map (fun s => (s.2.offset, s.2.size)) := rfl

theorem ranges_apart (h : SizesFit code data oc) :
    (object code data oc eMachine).ranges.Pairwise (fun r s => Apart r.1 r.2 s.1 s.2) := by
  obtain ⟨h1, h2, h3, h4, h5, h6, h7, h8, h9, h10, h11, h12, -, -⟩ := laid_out h
  rw [ranges_eq]
  apply List.Pairwise.cons
  · intro r hr
    rcases mem_cons.mp hr with rfl | hr
    · exact Or.inl (by omega)
    · obtain ⟨s, hs, rfl⟩ := mem_map.mp hr
      exact Or.inl (by have := section_bounds h hs; omega)
  · apply List.Pairwise.cons
    · intro r hr
      obtain ⟨s, hs, rfl⟩ := mem_map.mp hr
      exact Or.inr (section_bounds h hs).2
    · exact pairwise_map.mpr (sections_apart h)

/-- The file that is written for a context that can be laid out. -/
structure Written (code data : List UInt8) (oc : ObjfileCtx) (eMachine : BitVec 16)
    (relocMapper : UInt8 → RelocMapped) (file : List UInt8) : Prop
    extends fits : SizesFit code data oc where
  eq : file = writeElf code data oc eMachine relocMapper

theorem parts_inside (h : SizesFit code data oc) (eMachine : BitVec 16)
    (relocMapper : UInt8 → RelocMapped) : Inside (wpad (layout code data oc).totalSize).length
      (elfParts code data oc eMachine relocMapper) := by
  rw [wpad, length_replicate]
  exact (parts_ordered h eMachine relocMapper).inside

variable (h : Written code data oc eMachine relocMapper file)
include h

theorem length_file : file.length = (layout code data oc).totalSize :=
  h.eq ▸ (length_writes (parts_inside h.fits eMachine relocMapper)).trans length_replicate

/-- Every part is found in the file where it was copied to. -/
theorem bytesAt_file {off : Nat} {bs : List UInt8}
    (hmem : (off, bs) ∈ elfParts code data oc eMachine relocMapper) :
    bytesAt file off bs.length = bs :=
  h.eq ▸ bytesAt_writes (parts_inside h.fits eMachine relocMapper)
    (parts_ordered h.fits eMachine relocMapper).apart.noClash hmem

theorem bytesAt_body {off : Nat} {bs : List UInt8}
    (hmem : (off, bs) ∈ bodyParts code data oc eMachine relocMapper) :
    bytesAt file off bs.length = bs :=
  bytesAt_file h (by rw [elfParts_eq]; exact mem_append_left _ hmem)

/-- The null section header is left zero. -/
theorem bytesAt_nullHeader :
    bytesAt file (layout code data oc).shdrOff 64 = replicate 64 0 := by
  have htotal := (laid_out h.fits).totalSize
  have hsections := numSections_eq code data oc
  have hapart : ∀ w ∈ elfParts code data oc eMachine relocMapper,
      Apart (layout code data oc).shdrOff 64 w.1 w.2.length := by
    intro w hw
    rw [elfParts_eq] at hw
    rcases mem_append.mp hw with hbody | hlast
    · exact Or.inr ((bodyParts_ordered h.fits eMachine relocMapper).bounds.2 w hbody).2
    · rw [mem_singleton.mp hlast]
      exact Or.inl (le_rfl)
  have hkept := bytesAt_writes_of_apart (parts_inside h.fits eMachine relocMapper) hapart
  rw [h.eq]
  apply Eq.trans hkept
  rw [bytesAt, wpad, drop_replicate, take_replicate, min_eq_left (by omega)]

theorem ehdr_file : ehdr file = some (header code data oc eMachine) := by
  have hl := laid_out h.fits
  have hbytes : bytesAt file 0 64 =
      elfHeader eMachine (layout code data oc).shdrOff (indices data oc).numSections
        (indices data oc).shstrtabShndx := by
    rw [← length_elfHeader eMachine (layout code data oc).shdrOff (indices data oc).numSections
      (indices data oc).shstrtabShndx]
    exact bytesAt_body h (by simp [bodyParts])
  obtain ⟨hsmall, hlast⟩ := indices_small data oc
  have hmachine := eMachine.isLt
  have hbound := hl.bound
  have hshoff : (layout code data oc).shdrOff % 2 ^ 64 = (layout code data oc).shdrOff :=
    mod_eq_of_lt (by omega)
  have hnum : (indices data oc).numSections % 2 ^ 16 = (indices data oc).numSections :=
    mod_eq_of_lt (by omega)
  have hstr : (indices data oc).shstrtabShndx % 2 ^ 16 = (indices data oc).shstrtabShndx :=
    mod_eq_of_lt (by omega)
  rw [ehdr, hbytes, elfHeader]
  simp only [ehdrWidths, w8, w16, w32, w64, decodeFields_cons, decodeFields_nil, ehdrOf,
    pow_two_bytes, pow_eight_bytes, hshoff, hnum, hstr, mod_eq_of_lt hmachine]
  rfl

/-- The section headers read back are the ones laid out. -/
theorem shdr_file (hi : i < (namedSections code data oc).length) :
    shdr file (header code data oc eMachine) (i + 1) =
      some ((namedSections code data oc)[i]).2 := by
  have hrows : bytesAt file
      ((layout code data oc).shdrOff + 64) ((namedSections code data oc).length * 64) =
      ((namedSections code data oc).map encodeSection).flatten := by
    rw [← length_headers]
    apply bytesAt_file h
    rw [elfParts_eq]
    simp
  have hrow : bytesAt file
      ((layout code data oc).shdrOff + 64 + i * 64) 64 =
      encodeSection (namedSections code data oc)[i] := by
    rw [← bytesAt_bytesAt _ (n := (namedSections code data oc).length * 64) (by omega), hrows,
      ← flatMap_def]
    exact bytesAt_flatMap encodeSection length_encodeSection _ hi
  have hoff : (header code data oc eMachine).shoff + (i + 1) * (header code data oc eMachine).shentsize
      = (layout code data oc).shdrOff + 64 + i * 64 := by
    simp only [header]
    omega
  rw [shdr, hoff, hrow, encodeSection]
  exact decode_encodeShdr (section_fits h.fits (getElem_mem hi))

theorem shdr_null : shdr file (header code data oc eMachine) 0 = some nullSection := by
  have hoff : (header code data oc eMachine).shoff + 0 * (header code data oc eMachine).shentsize =
      (layout code data oc).shdrOff := by
    simp only [header]
    omega
  rw [shdr, hoff, bytesAt_nullHeader h]
  decide

theorem headers_file :
    (range (header code data oc eMachine).shnum).mapM
      (shdr file (header code data oc eMachine)) =
      some (nullSection :: (namedSections code data oc).map (·.2)) := by
  have hnum : (header code data oc eMachine).shnum =
      (nullSection :: (namedSections code data oc).map (·.2)).length := by
    rw [length_cons, length_map]
    exact numSections_eq code data oc
  rw [hnum]
  apply mapM_range
  intro i hi
  cases i with
  | zero => exact shdr_null h
  | succ i =>
    rw [length_cons, length_map] at hi
    rw [shdr_file h (Nat.lt_of_succ_lt_succ hi), getElem_cons_succ, getElem_map]

theorem decode_file : decodeObject file = some (object code data oc eMachine) := by
  have hnames : bytesAt file
      (layout code data oc).shstrtabOff shstrtabContent.length = shstrtabContent := by
    exact bytesAt_body h (by simp [bodyParts])
  have hsections : (nullSection :: (namedSections code data oc).map (·.2)).map
      (fun sh => (cstrAt shstrtabContent sh.name, sh)) =
      ([], nullSection) :: namedSections code data oc := by
    rw [map_cons, map_map]
    congr 1
    have hid : (namedSections code data oc).map
        ((fun sh => (cstrAt shstrtabContent sh.name, sh)) ∘ (·.2)) =
        (namedSections code data oc).map id := by
      apply map_congr_left
      intro s hs
      simp only [Function.comp_apply, sectionName_eq hs, id]
    rw [hid, map_id]
  rw [decodeObject, ehdr_file h]
  simp only [Option.bind_eq_bind, Option.bind_some]
  rw [headers_file h, Option.bind_some]
  have hat : (nullSection :: (namedSections code data oc).map (·.2))[
      (header code data oc eMachine).shstrndx]? = _ := shstrtab_at code data oc
  rw [hat, Option.bind_some]
  have hcontents : contents file
      (shstrtabSection code data oc) = shstrtabContent := hnames
  rw [hcontents, hsections]
  rfl

theorem contents_text : contents file (textSection code data oc) = code := by
  rw [contents, textSection]
  exact bytesAt_body h (by simp [bodyParts])

theorem contents_data (hdata : data.length > 0) :
    contents file (dataSection code data oc) = data := by
  rw [contents, dataSection]
  apply bytesAt_file h
  rw [elfParts_eq, bodyParts, if_pos (by simpa using hdata)]
  simp

theorem contents_relaText :
    contents file (relaTextSection code data oc) = relaRows data oc relocMapper oc.relocs := by
  have hsize : (layout code data oc).relaTextSize =
      (relaRows data oc relocMapper oc.relocs).length := by
    rw [length_relaRows]
    exact (layout_facts h.fits rfl).relaTextSize
  rw [contents, relaTextSection, hsize]
  exact bytesAt_body h (by simp [bodyParts])

theorem contents_relaData (hrelocs : oc.dataRelocs.length > 0) :
    contents file (relaDataSection code data oc) = relaRows data oc relocMapper oc.dataRelocs := by
  have hsize : (layout code data oc).relaDataSize =
      (relaRows data oc relocMapper oc.dataRelocs).length := by
    rw [length_relaRows]
    exact (layout_facts h.fits rfl).relaDataSize
  rw [contents, relaDataSection, hsize]
  apply bytesAt_file h
  have hsome : (if decide (oc.dataRelocs.length > 0) then
      [((layout code data oc).relaDataOff, relaRows data oc relocMapper oc.dataRelocs)]
      else []) = [((layout code data oc).relaDataOff, relaRows data oc relocMapper oc.dataRelocs)] :=
    if_pos (by simpa using hrelocs)
  rw [elfParts_eq, bodyParts, hsome]
  simp

theorem contents_strtab :
    contents file (strtabSection code data oc) = stringTable (oc.symbols.map (·.name)) := by
  have hsize : (layout code data oc).strtabSize =
      (stringTable (oc.symbols.map (·.name))).length := by
    rw [length_names_eq]
    exact (layout_facts h.fits rfl).strtabSize
  rw [contents, strtabSection, hsize]
  exact bytesAt_body h (by simp [bodyParts])

/-- A row of `.symtab` behind the null entry. -/
theorem symtab_row {k : Nat} (hk : k < firstPlace (decide
    (data.length > 0)) + oc.symbols.length) (hpos : 0 < k) :
    bytesAt (contents file (symtabSection code data oc))
      (k * 24) 24 = bytesAt (symtabRows data oc) ((k - 1) * 24) 24 := by
  have hl := laid_out h.fits
  have hrows := length_symtabRows data oc
  have hsize := hl.symtabSize
  have hpart : bytesAt file
      ((layout code data oc).symtabOff + 24) (symtabRows data oc).length = symtabRows data oc := by
    exact bytesAt_body h (by simp [bodyParts])
  have hin : bytesAt (symtabRows data oc) ((k - 1) * 24) 24 =
      bytesAt file
        ((layout code data oc).symtabOff + 24 + (k - 1) * 24) 24 := by
    rw [← bytesAt_bytesAt _ (n := (symtabRows data oc).length) (by omega), hpart]
  have hoff : (layout code data oc).symtabOff + 24 + (k - 1) * 24 =
      (layout code data oc).symtabOff + k * 24 := by omega
  have hle : k * 24 + 24 ≤ (layout code data oc).symtabSize := by
    rw [hsize]
    omega
  rw [hin, hoff]
  exact bytesAt_bytesAt _ hle

/-- The row of a symbol of the context. -/
theorem symtab_row_place (hi : i < oc.symbols.length) :
    bytesAt (contents file (symtabSection code data oc))
      (place (decide (data.length > 0)) oc i * 24) 24 =
      elfSymRow (indices data oc) (symbolPlan (decide (data.length > 0)) oc) oc i := by
  obtain ⟨p, hp, hplace, hat, -⟩ := place_spec (decide (data.length > 0)) oc hi
  have hfirst : firstPlace (decide (data.length > 0)) =
      1 + (if decide (data.length > 0) then 2 else 1) := rfl
  rw [symtab_row h (by omega) (by omega), hplace]
  have hsections : (elfSectionSym (indices data oc).textShndx ++
      (if decide (data.length > 0) then elfSectionSym (indices data oc).dataShndx else [])).length =
      (firstPlace (decide (data.length > 0)) - 1) * 24 := by
    rw [length_append, length_elfSectionSym, firstPlace]
    cases decide (data.length > 0) <;> simp
  have hoff : (firstPlace (decide (data.length > 0)) + p - 1) * 24 -
      (firstPlace (decide (data.length > 0)) - 1) * 24 = p * 24 := by omega
  obtain ⟨hlt, hget⟩ := List.getElem?_eq_some_iff.mp hat
  rw [symtabRows, bytesAt_append_right (by rw [hsections]; omega), hsections, hoff,
    bytesAt_flatMap _ (length_elfSymRow _ _ oc) _ hlt, hget]

theorem symAt_file (hi : i < oc.symbols.length) :
    symAt (contents file (symtabSection code data oc))
      (place (decide (data.length > 0)) oc i) =
      some
        { name := stringOffset (oc.symbols.map (·.name)) i
          info := (symBind oc.symbols[i] * 16 + symType oc.symbols[i]) % 256 ^ 1
          shndx := symShndx (indices data oc) oc.symbols[i]
          value := symValue oc.symbols[i] } := by
  have hget : oc.symbols.getD i emptySymbol = oc.symbols[i] := by
    rw [getD_eq_getElem?_getD, getElem?_eq_getElem hi, Option.getD_some]
  have hstr : stringOffset (oc.symbols.map (·.name)) i < 256 ^ 4 := by
    have hlt : i < (oc.symbols.map (·.name)).length := by
      rw [length_map]
      exact hi
    have hle := stringOffset_le hlt
    have hnames := h.names
    rw [length_names_eq] at hle
    omega
  have hshndx : symShndx (indices data oc) oc.symbols[i] < 256 ^ 2 := by
    have hix : (indices data oc).textShndx < 256 ^ 2 ∧ (indices data oc).dataShndx < 256 ^ 2 := by
      simp only [indices]
      cases decide (data.length > 0) <;> cases decide (oc.dataRelocs.length > 0) <;> decide
    rw [symShndx]
    split
    · split <;> omega
    · omega
  have hvalue : symValue oc.symbols[i] < 256 ^ 8 := by
    have hoff := oc.symbols[i].offset.isLt
    rw [symValue]
    split <;> omega
  rw [symAt, symtab_row_place h hi, elfSymRow, hget, strOffset_eq h.fits hi, elfSym]
  simp only [symWidths, w8, w16, w32, w64, decodeFields_cons, decodeFields_nil, symOf,
    mod_eq_of_lt hstr, mod_eq_of_lt hshndx, mod_eq_of_lt hvalue]

theorem symbol_file (hvalid : ContextValid oc)
    (hdata : ∀ sym ∈ oc.symbols, sym.isDefined → sym.sectionId = 2 → data ≠ [])
    (hi : i < oc.symbols.length) :
    (object code data oc eMachine).symbol file
      (symtabSection code data oc) (place (decide (data.length > 0)) oc i) =
      some (expectedSymbol oc.symbols[i]) := by
  have hmem := getElem_mem hi
  have hname : cstrAt (stringTable (oc.symbols.map (·.name)))
      (stringOffset (oc.symbols.map (·.name)) i) = oc.symbols[i].name := by
    have hlt : i < (oc.symbols.map (·.name)).length := by rw [length_map]; exact hi
    have hread := cstrAt_stringTable hlt (by rw [getElem_map]; exact hvalid.names _ hmem) []
    rw [append_nil, getElem_map] at hread
    exact hread
  have hsection : oc.symbols[i].isDefined →
      oc.symbols[i].sectionId = 1 ∨ (oc.symbols[i].sectionId = 2 ∧ data.length > 0) := by
    intro hdef
    rcases hvalid.sections _ hmem hdef with hone | htwo
    · exact Or.inl hone
    · exact Or.inr ⟨htwo, length_pos_iff.mpr (hdata _ hmem hdef htwo)⟩
  rw [Object.symbol, symAt_file h hi]
  simp only [Option.bind_eq_bind, Option.bind_some]
  rw [strtab_linked, Option.bind_some, contents_strtab h, hname, inSection_eq hsection, Sym.bind,
    symInfo_split]
  rfl

theorem ranges_inside {r : Nat × Nat} (hr : r ∈ (object code data oc eMachine).ranges) :
    r.1 + r.2 ≤ file.length := by
  obtain ⟨h1, h2, h3, h4, h5, h6, h7, h8, h9, h10, h11, h12, h13, -⟩ := laid_out h.fits
  rw [length_file h]
  rw [ranges_eq] at hr
  rcases mem_cons.mp hr with rfl | hr
  · simp only
    omega
  · rcases mem_cons.mp hr with rfl | hr
    · exact le_of_eq h13.symm
    · obtain ⟨s, hs, rfl⟩ := mem_map.mp hr
      have := section_bounds h.fits hs
      simp only
      omega

end Decoding

/-- Whatever the mix of symbols, an object file says what the context says, provided
that symbols are defined in the data only when there are data. -/
theorem object_faithful (code data : List UInt8) (oc : ObjfileCtx) (eMachine : BitVec 16)
    (relocMapper : UInt8 → RelocMapped) (hfit : SizesFit code data oc) (hvalid : ContextValid oc)
    (hdata : ∀ sym ∈ oc.symbols, sym.isDefined → sym.sectionId = 2 → data ≠ []) :
    Faithful code data oc eMachine relocMapper
      (writeElf code data oc eMachine relocMapper) := by
  have hl := laid_out hfit
  have hsize : (symtabSection code data oc).size / 24 =
      firstPlace (decide (data.length > 0)) + oc.symbols.length := by
    simp only [symtabSection, hl.symtabSize]
    omega
  refine ⟨object code data oc eMachine, symtabSection code data oc,
    place (decide (data.length > 0)) oc, decode_file ⟨hfit, rfl⟩, ?_⟩
  constructor
  case magic => rfl
  case kind => exact ⟨rfl, rfl, rfl⟩
  case machine => rfl
  case codeBytes => exact ⟨_, named_text, rfl, contents_text ⟨hfit, rfl⟩⟩
  case dataBytes =>
    rw [named_data]
    by_cases hempty : data = []
    · rw [if_pos hempty, if_neg (by simp [hempty])]
    · have hpos := length_pos_iff.mpr hempty
      rw [if_neg hempty]
      exact ⟨_, by rw [named_data, if_pos hpos], rfl, contents_data ⟨hfit, rfl⟩ hpos⟩
  case relaText =>
    refine ⟨_, named_relaText, rfl, hl.relaTextSize, ?_⟩
    intro i hi
    rw [contents_relaText ⟨hfit, rfl⟩]
    exact relaAt_rows hfit hi (hvalid.relocs _ (getElem_mem hi))
  case relaData =>
    rw [named_relaData]
    by_cases hempty : oc.dataRelocs = []
    · rw [if_pos hempty, if_neg (by simp [hempty])]
    · have hpos := length_pos_iff.mpr hempty
      rw [if_neg hempty]
      refine ⟨_, by rw [named_relaData, if_pos hpos], rfl, hl.relaDataSize, ?_⟩
      intro i hi
      rw [contents_relaData ⟨hfit, rfl⟩ hpos]
      exact relaAt_rows hfit hi (hvalid.dataRelocs _ (getElem_mem hi))
  case table => exact ⟨named_symtab, rfl⟩
  case symbol => exact fun i hi => symbol_file ⟨hfit, rfl⟩ hvalid hdata hi
  case oneEach => exact fun i hi j hj => place_inj _ oc hi hj
  case noOther =>
    intro k hlow hhigh
    have hfirst : firstPlace (decide (data.length > 0)) ≤ k := by
      rw [firstPlace]
      by_cases hempty : data = []
      · simpa [hempty] using hlow
      · have hpos := length_pos_iff.mpr hempty
        simpa [hempty, hpos] using hlow
    obtain ⟨i, hi, hplace⟩ := place_surj (decide (data.length > 0)) oc
      (p := k - firstPlace (decide (data.length > 0))) (by omega)
    exact ⟨i, hi, by omega⟩
  case inTable =>
    intro i hi
    obtain ⟨p, hp, hplace, -, -⟩ := place_spec (decide (data.length > 0)) oc hi
    omega
  case localsFirst =>
    intro i hi
    obtain ⟨p, hp, hplace, -, hside⟩ := place_spec (decide (data.length > 0)) oc hi
    have hinfo : (symtabSection code data oc).info =
        firstPlace (decide (data.length > 0)) + oc.symbols.countP isLocalDefinition := rfl
    rw [hplace, hinfo, Nat.add_lt_add_iff_left, hside, isLocalDefinition, expectedSymbol]
    cases oc.symbols[i].isDefined && oc.symbols[i].isLocal <;>
      cases oc.symbols[i].isWeak <;> simp
  case apart => exact ranges_apart hfit
  case inside => exact fun r hr => ranges_inside ⟨hfit, rfl⟩ hr

/-- A weak function, a local word of data, an undefined function and relocations of both kinds. -/
def sampleContext : ObjfileCtx :=
  { relocs := [⟨1, 0, lrRelocX8664Plt32⟩]
    dataRelocs := [⟨0, 1, lrRelocX866464⟩]
    symbols :=
      [{ name := chars ['p', 'u', 't', 's'], hash := 0, offset := 0, sectionId := 0
         isDefined := false, isLocal := false, isWeak := false },
        { name := chars ['f'], hash := 0, offset := 0, sectionId := 1
          isDefined := true, isLocal := false, isWeak := true },
        { name := chars ['w'], hash := 0, offset := 0, sectionId := 2
          isDefined := true, isLocal := true, isWeak := false }] }

theorem sampleContext_valid : ContextValid sampleContext := by
  constructor <;> decide

theorem sampleContext_fits (code data : List UInt8) (hcode : code.length < 2 ^ 32)
    (hdata : data.length < 2 ^ 32) : SizesFit code data sampleContext :=
  ⟨hcode, hdata, by decide, by decide, by decide, by decide⟩

theorem object_faithful_sample :
    Faithful [0xE8, 0, 0, 0, 0, 0xC3] [0, 0, 0, 0, 0, 0, 0, 0] sampleContext 62 elfRelocX8664
      (writeElf [0xE8, 0, 0, 0, 0, 0xC3] [0, 0, 0, 0, 0, 0, 0, 0] sampleContext 62
        elfRelocX8664) :=
  object_faithful _ _ sampleContext 62 elfRelocX8664
    (sampleContext_fits _ _ (by decide) (by decide)) sampleContext_valid (by decide)

/-- A word of data in a context without data. -/
def strayContext : ObjfileCtx :=
  { relocs := []
    dataRelocs := []
    symbols :=
      [{ name := chars ['w'], hash := 0, offset := 0, sectionId := 2
         isDefined := true, isLocal := false, isWeak := false }] }

/-- Without data there is no data section, and a symbol defined there is written as undefined. -/
theorem stray_data_symbol :
    SizesFit [0xC3] [] strayContext ∧ ContextValid strayContext ∧
      ¬ Faithful [0xC3] [] strayContext 62 elfRelocX8664
        (writeElf [0xC3] [] strayContext 62 elfRelocX8664) := by
  have hfit : SizesFit [0xC3] [] strayContext := by constructor <;> decide
  have hvalid : ContextValid strayContext := by constructor <;> decide
  refine ⟨hfit, hvalid, ?_⟩
  rintro ⟨o, symtab, index, hdecode, hdesc⟩
  obtain rfl : o = object [0xC3] [] strayContext 62 :=
    Option.some.inj (hdecode.symm.trans (decode_file ⟨hfit, rfl⟩))
  obtain rfl : symtab = symtabSection [0xC3] [] strayContext :=
    Option.some.inj (hdesc.table.1.symm.trans named_symtab)
  have hsymbol := hdesc.symbol 0 (by decide)
  have hlt : index 0 < 3 := hdesc.inTable 0 (by decide)
  have hnone : ∀ k < 3, (object [0xC3] [] strayContext 62).symbol
      (writeElf [0xC3] [] strayContext 62 elfRelocX8664) (symtabSection [0xC3] [] strayContext) k ≠
      some (expectedSymbol strayContext.symbols[0]) := by
    decide +kernel
  exact hnone (index 0) hlt hsymbol

end Liric.Guarantees.ElfRelocatable
