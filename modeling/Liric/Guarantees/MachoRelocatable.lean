import Mathlib.Tactic.IntervalCases
import Liric.Lib.MachO64
import Liric.Lib.TwoRuns
import Liric.Source.Object.MachoRelocatable

/-!
# Mach-O objects say what the context says

Header, commands, contents, relocations and symbols stand one behind the other, so each is
found again where the commands say. Definitions come first among the symbols, the
relocations go through the same permutation.
-/
namespace Liric.Guarantees.MachoRelocatable
open Lib Lib.MachO64 Source.Object List
open Nat (mod_eq_of_lt)
open Source.Ir (CStr)

variable {s : Section} {i k : Nat}

def dunderText : CStr := chars ['_', '_', 't', 'e', 'x', 't']
def dunderData : CStr := chars ['_', '_', 'd', 'a', 't', 'a']

/-- A symbol of the context as a linker should see it; only definitions that other
objects can see are weak. -/
def expectedSymbol (sym : ObjSymbol) : SymbolView :=
  { name := 0x5F :: sym.name
    isExternal := !(sym.isDefined && sym.isLocal)
    isWeakDef := sym.isDefined && !sym.isLocal && sym.isWeak
    inSection :=
      if sym.isDefined then some (if sym.sectionId = 1 then dunderText else dunderData) else none
    value := if sym.isDefined then sym.offset.toNat else 0 }

/-- A relocation of the context as a linker should see it; the field of the type has four bits. -/
def expectedRelocation (relocMapper : UInt8 → RelocMapped) (index : Nat → Nat) (r : ObjReloc) :
    RelocationInfo :=
  { address := r.offset.toNat
    symbolnum := index r.symbolIdx.toNat
    pcrel := (relocMapper r.type).isPcrel
    length := (machoRelocLength r.type).toNat
    isExternal := true
    type := (relocMapper r.type).nativeType.toNat % 16 }

/-- The named section holds exactly the bytes and has exactly the relocations listed. -/
def SectionIs (o : Object) (file : List UInt8) (name : CStr) (bytes : List UInt8)
    (relocMapper : UInt8 → RelocMapped) (index : Nat → Nat) (relocs : List ObjReloc) : Prop :=
  ∃ s, o.named name = some s ∧ contents file s = bytes ∧ s.nreloc = relocs.length ∧
    ∀ i (h : i < relocs.length),
      relocationAt file s i = some (expectedRelocation relocMapper index relocs[i])

/-- Byte `k` of the file pads the end of the code to a multiple of eight bytes. -/
def IsPadding (o : Object) (file : List UInt8) (k : Nat) : Prop :=
  ∃ s, o.named dunderText = some s ∧ s.offset + s.size ≤ k ∧ k < padUp (s.offset + s.size) 8 ∧
    file[k]? = some 0

section
variable (code data : List UInt8) (oc : ObjfileCtx) (cpuType : BitVec 32)
  (relocMapper : UInt8 → RelocMapped)

/-- What the object file says, with `index` the place of each symbol in the symbol table. -/
structure Describes (file : List UInt8) (o : Object) (index : Nat → Nat) : Prop where
  machine : o.header.cputype = cpuType.toNat
  text : SectionIs o file dunderText code relocMapper index oc.relocs
  dataPart : if data = [] then o.named dunderData = none
    else SectionIs o file dunderData data relocMapper index oc.dataRelocs
  count : o.symtab.nsyms = oc.symbols.length
  symbol : ∀ i (h : i < oc.symbols.length),
    o.symbol file (index i) = some (expectedSymbol oc.symbols[i])
  inTable : ∀ i < oc.symbols.length, index i < oc.symbols.length
  oneEach : ∀ i < oc.symbols.length, ∀ j < oc.symbols.length, index i = index j → i = j
  noOther : ∀ k < oc.symbols.length, ∃ i < oc.symbols.length, index i = k
  segment : o.segment.fileoff = 32 + o.header.sizeofcmds ∧ ∀ s ∈ o.sections,
    (o.segment.fileoff ≤ s.offset ∧ s.offset + s.size ≤ o.segment.fileoff + o.segment.filesize) ∧
    o.segment.vmaddr ≤ s.addr ∧ s.addr + s.size ≤ o.segment.vmaddr + o.segment.vmsize
  addresses : o.sections.Pairwise (fun s t => Apart s.addr s.size t.addr t.size)
  apart : o.ranges.Pairwise (fun r s => Apart r.1 r.2 s.1 s.2)
  inside : ∀ r ∈ o.ranges, r.1 + r.2 ≤ file.length
  covered : ∀ k < file.length, (∃ r ∈ o.ranges, r.1 ≤ k ∧ k < r.1 + r.2) ∨ IsPadding o file k

/-- The file decodes to the given code, data, symbols and relocations. -/
def Faithful (file : List UInt8) : Prop :=
  ∃ o index, decodeObject file = some o ∧ Describes code data oc cpuType relocMapper file o index

/-- All sizes are below `2 ^ 32`, with fewer than `2 ^ 24` symbols. -/
structure SizesFit : Prop where
  codeSize : code.length < 2 ^ 32
  dataSize : data.length < 2 ^ 32
  relocs : oc.relocs.length * 8 < 2 ^ 32
  dataRelocs : oc.dataRelocs.length * 8 < 2 ^ 32
  symbols : oc.symbols.length < 2 ^ 24
  names : 1 + (oc.symbols.map (fun sym => 1 + sym.name.length + 1)).sum < 2 ^ 32

/-- Names are C strings, symbol numbers and offsets in range, a definition is of code or data. -/
structure ContextValid : Prop where
  names : ∀ sym ∈ oc.symbols, 0 ∉ sym.name
  relocs : ∀ r ∈ oc.relocs, r.symbolIdx.toNat < oc.symbols.length ∧ r.offset.toNat < 2 ^ 31
  dataRelocs : ∀ r ∈ oc.dataRelocs, r.symbolIdx.toNat < oc.symbols.length ∧ r.offset.toNat < 2 ^ 31
  sections : ∀ sym ∈ oc.symbols, sym.isDefined → sym.sectionId = 1 ∨ sym.sectionId = 2

/-- Definitions of data and relocations of data are given only together with data. -/
structure DataPresent : Prop where
  symbols : ∀ sym ∈ oc.symbols, sym.isDefined → sym.sectionId = 2 → data ≠ []
  relocs : oc.dataRelocs ≠ [] → data ≠ []

/-- How long the file has to be. -/
def fileSize : Nat :=
  padUp (80 + 72 + 80 * (if data.length > 0 then 2 else 1) + code.length) 8 + data.length +
    oc.relocs.length * 8 + oc.dataRelocs.length * 8 + oc.symbols.length * 16 +
    (1 + (oc.symbols.map (fun sym => 1 + sym.name.length + 1)).sum)

end

@[simp] theorem length_machoReloc (relocMapper : UInt8 → RelocMapped) (remap : List Nat)
    (r : ObjReloc) : (machoReloc relocMapper remap r).length = 8 := by
  simp [machoReloc, w32]

@[simp] theorem length_machoSymRow (dataVmaddr : Nat) (strOffsets : List Nat) (oc : ObjfileCtx)
    (i : Nat) : (machoSymRow dataVmaddr strOffsets oc i).length = 16 := by
  simp [machoSymRow, machoSym, w8, w16, w32, w64]

@[simp] theorem length_machoHeader (cpuType : BitVec 32) (l : MachoLayout) :
    (machoHeader cpuType l).length = 32 := by
  simp [machoHeader, w32]

@[simp] theorem length_machoSegmentCommand (l : MachoLayout) (codeSize dataSize : Nat)
    (hasData : Bool) : (machoSegmentCommand l codeSize dataSize hasData).length = 72 := by
  simp [machoSegmentCommand, w32, w64, wpad]

@[simp] theorem length_machoSymtabCommand (l : MachoLayout) (oc : ObjfileCtx) :
    (machoSymtabCommand l oc).length = 24 := by
  simp [machoSymtabCommand, w32]

@[simp] theorem length_machoBuildVersionCommand : machoBuildVersionCommand.length = 24 := by
  simp [machoBuildVersionCommand, w32]

/-- The fields of the packed word read back. -/
theorem relocationOf_packed (address : Nat) (sym : BitVec 32) (mapped : RelocMapped)
    (liricType : UInt8) :
    relocationOf address (machoPacked sym mapped (machoRelocLength liricType)) =
      { address
        symbolnum := sym.toNat % 2 ^ 24
        pcrel := mapped.isPcrel
        length := (machoRelocLength liricType).toNat
        isExternal := true
        type := mapped.nativeType.toNat % 16 } := by
  obtain ⟨nativeType, addend, isPcrel⟩ := mapped
  have hlength : machoRelocLength liricType = 3 ∨ machoRelocLength liricType = 2 := by
    rw [machoRelocLength]
    split
    · exact Or.inl rfl
    · exact Or.inr rfl
  generalize machoRelocLength liricType = length at hlength
  generalize hword : machoPacked sym ⟨nativeType, addend, isPcrel⟩ length = word
  -- the fields are compared bit by bit
  obtain ⟨hsym, htype, hlen⟩ : word.extractLsb' 0 24 = sym.extractLsb' 0 24 ∧
      word.extractLsb' 28 4 = nativeType.extractLsb' 0 4 ∧
        word.extractLsb' 25 2 = length.extractLsb' 0 2 := by
    refine ⟨?_, ?_, ?_⟩
    all_goals
      apply BitVec.eq_of_getLsbD_eq
      intro k hk
      simp only [← hword, machoPacked, BitVec.getLsbD_extractLsb', BitVec.getLsbD_or,
        BitVec.getLsbD_and, BitVec.getLsbD_shiftLeft]
      rcases hlength with h | h <;> rw [h] <;> cases isPcrel <;> interval_cases k <;> simp
  have hpcrel : word.getLsbD 24 = isPcrel := by
    simp only [← hword, machoPacked, BitVec.getLsbD_or, BitVec.getLsbD_and,
      BitVec.getLsbD_shiftLeft]
    rcases hlength with h | h <;> rw [h] <;> cases isPcrel <;> simp
  have hexternal : word.getLsbD 27 = true := by
    simp [← hword, machoPacked]
  have hlow : (length.extractLsb' 0 2).toNat = length.toNat := by
    rcases hlength with h | h <;> rw [h] <;> rfl
  rw [relocationOf, hsym, htype, hlen, hpcrel, hexternal, hlow, BitVec.extractLsb'_toNat,
    BitVec.extractLsb'_toNat, Nat.shiftRight_zero, Nat.shiftRight_zero]

/-- Where a symbol of the context stands in the symbol table. -/
def place (oc : ObjfileCtx) (i : Nat) : Nat := runPlace ObjSymbol.isDefined oc.symbols i

/-- The loop has placed the first `done` symbols. -/
structure OrderInv (oc : ObjfileCtx) (done : Nat) (s : MachoOrder) : Prop where
  remap : s.symRemap = (range done).map (place oc)
  places : s.symOrder.length = oc.symbols.length
  di : s.di = (oc.symbols.take done).countP (·.isDefined)
  ui : s.ui = oc.symbols.countP (·.isDefined) + (oc.symbols.take done).countP (!·.isDefined)
  placed : ∀ j < done, s.symOrder[place oc j]? = some j

/-- The next symbol is put at its place. -/
theorem OrderInv.step {oc : ObjfileCtx} {done : Nat} {s t : MachoOrder} (h : OrderInv oc done s)
    (hlt : done < oc.symbols.length) (hremap : t.symRemap = s.symRemap ++ [place oc done])
    (horder : t.symOrder = s.symOrder.set (place oc done) done)
    (hdi : t.di = s.di + if oc.symbols[done].isDefined then 1 else 0)
    (hui : t.ui = s.ui + if oc.symbols[done].isDefined then 0 else 1) :
    OrderInv oc (done + 1) t := by
  constructor
  · rw [hremap, h.remap, range_succ, map_append, map_singleton]
  · rw [horder, length_set, h.places]
  · rw [hdi, h.di, take_add_one, getElem?_eq_getElem hlt, countP_append]
    cases hdef : oc.symbols[done].isDefined <;> simp [hdef]
  · rw [hui, h.ui, take_add_one, getElem?_eq_getElem hlt, countP_append]
    cases hdef : oc.symbols[done].isDefined <;> simp [hdef]
    omega
  · intro j hj
    rw [horder]
    rcases Nat.lt_succ_iff_lt_or_eq.mp hj with hbefore | rfl
    · have hne : place oc done ≠ place oc j := by
        intro heq
        have := runPlace_inj ObjSymbol.isDefined hlt (by omega : j < oc.symbols.length) heq
        omega
      rw [getElem?_set_ne hne, h.placed j hbefore]
    · rw [getElem?_set_self (by rw [h.places]; exact runPlace_lt _ hlt)]

theorem OrderInv.loop {oc : ObjfileCtx} {rest : List ObjSymbol} {done : Nat} {s : MachoOrder}
    (h : OrderInv oc done s) (hsplit : oc.symbols.drop done = rest)
    (hle : done ≤ oc.symbols.length) :
    OrderInv oc oc.symbols.length (machoOrderLoop rest done s) := by
  induction rest generalizing done s with
  | nil =>
    have hdone : oc.symbols.length = done := by
      have := drop_eq_nil_iff.mp hsplit
      omega
    rw [machoOrderLoop, hdone]
    exact h
  | cons sym rest ih =>
    have hlt : done < oc.symbols.length := by
      by_contra hge
      rw [drop_eq_nil_of_le (by omega)] at hsplit
      exact absurd hsplit (by simp)
    rw [drop_eq_getElem_cons hlt] at hsplit
    obtain ⟨hsym, hrest⟩ := cons.inj hsplit
    rw [machoOrderLoop]
    cases hdef : sym.isDefined with
    | true =>
      have hplace : place oc done = s.di := by
        rw [place, runPlace_true hlt (by rw [hsym, hdef]), h.di]
      rw [if_pos rfl]
      apply ih _ hrest hlt
      apply h.step hlt <;> simp [hplace, hsym, hdef]
    | false =>
      have hplace : place oc done = s.ui := by
        rw [place, runPlace_false hlt (by rw [hsym, hdef]), h.ui]
      rw [if_neg (by simp)]
      apply ih _ hrest hlt
      apply h.step hlt <;> simp [hplace, hsym, hdef]

theorem order_inv (oc : ObjfileCtx) : OrderInv oc oc.symbols.length (machoOrder oc) := by
  apply OrderInv.loop _ rfl (Nat.zero_le _)
  constructor <;> simp

theorem symRemap_getD {oc : ObjfileCtx} (h : i < oc.symbols.length) :
    (machoOrder oc).symRemap.getD i 0 = place oc i := by
  rw [(order_inv oc).remap]
  simp [h]

theorem symOrder_place {oc : ObjfileCtx} (h : i < oc.symbols.length) :
    ∃ hp : place oc i < (machoOrder oc).symOrder.length, (machoOrder oc).symOrder[place oc i] = i :=
  List.getElem?_eq_some_iff.mp ((order_inv oc).placed i h)

/-- The names as they stand in the string table. -/
def tableNames (oc : ObjfileCtx) : List (List UInt8) := oc.symbols.map (fun sym => 0x5F :: sym.name)

theorem machoStrtab_eq (oc : ObjfileCtx) : machoStrtab oc = stringTable (tableNames oc) := by
  rw [machoStrtab, stringTable, tableNames, flatMap_map]

theorem length_machoStrtab (oc : ObjfileCtx) :
    (machoStrtab oc).length = 1 + (oc.symbols.map (fun sym => 1 + sym.name.length + 1)).sum := by
  rw [machoStrtab_eq, length_stringTable, tableNames, map_map]
  congr 2
  apply map_congr_left
  intro sym _
  simp only [Function.comp_apply, length_cons]
  omega

theorem strOffsetsLoop_size (syms : List ObjSymbol) (base : Nat) :
    (machoStrOffsetsLoop syms base).2 =
      base + (syms.map (fun sym => 1 + sym.name.length + 1)).sum := by
  induction syms generalizing base with
  | nil => rfl
  | cons sym syms ih =>
    rw [machoStrOffsetsLoop, ih, map_cons, sum_cons]
    omega

theorem strOffsetsLoop_getElem? {syms : List ObjSymbol} (h : i < syms.length) (base : Nat) :
    (machoStrOffsetsLoop syms base).1[i]? =
      some ((base + ((syms.take i).map (fun sym => 1 + sym.name.length + 1)).sum) % 2 ^ 32) := by
  induction syms generalizing base i with
  | nil => exact absurd h (Nat.not_lt_zero i)
  | cons sym syms ih =>
    rw [machoStrOffsetsLoop]
    cases i with
    | zero => simp
    | succ i =>
      rw [getElem?_cons_succ, ih (Nat.lt_of_succ_lt_succ h), take_succ_cons,
        map_cons, sum_cons]
      congr 2
      omega

theorem strOffset_eq {code data : List UInt8} {oc : ObjfileCtx} (h : SizesFit code data oc)
    (hi : i < oc.symbols.length) :
    (machoStrOffsetsLoop oc.symbols 1).1.getD i 0 = stringOffset (tableNames oc) i := by
  have hat := strOffsetsLoop_getElem? hi 1
  have hle : ((oc.symbols.take i).map (fun sym => 1 + sym.name.length + 1)).sum ≤
      (oc.symbols.map (fun sym => 1 + sym.name.length + 1)).sum := by
    conv_rhs => rw [← take_append_drop i oc.symbols, map_append, sum_append]
    omega
  have hnames := h.names
  have hsame : (tableNames oc).take i = (oc.symbols.take i).map (fun sym => 0x5F :: sym.name) := by
    rw [tableNames, map_take]
  rw [mod_eq_of_lt (by omega)] at hat
  rw [getD_eq_getElem?_getD, hat, Option.getD_some, stringOffset, hsame, map_map]
  congr 2
  apply map_congr_left
  intro sym _
  simp only [Function.comp_apply, length_cons]
  omega

def layout (code data : List UInt8) (oc : ObjfileCtx) : MachoLayout :=
  machoLayout code.length data.length oc

def sectionCount (data : List UInt8) : Nat := if data.length > 0 then 2 else 1

/-- The offsets and sizes with nothing cut off. -/
structure LayoutFacts (code data : List UInt8) (oc : ObjfileCtx) (l : MachoLayout) : Prop where
  numSections : l.numSections = sectionCount data
  segmentCmdSize : l.segmentCmdSize = 72 + sectionCount data * 80
  sizeofcmds : l.sizeofcmds = 72 + sectionCount data * 80 + 48
  textFileOff : l.textFileOff = 32 + l.sizeofcmds
  dataFileOff : l.dataFileOff = padUp (l.textFileOff + code.length) 8
  dataPad : l.dataPad = l.dataFileOff - (l.textFileOff + code.length)
  dataVmaddr : l.dataVmaddr = if data.length > 0 then padUp code.length 8 else 0
  textRelocOff : l.textRelocOff = l.dataFileOff + data.length
  dataRelocOff : l.dataRelocOff = l.textRelocOff + oc.relocs.length * 8
  symtabOff : l.symtabOff = l.dataRelocOff + oc.dataRelocs.length * 8
  strtabOff : l.strtabOff = l.symtabOff + oc.symbols.length * 16
  strtabSize : l.strtabSize = (machoStrtab oc).length
  totalSize : l.totalSize = l.strtabOff + l.strtabSize

theorem layout_facts {code data : List UInt8} {oc : ObjfileCtx} (h : SizesFit code data oc) :
    LayoutFacts code data oc (layout code data oc) := by
  have hsymbols := h.symbols
  have hrelocs : oc.relocs.length * 8 % 2 ^ 32 = oc.relocs.length * 8 := mod_eq_of_lt h.relocs
  have hdataRelocs : oc.dataRelocs.length * 8 % 2 ^ 32 = oc.dataRelocs.length * 8 :=
    mod_eq_of_lt h.dataRelocs
  have hrows : oc.symbols.length * 16 % 2 ^ 32 = oc.symbols.length * 16 :=
    mod_eq_of_lt (by omega)
  have hdata : (if data.length > 0 then data.length else 0) = data.length := by
    rcases Nat.eq_zero_or_pos data.length with hzero | hpos <;> simp [*]
  have hcount : (if data.length > 0 then 2 else 1) = sectionCount data := rfl
  have hnames : (machoStrOffsetsLoop oc.symbols 1).2 = (machoStrtab oc).length := by
    rw [strOffsetsLoop_size, length_machoStrtab]
  constructor <;>
    simp only [layout, machoLayout, hrelocs, hdataRelocs, hrows, hdata, hcount, hnames, objAlignUp,
      decide_eq_true_eq] <;>
    omega

/-- The padding behind the code. -/
theorem LayoutFacts.padded {code data : List UInt8} {oc : ObjfileCtx} {l : MachoLayout}
    (h : LayoutFacts code data oc l) :
    l.textFileOff + code.length ≤ l.dataFileOff ∧ l.dataFileOff ≤ l.textFileOff + code.length + 7 := by
  have hlow : l.textFileOff + code.length ≤ padUp (l.textFileOff + code.length) 8 :=
    le_padUp _ (by omega)
  have hhigh := padUp_le (l.textFileOff + code.length) 8
  have heq := h.dataFileOff
  omega

theorem totalSize_eq {code data : List UInt8} {oc : ObjfileCtx} (h : SizesFit code data oc) :
    (layout code data oc).totalSize = fileSize code data oc := by
  obtain ⟨-, -, h3, h4, h5, -, -, h8, h9, h10, h11, h12, h13⟩ := layout_facts h
  have hnames := length_machoStrtab oc
  have hstart : (layout code data oc).textFileOff =
      80 + 72 + 80 * (if data.length > 0 then 2 else 1) := by
    rw [h4, h3, sectionCount]
    omega
  rw [h13, h12, h11, h10, h9, h8, h5, hstart, hnames, fileSize]

section
variable (code data : List UInt8) (oc : ObjfileCtx)

def textSection : Section :=
  { sectname := dunderText
    segname := chars ['_', '_', 'T', 'E', 'X', 'T']
    addr := 0
    size := code.length
    offset := (layout code data oc).textFileOff
    align := 2
    reloff := (layout code data oc).textRelocOff
    nreloc := oc.relocs.length
    flags := 0x80000400 }

def dataSection : Section :=
  { sectname := dunderData
    segname := chars ['_', '_', 'D', 'A', 'T', 'A']
    addr := (layout code data oc).dataVmaddr
    size := data.length
    offset := (layout code data oc).dataFileOff
    align := 3
    reloff := if oc.dataRelocs.length > 0 then (layout code data oc).dataRelocOff else 0
    nreloc := oc.dataRelocs.length
    flags := 0 }

def sections : List Section :=
  [textSection code data oc] ++ (if data.length > 0 then [dataSection code data oc] else [])

def encodeSection (s : Section) : List UInt8 :=
  machoSection s.sectname s.segname s.addr s.size s.offset s.align s.reloff s.nreloc s.flags

@[simp] theorem length_machoName (name : CStr) : (machoName name).length = 16 := by
  simp [machoName, wpad]

theorem fixedName_machoName {name : CStr} (h : name.length ≤ 16) (hnul : 0 ∉ name)
    (rest : List UInt8) : fixedName (machoName name ++ rest) = name := by
  have hall : ∀ b ∈ name, (b != 0) = true := by
    intro b hb
    simp only [bne_iff_ne, ne_eq]
    intro hzero
    exact hnul (hzero ▸ hb)
  rw [fixedName, take_left' (length_machoName name), machoName, take_append,
    take_of_length_le h, takeWhile_append_of_pos hall, wpad, take_replicate]
  cases min (16 - name.length) 16 <;> simp [replicate_succ]

/-- The names of a section fit their fields. -/
structure NamesFit (s : Section) : Prop where
  sectname : s.sectname.length ≤ 16
  segname : s.segname.length ≤ 16
  sectnameNul : 0 ∉ s.sectname
  segnameNul : 0 ∉ s.segname

theorem sections_named {code data : List UInt8} {oc : ObjfileCtx} (hs : s ∈ sections code data oc) :
    NamesFit s := by
  simp only [sections, mem_append, mem_singleton, mem_ite_nil_right] at hs
  rcases hs with rfl | ⟨-, rfl⟩ <;> constructor <;>
    simp [textSection, dataSection, dunderText, dunderData, chars]

@[simp] theorem length_encodeSection (s : Section) : (encodeSection s).length = 80 := by
  simp [encodeSection, machoSection, w32, w64]

theorem machoSections_eq :
    machoSections (layout code data oc) code.length data.length (decide (data.length > 0)) oc =
      (sections code data oc).map encodeSection := by
  rw [machoSections, sections, map_append, apply_ite (List.map encodeSection)]
  simp only [decide_eq_true_eq]
  rfl

theorem length_sections : (sections code data oc).length = sectionCount data := by
  rw [sections, sectionCount]
  split <;> rfl

theorem length_sectionBytes :
    ((sections code data oc).map encodeSection).flatten.length = sectionCount data * 80 := by
  rw [← flatMap_def, length_flatMap_width _ length_encodeSection, length_sections]

/-- The load commands with their numbers. -/
def commands : List (Nat × List UInt8) :=
  [(0x19, machoSegmentCommand (layout code data oc) code.length data.length
      (decide (data.length > 0)) ++ ((sections code data oc).map encodeSection).flatten),
    (2, machoSymtabCommand (layout code data oc) oc), (0x32, machoBuildVersionCommand)]

theorem machoCommands_eq (cpuType : BitVec 32) :
    machoCommands (layout code data oc) code.length data.length oc cpuType =
      machoHeader cpuType (layout code data oc) ++ (commands code data oc).flatMap (·.2) := by
  rw [machoCommands, machoSections_eq, commands]
  simp only [flatMap_cons, flatMap_nil, append_assoc, append_nil]

theorem length_commands :
    ((commands code data oc).flatMap (·.2)).length = 72 + sectionCount data * 80 + 48 := by
  rw [commands]
  simp only [flatMap_cons, flatMap_nil, length_append, length_nil, length_machoSegmentCommand,
    length_sectionBytes, length_machoSymtabCommand, length_machoBuildVersionCommand]

def relocRows (relocMapper : UInt8 → RelocMapped) (rs : List ObjReloc) : List UInt8 :=
  rs.flatMap (machoReloc relocMapper (machoOrder oc).symRemap)

def symtabRows : List UInt8 :=
  (machoOrder oc).symOrder.flatMap
    (machoSymRow (layout code data oc).dataVmaddr (machoStrOffsetsLoop oc.symbols 1).1 oc)

theorem machoParts_eq (cpuType : BitVec 32) (relocMapper : UInt8 → RelocMapped) :
    machoParts code data oc cpuType relocMapper =
      [(0, machoHeader cpuType (layout code data oc) ++ (commands code data oc).flatMap (·.2)),
        ((layout code data oc).textFileOff, code)] ++
      (if decide (data.length > 0) then [((layout code data oc).dataFileOff, data)] else []) ++
      [((layout code data oc).textRelocOff, relocRows oc relocMapper oc.relocs),
        ((layout code data oc).dataRelocOff, relocRows oc relocMapper oc.dataRelocs),
        ((layout code data oc).symtabOff, symtabRows code data oc),
        ((layout code data oc).strtabOff, machoStrtab oc)] := by
  rw [← machoCommands_eq]
  rfl

theorem length_relocRows (relocMapper : UInt8 → RelocMapped)
    (rs : List ObjReloc) : (relocRows oc relocMapper rs).length = rs.length * 8 :=
  length_flatMap_width _ (length_machoReloc relocMapper _) rs

theorem length_symtabRows : (symtabRows code data oc).length = oc.symbols.length * 16 := by
  rw [symtabRows, length_flatMap_width _ (length_machoSymRow _ _ oc), (order_inv oc).places]

end

theorem parts_ordered {code data : List UInt8} {oc : ObjfileCtx} (h : SizesFit code data oc)
    (cpuType : BitVec 32) (relocMapper : UInt8 → RelocMapped) :
    Ordered 0 (machoParts code data oc cpuType relocMapper) (layout code data oc).totalSize := by
  have hpadded := (layout_facts h).padded
  obtain ⟨-, -, h3, h4, -, -, -, h8, h9, h10, h11, h12, h13⟩ := layout_facts h
  rw [machoParts_eq]
  apply Ordered.append (m := (layout code data oc).textRelocOff)
  · apply Ordered.append (m := (layout code data oc).dataFileOff)
    · simp only [Ordered, length_append, length_machoHeader, length_commands]
      omega
    · exact Ordered.optional (le_rfl) (le_of_eq h8.symm)
  · simp only [Ordered, length_relocRows, length_symtabRows]
    omega

section Decoding
variable {code data : List UInt8} {oc : ObjfileCtx} {cpuType : BitVec 32}
  {relocMapper : UInt8 → RelocMapped} {file : List UInt8}

section
variable (code data : List UInt8) (oc : ObjfileCtx)

def header (cpuType : BitVec 32) : Header :=
  { magic := 0xFEEDFACF
    cputype := cpuType.toNat
    cpusubtype := 0
    filetype := 1
    ncmds := 3
    sizeofcmds := (layout code data oc).sizeofcmds
    flags := 0x2000 }

def segment : Segment :=
  { vmaddr := 0
    vmsize := if data.length > 0 then (layout code data oc).dataVmaddr + data.length else code.length
    fileoff := (layout code data oc).textFileOff
    filesize := code.length +
      (if data.length > 0 then (layout code data oc).dataPad + data.length else 0)
    maxprot := 7
    initprot := 7
    nsects := sectionCount data }

def symtab : Symtab :=
  { symoff := (layout code data oc).symtabOff
    nsyms := oc.symbols.length
    stroff := (layout code data oc).strtabOff
    strsize := (layout code data oc).strtabSize }

/-- The object that the file decodes to. -/
def object (cpuType : BitVec 32) : Object :=
  { header := header code data oc cpuType
    segment := segment code data oc
    sections := sections code data oc
    symtab := symtab code data oc }

theorem sectionCount_le (data : List UInt8) : 1 ≤ sectionCount data ∧ sectionCount data ≤ 2 := by
  rw [sectionCount]
  split <;> omega

/-- The command that loads the segment, with its sections. -/
def segmentBytes : List UInt8 :=
  machoSegmentCommand (layout code data oc) code.length data.length (decide (data.length > 0)) ++
    ((sections code data oc).map encodeSection).flatten

/-- The fields of the command that loads the segment, its sections among them. -/
theorem segmentCommand_flatten :
    segmentBytes code data oc =
      (w32 0x19 :: w32 (layout code data oc).segmentCmdSize :: wpad 16 :: w64 0 ::
        w64 (segment code data oc).vmsize :: w64 (segment code data oc).fileoff ::
        w64 (segment code data oc).filesize :: w32 7 :: w32 7 ::
        w32 (layout code data oc).numSections :: w32 0 ::
        (sections code data oc).map encodeSection).flatten := by
  rw [segmentBytes, machoSegmentCommand, ← flatten_append]
  simp only [decide_eq_true_eq]
  rfl

end

theorem commands_wellSized (h : SizesFit code data oc) {c : Nat × List UInt8}
    (hc : c ∈ commands code data oc) : IsCommand c := by
  have hsize := (layout_facts h).segmentCmdSize
  have hcount := sectionCount_le data
  simp only [commands, mem_cons, not_mem_nil, or_false] at hc
  rcases hc with rfl | rfl | rfl
  · change IsCommand (0x19, segmentBytes code data oc)
    rw [segmentCommand_flatten]
    apply isCommand_fields (by norm_num) _ (by omega)
    rw [← w32, ← w32, ← segmentCommand_flatten, segmentBytes, length_append,
      length_machoSegmentCommand, length_sectionBytes, hsize]
  · exact isCommand_fields (by norm_num) (length_machoSymtabCommand _ _) (by norm_num)
  · exact isCommand_fields (by norm_num) length_machoBuildVersionCommand (by norm_num)

/-- Everything that goes into a field of 32 bits fits. -/
structure FieldsFit (code data : List UInt8) (oc : ObjfileCtx) : Prop where
  textFileOff : (layout code data oc).textFileOff < 2 ^ 32
  dataFileOff : (layout code data oc).dataFileOff < 2 ^ 32
  textRelocOff : (layout code data oc).textRelocOff < 2 ^ 32
  dataRelocOff : (layout code data oc).dataRelocOff < 2 ^ 32
  symtabOff : (layout code data oc).symtabOff < 2 ^ 32
  strtabOff : (layout code data oc).strtabOff < 2 ^ 32
  strtabSize : (layout code data oc).strtabSize < 2 ^ 32
  relocs : oc.relocs.length < 2 ^ 32
  dataRelocs : oc.dataRelocs.length < 2 ^ 32
  symbols : oc.symbols.length < 2 ^ 32
  filesize : (segment code data oc).filesize < 2 ^ 64
  vmsize : (segment code data oc).vmsize < 2 ^ 64
  dataVmaddr : (layout code data oc).dataVmaddr < 2 ^ 64
  sizes : code.length < 2 ^ 64 ∧ data.length < 2 ^ 64

theorem fields_fit (h : SizesFit code data oc) (hfile : fileSize code data oc < 2 ^ 32) :
    FieldsFit code data oc := by
  have htotal := totalSize_eq h
  have hpadded := (layout_facts h).padded
  obtain ⟨-, -, h3, h4, -, h6, h7, h8, h9, h10, h11, h12, h13⟩ := layout_facts h
  obtain ⟨hcode, hdata, hrelocs, hdataRelocs, hsymbols, -⟩ := h
  have hvm : (layout code data oc).dataVmaddr ≤ code.length + 7 := by
    have hpad := padUp_le code.length 8
    rw [h7]
    split <;> omega
  have hvmsize : (segment code data oc).vmsize < 2 ^ 64 := by
    simp only [segment]
    split <;> omega
  have hfilesize : (segment code data oc).filesize < 2 ^ 64 := by
    simp only [segment]
    split <;> omega
  constructor <;> omega

/-- The segment as its fields hold it. -/
def cutSegment (g : Segment) : Segment :=
  { g with
    vmsize := g.vmsize % 2 ^ 64
    fileoff := g.fileoff % 2 ^ 64
    filesize := g.filesize % 2 ^ 64 }

theorem segment_fits (hfit : FieldsFit code data oc) :
    cutSegment (segment code data oc) = segment code data oc := by
  have hoff : (segment code data oc).fileoff < 2 ^ 64 :=
    lt_of_lt_of_le hfit.textFileOff (by norm_num)
  rw [cutSegment, mod_eq_of_lt hfit.vmsize, mod_eq_of_lt hfit.filesize,
    mod_eq_of_lt hoff]

theorem segment_file (h : SizesFit code data oc) :
    segmentOf (decodeFields segmentWidths ((segmentBytes code data oc).drop 24)) =
      some (cutSegment (segment code data oc)) := by
  have hcount := sectionCount_le data
  have hnum : (layout code data oc).numSections % 2 ^ 32 = sectionCount data := by
    rw [(layout_facts h).numSections]
    exact mod_eq_of_lt (by omega)
  have hdrop : ∀ rest : List (List UInt8),
      (w32 0x19 :: w32 (layout code data oc).segmentCmdSize :: wpad 16 :: rest).flatten.drop 24 =
        rest.flatten := by
    intro rest
    rw [flatten_cons, flatten_cons, flatten_cons, ← append_assoc,
      ← append_assoc, drop_left' (by simp [w32, wpad])]
  rw [segmentCommand_flatten, hdrop]
  simp only [segmentWidths, w32, w64, decodeFields_cons, decodeFields_nil, segmentOf,
    pow_four_bytes, pow_eight_bytes, hnum]
  rfl

/-- A section as its fields hold it. -/
def cutSection (s : Section) : Section :=
  { s with
    addr := s.addr % 2 ^ 64
    size := s.size % 2 ^ 64
    offset := s.offset % 2 ^ 32
    align := s.align % 2 ^ 32
    reloff := s.reloff % 2 ^ 32
    nreloc := s.nreloc % 2 ^ 32
    flags := s.flags % 2 ^ 32 }

theorem sections_fit (hfit : FieldsFit code data oc) (hs : s ∈ sections code data oc) :
    cutSection s = s := by
  obtain ⟨h1, h2, h3, h4, -, -, -, h8, h9, -, -, -, h13, hcode, hdata⟩ := hfit
  simp only [sections, mem_append, mem_singleton, mem_ite_nil_right] at hs
  rcases hs with rfl | ⟨-, rfl⟩
  · simp only [cutSection, textSection, Nat.zero_mod, mod_eq_of_lt hcode, mod_eq_of_lt h1,
      mod_eq_of_lt h3, mod_eq_of_lt h8]
    rfl
  · have hreloff : (if oc.dataRelocs.length > 0 then (layout code data oc).dataRelocOff else 0) %
        2 ^ 32 = if oc.dataRelocs.length > 0 then (layout code data oc).dataRelocOff else 0 := by
      apply mod_eq_of_lt
      split <;> omega
    simp only [cutSection, dataSection, Nat.zero_mod, mod_eq_of_lt hdata, mod_eq_of_lt h2,
      mod_eq_of_lt h9, mod_eq_of_lt h13, hreloff]
    rfl

theorem decode_encodeSection (hname : NamesFit s) :
    sectionOf (fixedName (encodeSection s)) (fixedName ((encodeSection s).drop 16))
      (decodeFields sectionWidths ((encodeSection s).drop 32)) = some (cutSection s) := by
  have hdrop : (encodeSection s).drop 32 =
      [w64 s.addr, w64 s.size, w32 s.offset, w32 s.align, w32 s.reloff, w32 s.nreloc, w32 s.flags,
        w32 0, w32 0, w32 0].flatten :=
    drop_left' (by simp)
  have hsegname : fixedName ((encodeSection s).drop 16) = s.segname := by
    rw [encodeSection, machoSection, append_assoc, drop_left' (length_machoName _),
      fixedName_machoName hname.segname hname.segnameNul]
  have hsectname : fixedName (encodeSection s) = s.sectname := by
    rw [encodeSection, machoSection, append_assoc,
      fixedName_machoName hname.sectname hname.sectnameNul]
  rw [hsectname, hsegname, hdrop]
  simp only [sectionWidths, w32, w64, decodeFields_cons, decodeFields_nil, sectionOf,
    pow_four_bytes, pow_eight_bytes, cutSection]

theorem section_file (hi : i < (sections code data oc).length) :
    sectionAt (segmentBytes code data oc) i = some (cutSection (sections code data oc)[i]) := by
  have hrow : bytesAt (segmentBytes code data oc) (72 + i * 80) 80 =
      encodeSection (sections code data oc)[i] := by
    rw [segmentBytes, bytesAt_append_right (by rw [length_machoSegmentCommand]; omega),
      length_machoSegmentCommand, Nat.add_sub_cancel_left, ← flatMap_def,
      bytesAt_flatMap _ length_encodeSection _ hi]
  simp only [sectionAt, hrow]
  exact decode_encodeSection (sections_named (getElem_mem hi))

/-- The symbol table as its fields hold it. -/
def cutSymtab (t : Symtab) : Symtab :=
  { symoff := t.symoff % 2 ^ 32
    nsyms := t.nsyms % 2 ^ 32
    stroff := t.stroff % 2 ^ 32
    strsize := t.strsize % 2 ^ 32 }

theorem symtab_fits (hfit : FieldsFit code data oc) :
    cutSymtab (symtab code data oc) = symtab code data oc := by
  simp only [cutSymtab, symtab, mod_eq_of_lt hfit.symtabOff, mod_eq_of_lt hfit.symbols,
    mod_eq_of_lt hfit.strtabOff, mod_eq_of_lt hfit.strtabSize]

theorem symtab_file (code data : List UInt8) (oc : ObjfileCtx) :
    symtabOf (decodeFields symtabWidths
      ((machoSymtabCommand (layout code data oc) oc).drop 8)) =
      some (cutSymtab (symtab code data oc)) := by
  have hdrop : (machoSymtabCommand (layout code data oc) oc).drop 8 =
      [w32 (layout code data oc).symtabOff, w32 oc.symbols.length,
        w32 (layout code data oc).strtabOff, w32 (layout code data oc).strtabSize].flatten := by
    rw [machoSymtabCommand, flatten_cons, flatten_cons, ← append_assoc, drop_left' (by simp [w32])]
  rw [hdrop]
  simp only [symtabWidths, w32, decodeFields_cons, decodeFields_nil, symtabOf, pow_four_bytes]
  rfl

theorem named_text : (object code data oc cpuType).named dunderText =
    some (textSection code data oc) := rfl

theorem named_data : (object code data oc cpuType).named dunderData =
    if data.length > 0 then some (dataSection code data oc) else none := by
  simp only [Object.named, object, sections]
  split <;> rfl

/-- The section number of a definition leads to its section. -/
theorem section_of {sym : ObjSymbol}
    (hsection : sym.sectionId = 1 ∨ (sym.sectionId = 2 ∧ data.length > 0)) :
    0 < sym.sectionId.toNat ∧ ∃ s, (sections code data oc)[sym.sectionId.toNat - 1]? = some s ∧
      s.sectname = (if sym.sectionId = 1 then dunderText else dunderData) ∧
      s.addr = if sym.sectionId == 2 then (layout code data oc).dataVmaddr else 0 := by
  rcases hsection with hone | ⟨htwo, hdata⟩
  · rw [hone]
    exact ⟨by decide, textSection code data oc, rfl, rfl, rfl⟩
  · rw [htwo]
    refine ⟨by decide, dataSection code data oc, ?_, rfl, rfl⟩
    rw [sections, if_pos hdata]
    rfl

theorem text_mem : textSection code data oc ∈ sections code data oc :=
  mem_append_left _ mem_cons_self

theorem data_mem (hdata : data.length > 0) : dataSection code data oc ∈ sections code data oc := by
  rw [sections, if_pos hdata]
  exact mem_append_right _ mem_cons_self

theorem ranges_eq : (object code data oc cpuType).ranges =
    (0, (layout code data oc).textFileOff) ::
      ((sections code data oc).map (fun s => (s.offset, s.size)) ++
        (sections code data oc).map (fun s => (s.reloff, s.nreloc * 8)) ++
        [((layout code data oc).symtabOff, oc.symbols.length * 16),
          ((layout code data oc).strtabOff, (layout code data oc).strtabSize)]) := rfl

theorem dataReloff_eq (code data : List UInt8) (oc : ObjfileCtx) :
    (dataSection code data oc).reloff = (layout code data oc).dataRelocOff ∨
      (dataSection code data oc).reloff = 0 ∧ oc.dataRelocs.length = 0 := by
  simp only [dataSection]
  split
  · exact Or.inl rfl
  · exact Or.inr ⟨rfl, by omega⟩

section
variable (h : SizesFit code data oc)
include h

theorem ranges_apart :
    (object code data oc cpuType).ranges.Pairwise (fun r s => Apart r.1 r.2 s.1 s.2) := by
  have hpadded := (layout_facts h).padded
  have hreloff := dataReloff_eq code data oc
  obtain ⟨-, -, -, h4, -, -, -, h8, h9, h10, h11, -, -⟩ := layout_facts h
  rw [ranges_eq]
  by_cases hdata : data.length > 0
  · simp only [sections, if_pos hdata, map_cons, map_nil, cons_append,
      nil_append, pairwise_cons, mem_cons, not_mem_nil, or_false,
      forall_eq_or_imp, forall_eq, false_imp_iff, implies_true, List.Pairwise.nil, and_true, Apart]
    simp only [textSection, dataSection] at hreloff ⊢
    and_intros <;> omega
  · simp only [sections, if_neg hdata, append_nil, map_cons, map_nil, cons_append, nil_append,
      pairwise_cons, mem_cons, not_mem_nil, or_false, forall_eq_or_imp, forall_eq, false_imp_iff,
      implies_true, List.Pairwise.nil, and_true, Apart]
    simp only [textSection]
    and_intros <;> omega

theorem segment_covers (hs : s ∈ sections code data oc) :
    ((segment code data oc).fileoff ≤ s.offset ∧
      s.offset + s.size ≤ (segment code data oc).fileoff + (segment code data oc).filesize) ∧
    (segment code data oc).vmaddr ≤ s.addr ∧
      s.addr + s.size ≤ (segment code data oc).vmaddr + (segment code data oc).vmsize := by
  have hpadded := (layout_facts h).padded
  have hdataPad := (layout_facts h).dataPad
  have hvm := (layout_facts h).dataVmaddr
  have hlow : code.length ≤ padUp code.length 8 := le_padUp _ (by omega)
  simp only [sections, mem_append, mem_singleton, mem_ite_nil_right] at hs
  rcases hs with rfl | ⟨hdata, rfl⟩
  · simp only [segment, textSection]
    by_cases hdata : data.length > 0
    · rw [if_pos hdata] at hvm
      simp only [if_pos hdata]
      omega
    · simp only [if_neg hdata]
      omega
  · simp only [segment, dataSection, if_pos hdata]
    omega

theorem addresses_apart :
    (sections code data oc).Pairwise (fun s t => Apart s.addr s.size t.addr t.size) := by
  have hvm := (layout_facts h).dataVmaddr
  have hlow : code.length ≤ padUp code.length 8 := le_padUp _ (by omega)
  by_cases hdata : data.length > 0
  · rw [if_pos hdata] at hvm
    simp only [sections, if_pos hdata, cons_append, nil_append, pairwise_cons,
      mem_cons, not_mem_nil, or_false, forall_eq, List.Pairwise.nil, and_true, Apart,
      textSection, dataSection]
    simp
    omega
  · simp [sections, hdata]

end

/-- The file that is written for a context that can be laid out. -/
structure Written (code data : List UInt8) (oc : ObjfileCtx) (cpuType : BitVec 32)
    (relocMapper : UInt8 → RelocMapped) (file : List UInt8) : Prop
    extends fits : SizesFit code data oc where
  eq : file = writeMacho code data oc cpuType relocMapper

theorem length_zeros (code data : List UInt8) (oc : ObjfileCtx) :
    (wpad (layout code data oc).totalSize).length = (layout code data oc).totalSize :=
  length_replicate

theorem parts_inside (h : SizesFit code data oc) (cpuType : BitVec 32)
    (relocMapper : UInt8 → RelocMapped) : Inside (wpad (layout code data oc).totalSize).length
      (machoParts code data oc cpuType relocMapper) := by
  rw [length_zeros]
  exact (parts_ordered h cpuType relocMapper).inside

variable (h : Written code data oc cpuType relocMapper file)
include h

theorem length_file : file.length = (layout code data oc).totalSize :=
  h.eq ▸ (length_writes (parts_inside h.fits cpuType relocMapper)).trans (length_zeros code data oc)

/-- Every part is found in the file where it was copied to. -/
theorem bytesAt_file {off : Nat} {bs : List UInt8}
    (hmem : (off, bs) ∈ machoParts code data oc cpuType relocMapper) :
    bytesAt file off bs.length = bs :=
  h.eq ▸ bytesAt_writes (parts_inside h.fits cpuType relocMapper)
    (parts_ordered h.fits cpuType relocMapper).apart.noClash hmem

/-- What no part covers is left zero. -/
theorem file_zero (hk : k < (layout code data oc).totalSize)
    (hout : ∀ w ∈ machoParts code data oc cpuType relocMapper, k < w.1 ∨ w.1 + w.2.length ≤ k) :
    file[k]? = some 0 := by
  have hkept := getElem?_writes_of_apart (parts_inside h.fits cpuType relocMapper) hout
  rw [h.eq]
  apply Eq.trans hkept
  rw [wpad, getElem?_replicate, if_pos hk]

theorem bytesAt_head : bytesAt file 0
    (machoHeader cpuType (layout code data oc) ++ (commands code data oc).flatMap (·.2)).length =
    machoHeader cpuType (layout code data oc) ++ (commands code data oc).flatMap (·.2) :=
  bytesAt_file h (by rw [machoParts_eq]; simp)

theorem bytesAt_header : bytesAt file 0 32 = machoHeader cpuType (layout code data oc) := by
  have hsub := bytesAt_bytesAt file (o := 0) (k := 0) (m := 32)
    (n := (machoHeader cpuType (layout code data oc) ++ (commands code data oc).flatMap (·.2)).length)
    (by rw [length_append, length_machoHeader]; omega)
  rw [← hsub, bytesAt_head h, bytesAt_append_left (by simp)]
  exact bytesAt_all (length_machoHeader _ _)

theorem bytesAt_commands : bytesAt file 32 ((commands code data oc).flatMap (·.2)).length =
    (commands code data oc).flatMap (·.2) := by
  have hsub := bytesAt_bytesAt file (o := 0) (k := 32)
    (m := ((commands code data oc).flatMap (·.2)).length)
    (n := (machoHeader cpuType (layout code data oc) ++ (commands code data oc).flatMap (·.2)).length)
    (by rw [length_append, length_machoHeader])
  rw [Nat.zero_add] at hsub
  rw [← hsub, bytesAt_head h, bytesAt_append_right (by simp), length_machoHeader, Nat.sub_self,
    bytesAt_zero_length]

theorem header_file :
    headerOf (decodeFields headerWidths (bytesAt file 0 32)) = some (header code data oc cpuType) := by
  have hsize := (layout_facts h.fits).sizeofcmds
  have hcount := sectionCount_le data
  have hcmds : (layout code data oc).sizeofcmds % 2 ^ 32 = (layout code data oc).sizeofcmds :=
    mod_eq_of_lt (by omega)
  rw [bytesAt_header h, machoHeader]
  simp only [headerWidths, w32, decodeFields_cons, decodeFields_nil, headerOf, pow_four_bytes,
    hcmds, mod_eq_of_lt cpuType.isLt]
  rfl

theorem commands_file : loadCommands file 3 32 =
      some (commands code data oc, 32 + (layout code data oc).sizeofcmds) := by
  have hread := loadCommands_flatMap (fun _ hc => commands_wellSized h.fits hc)
    (bytesAt_commands h : bytesAt file 32 _ = _)
  rw [length_commands, ← (layout_facts h.fits).sizeofcmds] at hread
  exact hread

/-- What any file of the writer decodes to, its fields cut to their widths. -/
theorem decode_file_cut :
    decodeObject file =
      some
        { header := header code data oc cpuType
          segment := cutSegment (segment code data oc)
          sections := (sections code data oc).map cutSection
          symtab := cutSymtab (symtab code data oc) } := by
  have hsections : (range (cutSegment (segment code data oc)).nsects).mapM
      (sectionAt (segmentBytes code data oc)) =
      some ((sections code data oc).map cutSection) := by
    have hnum : (cutSegment (segment code data oc)).nsects =
        ((sections code data oc).map cutSection).length := by
      rw [length_map, length_sections]
      rfl
    rw [hnum]
    apply mapM_range
    intro i hi
    rw [length_map] at hi
    rw [section_file hi, getElem_map]
  have hcmds : loadCommands file
      (header code data oc cpuType).ncmds 32 = _ := commands_file h
  have hfirst : (commands code data oc).lookup 0x19 = some (segmentBytes code data oc) := rfl
  have hlast : (commands code data oc).lookup 2 =
      some (machoSymtabCommand (layout code data oc) oc) := rfl
  rw [decodeObject, header_file h]
  simp only [Option.bind_eq_bind, Option.bind_some, hcmds]
  rw [if_pos ⟨rfl, rfl, rfl⟩, hfirst, Option.bind_some, segment_file h.fits, Option.bind_some,
    hsections, Option.bind_some, hlast, Option.bind_some, symtab_file, Option.bind_some]

theorem decode_file (hfile : fileSize code data oc < 2 ^ 32) :
    decodeObject file = some (object code data oc cpuType) := by
  have hfit := fields_fit h.fits hfile
  have hsections : (sections code data oc).map cutSection = sections code data oc :=
    (map_congr_left (fun s hs => sections_fit hfit hs)).trans (map_id _)
  rw [decode_file_cut h, hsections, segment_fits hfit, symtab_fits hfit]
  rfl

theorem object_eq (hfile : fileSize code data oc < 2 ^ 32) {o : Object}
    (hdecode : decodeObject file = some o) : o = object code data oc cpuType :=
  Option.some.inj (hdecode.symm.trans (decode_file h hfile))

theorem contents_text : contents file (textSection code data oc) = code :=
  bytesAt_file h (by rw [machoParts_eq]; simp [textSection])

theorem contents_data (hdata : data.length > 0) : contents file (dataSection code data oc) = data :=
  bytesAt_file h (by rw [machoParts_eq, if_pos (by simpa using hdata)]; simp [dataSection])

/-- The entries of a section whose relocations are a part of the file. -/
theorem relocationAt_file {rs : List ObjReloc}
    (hmem : (s.reloff, relocRows oc relocMapper rs) ∈ machoParts code data oc cpuType relocMapper)
    (hcount : s.nreloc = rs.length) (hi : i < rs.length)
    (hsym : rs[i].symbolIdx.toNat < oc.symbols.length) (hoff : rs[i].offset.toNat < 2 ^ 31) :
    relocationAt file s i = some (expectedRelocation relocMapper (place oc) rs[i]) := by
  have hsymbols := h.symbols
  have hplace : place oc rs[i].symbolIdx.toNat < oc.symbols.length := runPlace_lt _ hsym
  have hrow : bytesAt file (s.reloff + i * 8) 8 =
      machoReloc relocMapper (machoOrder oc).symRemap rs[i] := by
    have hpart := bytesAt_file h hmem
    rw [length_relocRows] at hpart
    rw [← bytesAt_bytesAt _ (n := rs.length * 8) (by omega), hpart]
    exact bytesAt_flatMap _ (length_machoReloc relocMapper _) rs hi
  have haddress : leNat (bytesAt file (s.reloff + i * 8) 4) = rs[i].offset.toNat := by
    have hsub := bytesAt_bytesAt file (o := s.reloff + i * 8) (n := 8) (k := 0) (m := 4) (by omega)
    rw [Nat.add_zero] at hsub
    rw [← hsub, hrow, machoReloc, flatten_cons, bytesAt_append_left (by simp [w32]), w32,
      bytesAt_all (length_leBytes 4 _), leNat_leBytes]
    exact mod_eq_of_lt (by omega)
  have hword : wordOf (bytesAt file (s.reloff + i * 8 + 4) 4) =
      machoPacked (BitVec.ofNat 32 (place oc rs[i].symbolIdx.toNat)) (relocMapper rs[i].type) (machoRelocLength rs[i].type) := by
    have hlen : (w32 rs[i].offset.toNat).length = 4 := length_leBytes 4 _
    rw [← bytesAt_bytesAt _ (n := 8) (by omega), hrow, machoReloc, flatten_cons,
      bytesAt_append_right (by rw [hlen]), hlen, Nat.sub_self, flatten_cons, flatten_nil,
      append_nil, w32, bytesAt_all (length_leBytes 4 _), wordOf_leBytes, symRemap_getD hsym]
  have hnum : place oc rs[i].symbolIdx.toNat % 2 ^ 32 % 2 ^ 24 = place oc rs[i].symbolIdx.toNat := by
    omega
  simp only [relocationAt, haddress, hword, hcount, hi, hoff, and_self, if_true,
    relocationOf_packed, expectedRelocation, BitVec.toNat_ofNat, hnum]

theorem text_is (hvalid : ContextValid oc) :
    SectionIs (object code data oc cpuType) file dunderText
      code relocMapper (place oc) oc.relocs := by
  refine ⟨textSection code data oc, named_text, contents_text h, rfl, ?_⟩
  intro i hi
  obtain ⟨hsym, hoff⟩ := hvalid.relocs _ (getElem_mem hi)
  apply relocationAt_file h _ rfl hi hsym hoff
  rw [machoParts_eq]
  simp [textSection]

theorem data_is (hvalid : ContextValid oc) (hdata : data.length > 0) :
    SectionIs (object code data oc cpuType) file dunderData
      data relocMapper (place oc) oc.dataRelocs := by
  have hnamed : (object code data oc cpuType).named dunderData =
      some (dataSection code data oc) := by
    rw [named_data, if_pos hdata]
  refine ⟨dataSection code data oc, hnamed, contents_data h hdata, rfl, ?_⟩
  intro i hi
  obtain ⟨hsym, hoff⟩ := hvalid.dataRelocs _ (getElem_mem hi)
  apply relocationAt_file h _ rfl hi hsym hoff
  have hreloff : (dataSection code data oc).reloff = (layout code data oc).dataRelocOff :=
    if_pos (by omega)
  rw [machoParts_eq, hreloff]
  simp

theorem nlistAt_file (hi : i < oc.symbols.length) :
    nlistAt file (symtab code data oc) (place oc i) =
      some
        { strx := stringOffset (tableNames oc) i
          type := machoSymType oc.symbols[i]
          sect := if oc.symbols[i].isDefined then oc.symbols[i].sectionId.toNat else 0
          desc := machoSymDesc oc.symbols[i]
          value := machoSymValue (layout code data oc).dataVmaddr oc.symbols[i] } := by
  have hplace : place oc i < oc.symbols.length := runPlace_lt _ hi
  obtain ⟨hlt, hget⟩ := symOrder_place hi
  have hrow : bytesAt file
      ((symtab code data oc).symoff + place oc i * 16) 16 =
      machoSym (layout code data oc).dataVmaddr (stringOffset (tableNames oc) i) oc.symbols[i] := by
    have hpart : bytesAt file
        (layout code data oc).symtabOff (symtabRows code data oc).length = _ :=
      bytesAt_file h (by rw [machoParts_eq]; simp)
    have hsym : oc.symbols.getD i emptySymbol = oc.symbols[i] := by
      rw [getD_eq_getElem?_getD, getElem?_eq_getElem hi, Option.getD_some]
    rw [length_symtabRows] at hpart
    rw [symtab, ← bytesAt_bytesAt _ (n := oc.symbols.length * 16) (by omega), hpart, symtabRows,
      bytesAt_flatMap _ (length_machoSymRow _ _ oc) _ hlt, hget, machoSymRow, hsym,
      strOffset_eq h.fits hi]
  have hp1 : (256 : Nat) ^ 1 = 2 ^ 8 := by norm_num
  have hstrx : stringOffset (tableNames oc) i % 2 ^ 32 = stringOffset (tableNames oc) i := by
    have hlen : i < (tableNames oc).length := by
      rw [tableNames, length_map]
      exact hi
    have hle := stringOffset_le hlen
    have hnames := h.names
    rw [← machoStrtab_eq, length_machoStrtab] at hle
    exact mod_eq_of_lt (by omega)
  have htype : machoSymType oc.symbols[i] % 2 ^ 8 = machoSymType oc.symbols[i] := by
    rw [machoSymType]
    split
    · split <;> rfl
    · rfl
  have hsect : (if oc.symbols[i].isDefined then oc.symbols[i].sectionId.toNat else 0) % 2 ^ 8 =
      if oc.symbols[i].isDefined then oc.symbols[i].sectionId.toNat else 0 := by
    have hlt := oc.symbols[i].sectionId.toNat_lt
    apply mod_eq_of_lt
    split <;> omega
  have hdesc : machoSymDesc oc.symbols[i] % 2 ^ 16 = machoSymDesc oc.symbols[i] := by
    rw [machoSymDesc]
    split <;> rfl
  have hvalue : machoSymValue (layout code data oc).dataVmaddr oc.symbols[i] % 2 ^ 64 =
      machoSymValue (layout code data oc).dataVmaddr oc.symbols[i] := by
    have hoff := oc.symbols[i].offset.isLt
    have hsmall : (layout code data oc).dataVmaddr < 2 ^ 33 := by
      have hpad := padUp_le code.length 8
      have hcode := h.codeSize
      rw [(layout_facts h.fits).dataVmaddr]
      split <;> omega
    apply mod_eq_of_lt
    rw [machoSymValue]
    split
    · split <;> omega
    · omega
  rw [nlistAt, if_pos (show place oc i < (symtab code data oc).nsyms from hplace), hrow, machoSym]
  simp only [nlistWidths, w8, w16, w32, w64, decodeFields_cons, decodeFields_nil, nlistOf, hp1,
    pow_two_bytes, pow_four_bytes, pow_eight_bytes, hstrx, htype, hsect, hdesc, hvalue]

theorem symbol_file (hvalid : ContextValid oc)
    (hpresent : DataPresent data oc) (hi : i < oc.symbols.length) :
    (object code data oc cpuType).symbol file (place oc i) =
      some (expectedSymbol oc.symbols[i]) := by
  have hmem := getElem_mem hi
  have hstrtab : bytesAt file
      (layout code data oc).strtabOff (layout code data oc).strtabSize =
      stringTable (tableNames oc) := by
    rw [(layout_facts h.fits).strtabSize, ← machoStrtab_eq]
    exact bytesAt_file h (by rw [machoParts_eq]; simp)
  have hname : cstrAt (stringTable (tableNames oc)) (stringOffset (tableNames oc) i) =
      0x5F :: oc.symbols[i].name := by
    have hlen : i < (tableNames oc).length := by
      rw [tableNames, length_map]
      exact hi
    have hat : (tableNames oc)[i] = 0x5F :: oc.symbols[i].name := by simp [tableNames]
    have hread := cstrAt_stringTable hlen (by
      rw [hat]
      simpa using hvalid.names _ hmem) []
    rw [append_nil, hat] at hread
    exact hread
  have hentry : nlistAt file
      (object code data oc cpuType).symtab (place oc i) = _ := nlistAt_file h hi
  have htable : bytesAt file
      (object code data oc cpuType).symtab.stroff (object code data oc cpuType).symtab.strsize = _ :=
    hstrtab
  have hlist : (object code data oc cpuType).sections = sections code data oc := rfl
  rw [Object.symbol, hentry]
  simp only [Option.bind_eq_bind, Option.bind_some, htable, hname, hlist]
  have hbit : Nat.testBit nWeakDef 7 = true := by decide
  cases hdef : oc.symbols[i].isDefined with
  | false =>
    have htype : machoSymType oc.symbols[i] = 1 := by simp [machoSymType, hdef, nExt]
    simp [htype, machoSymDesc, machoSymValue, expectedSymbol, hdef]
  | true =>
    have hsection : oc.symbols[i].sectionId = 1 ∨
        (oc.symbols[i].sectionId = 2 ∧ data.length > 0) := by
      rcases hvalid.sections _ hmem hdef with hone | htwo
      · exact Or.inl hone
      · exact Or.inr ⟨htwo, length_pos_iff.mpr (hpresent.symbols _ hmem hdef htwo)⟩
    obtain ⟨hpos, s, hat, hsectname, haddr⟩ :
        0 < oc.symbols[i].sectionId.toNat ∧
          ∃ s, (sections code data oc)[oc.symbols[i].sectionId.toNat - 1]? = some s ∧ _ :=
      section_of hsection
    have hvalue : machoSymValue (layout code data oc).dataVmaddr oc.symbols[i] - s.addr =
        oc.symbols[i].offset.toNat := by
      rw [machoSymValue, if_pos hdef, haddr, Nat.add_sub_cancel]
    have htype : machoSymType oc.symbols[i] = 14 ∧ oc.symbols[i].isLocal = true ∨
        machoSymType oc.symbols[i] = 15 ∧ oc.symbols[i].isLocal = false := by
      cases hlocal : oc.symbols[i].isLocal <;> simp [machoSymType, hdef, hlocal, nSect, nExt]
    rcases htype with ⟨htype, hlocal⟩ | ⟨htype, hlocal⟩ <;> cases hweak : oc.symbols[i].isWeak <;>
      simp [htype, hpos, hat, hsectname, hvalue, machoSymDesc, expectedSymbol, hdef, hlocal, hweak,
        hbit]

theorem ranges_inside {r : Nat × Nat} (hr : r ∈ (object code data oc cpuType).ranges) :
    r.1 + r.2 ≤ file.length := by
  have hpadded := (layout_facts h.fits).padded
  have hreloff := dataReloff_eq code data oc
  obtain ⟨-, -, -, h4, -, -, -, h8, h9, h10, h11, -, h13⟩ := layout_facts h.fits
  rw [length_file h]
  rw [ranges_eq] at hr
  simp only [sections, map_append, apply_ite (List.map _), map_cons, map_nil,
    mem_cons, mem_append, mem_ite_nil_right, not_mem_nil, or_false] at hr
  simp only [textSection, dataSection] at hreloff hr
  rcases hr with rfl | ((rfl | ⟨-, rfl⟩) | (rfl | ⟨-, rfl⟩)) | rfl | rfl <;> simp only <;> omega

/-- A byte between the code and the next part is in no part. -/
theorem padding_zero (hlow : (layout code data oc).textFileOff + code.length ≤ k)
    (hhigh : k < (layout code data oc).dataFileOff) :
    file[k]? = some 0 := by
  obtain ⟨-, -, h3, h4, -, -, -, h8, h9, h10, h11, -, h13⟩ := layout_facts h.fits
  apply file_zero h (by omega)
  intro w hw
  rw [machoParts_eq] at hw
  simp only [mem_append, mem_cons, mem_ite_nil_right, not_mem_nil, or_false] at hw
  rcases hw with ((rfl | rfl) | ⟨-, rfl⟩) | rfl | rfl | rfl | rfl
  · simp only [length_append, length_machoHeader, length_commands]
    omega
  all_goals simp only; omega

theorem ranges_cover (hpresent : DataPresent data oc) (hk : k < file.length) :
    (∃ r ∈ (object code data oc cpuType).ranges, r.1 ≤ k ∧ k < r.1 + r.2) ∨
      IsPadding (object code data oc cpuType) file k := by
  have hpad := (layout_facts h.fits).dataFileOff
  obtain ⟨-, -, -, h4, -, -, -, h8, h9, h10, h11, -, h13⟩ := layout_facts h.fits
  rw [length_file h] at hk
  have hcontents : ∀ s ∈ sections code data oc, s.offset ≤ k → k < s.offset + s.size →
      ∃ r ∈ (object code data oc cpuType).ranges, r.1 ≤ k ∧ k < r.1 + r.2 := by
    intro s hs hlow hhigh
    refine ⟨(s.offset, s.size), ?_, hlow, hhigh⟩
    rw [ranges_eq]
    apply mem_cons_of_mem
    exact mem_append_left _ (mem_append_left _ (mem_map_of_mem hs))
  have hrelocs : ∀ s ∈ sections code data oc, s.reloff ≤ k → k < s.reloff + s.nreloc * 8 →
      ∃ r ∈ (object code data oc cpuType).ranges, r.1 ≤ k ∧ k < r.1 + r.2 := by
    intro s hs hlow hhigh
    refine ⟨(s.reloff, s.nreloc * 8), ?_, hlow, hhigh⟩
    rw [ranges_eq]
    apply mem_cons_of_mem
    exact mem_append_left _ (mem_append_right _ (mem_map_of_mem hs))
  rcases lt_or_ge k (layout code data oc).textFileOff with hheader | htext
  · refine Or.inl ⟨(0, (layout code data oc).textFileOff), ?_, by simpa using hheader⟩
    rw [ranges_eq]
    exact mem_cons_self
  rcases lt_or_ge k ((layout code data oc).textFileOff + code.length) with hcode | hpadding
  · exact Or.inl (hcontents _ text_mem htext hcode)
  rcases lt_or_ge k (layout code data oc).dataFileOff with hin | hdataOff
  · exact Or.inr ⟨textSection code data oc, named_text, hpadding, hpad ▸ hin,
      padding_zero h hpadding hin⟩
  rcases lt_or_ge k (layout code data oc).textRelocOff with hdata | hrelocOff
  · have hpos : data.length > 0 := by omega
    exact Or.inl (hcontents _ (data_mem hpos) hdataOff (by rw [h8] at hdata; exact hdata))
  rcases lt_or_ge k (layout code data oc).dataRelocOff with hrel | hdataRelocOff
  · exact Or.inl (hrelocs _ text_mem hrelocOff (by rw [h9] at hrel; exact hrel))
  rcases lt_or_ge k (layout code data oc).symtabOff with hdrel | hsymtabOff
  · have hsome : oc.dataRelocs ≠ [] := by
      intro hnil
      rw [hnil] at h10
      simp only [length_nil] at h10
      omega
    have hpos := length_pos_iff.mpr (hpresent.relocs hsome)
    have hreloff : (dataSection code data oc).reloff = (layout code data oc).dataRelocOff :=
      if_pos (length_pos_iff.mpr hsome)
    refine Or.inl (hrelocs _ (data_mem hpos) (hreloff ▸ hdataRelocOff) ?_)
    rw [hreloff]
    rw [h10] at hdrel
    exact hdrel
  rcases lt_or_ge k (layout code data oc).strtabOff with hsym | hstr
  · refine Or.inl ⟨((layout code data oc).symtabOff, oc.symbols.length * 16), ?_, hsymtabOff, ?_⟩
    · rw [ranges_eq]
      simp
    · rw [h11] at hsym
      exact hsym
  · refine Or.inl ⟨((layout code data oc).strtabOff, (layout code data oc).strtabSize), ?_, hstr, ?_⟩
    · rw [ranges_eq]
      simp
    · rw [h13] at hk
      exact hk

end Decoding

/-- Whatever the mix of symbols, an object file says what the context says, provided that
definitions and relocations of data come with data and the file is below `2 ^ 32` bytes. -/
theorem macho_faithful (code data : List UInt8) (oc : ObjfileCtx) (cpuType : BitVec 32)
    (relocMapper : UInt8 → RelocMapped) (hfit : SizesFit code data oc)
    (hfile : fileSize code data oc < 2 ^ 32) (hvalid : ContextValid oc)
    (hpresent : DataPresent data oc) :
    Faithful code data oc cpuType relocMapper (writeMacho code data oc cpuType relocMapper) := by
  refine ⟨object code data oc cpuType, place oc, decode_file ⟨hfit, rfl⟩ hfile, ?_⟩
  constructor
  case machine => rfl
  case text => exact text_is ⟨hfit, rfl⟩ hvalid
  case dataPart =>
    by_cases hempty : data = []
    · rw [if_pos hempty, named_data, if_neg (by simp [hempty])]
    · rw [if_neg hempty]
      exact data_is ⟨hfit, rfl⟩ hvalid (length_pos_iff.mpr hempty)
  case count => rfl
  case symbol => exact fun i hi => symbol_file ⟨hfit, rfl⟩ hvalid hpresent hi
  case inTable => exact fun i hi => runPlace_lt _ hi
  case oneEach => exact fun i hi j hj => runPlace_inj _ hi hj
  case noOther => exact fun k hk => runPlace_surj _ hk
  case segment => exact ⟨(layout_facts hfit).textFileOff, fun s hs => segment_covers hfit hs⟩
  case addresses => exact addresses_apart hfit
  case apart => exact ranges_apart hfit
  case inside => exact fun r hr => ranges_inside ⟨hfit, rfl⟩ hr
  case covered => exact fun k hk => ranges_cover ⟨hfit, rfl⟩ hpresent hk

/-- An undefined function, a weak function, a local word of data, and relocations of both kinds. -/
def sampleContext : ObjfileCtx :=
  { relocs := [⟨0, 0, lrRelocArm64Branch26⟩]
    dataRelocs := [⟨0, 1, lrRelocArm64Abs64⟩]
    symbols :=
      [{ name := chars ['p', 'u', 't', 's'], hash := 0, offset := 0, sectionId := 0
         isDefined := false, isLocal := false, isWeak := false },
        { name := chars ['f'], hash := 0, offset := 0, sectionId := 1
          isDefined := true, isLocal := false, isWeak := true },
        { name := chars ['w'], hash := 0, offset := 0, sectionId := 2
          isDefined := true, isLocal := true, isWeak := false }] }

/-- `b puts` and a word. -/
def sampleCode : List UInt8 := [0, 0, 0, 0x14]

def sampleData : List UInt8 := replicate 8 0

theorem macho_faithful_sample :
    Faithful sampleCode sampleData sampleContext 0x0100000C machoRelocArm64
      (writeMacho sampleCode sampleData sampleContext 0x0100000C machoRelocArm64) :=
  macho_faithful sampleCode sampleData sampleContext 0x0100000C machoRelocArm64
    (by constructor <;> decide) (by decide) (by constructor <;> decide) (by constructor <;> decide)

/-- Faithful to the letter: weakness of every symbol, types in full, and nothing but the
described ranges. -/
def FaithfulToTheLetter (code data : List UInt8) (oc : ObjfileCtx) (cpuType : BitVec 32)
    (relocMapper : UInt8 → RelocMapped) (file : List UInt8) : Prop :=
  ∃ o index, decodeObject file = some o ∧
    Describes code data oc cpuType relocMapper file o index ∧
    (∀ i (h : i < oc.symbols.length),
      (o.symbol file (index i)).map (·.isWeakDef) = some oc.symbols[i].isWeak) ∧
    (∀ s, o.named dunderText = some s → ∀ i (h : i < oc.relocs.length),
      (relocationAt file s i).map (·.type) =
        some (relocMapper oc.relocs[i].type).nativeType.toNat) ∧
    ∀ k < file.length, ∃ r ∈ o.ranges, r.1 ≤ k ∧ k < r.1 + r.2

/-- Two returns. -/
def twoReturns : List UInt8 := [0xC0, 0x03, 0x5F, 0xD6, 0xC0, 0x03, 0x5F, 0xD6]

def emptyContext : ObjfileCtx := { relocs := [], dataRelocs := [], symbols := [] }

/-- One symbol with these properties and nothing else. -/
def oneSymbol (sectionId : UInt8) (isDefined isWeak : Bool) : ObjfileCtx :=
  { emptyContext with
    symbols := [{ name := chars ['w'], hash := 0, offset := 0, sectionId, isDefined
                  isLocal := false, isWeak }] }

/-- Four bytes of padding behind one instruction belong to nothing. -/
theorem oneReturn_padded :
    ¬ FaithfulToTheLetter [0xC0, 0x03, 0x5F, 0xD6] [] emptyContext 0x0100000C machoRelocArm64
      (writeMacho [0xC0, 0x03, 0x5F, 0xD6] [] emptyContext 0x0100000C machoRelocArm64) := by
  rintro ⟨o, index, hdecode, -, -, -, hcover⟩
  obtain rfl := object_eq ⟨by constructor <;> decide, rfl⟩ (by decide) hdecode
  exact absurd (hcover 236) (by decide +kernel)

/-- The weakness of an undefined symbol is lost. -/
theorem weakReference_strong :
    ¬ FaithfulToTheLetter twoReturns [] (oneSymbol 0 false true) 0x0100000C machoRelocArm64
      (writeMacho twoReturns [] (oneSymbol 0 false true) 0x0100000C machoRelocArm64) := by
  rintro ⟨o, index, hdecode, hdesc, hweak, -, -⟩
  obtain rfl := object_eq ⟨by constructor <;> decide, rfl⟩ (by decide) hdecode
  have hzero : index 0 = 0 := Nat.lt_one_iff.mp (hdesc.inTable 0 (by decide))
  have hfirst := hweak 0 (by decide)
  rw [hzero] at hfirst
  revert hfirst
  decide

/-- A relocation of type 20, which the mapper passes on. -/
def wideType : ObjfileCtx :=
  { oneSymbol 0 false false with relocs := [⟨0, 0, lrRelocX8664Pc32⟩] }

theorem wideType_cut :
    ¬ FaithfulToTheLetter twoReturns [] wideType 0x0100000C machoRelocArm64
      (writeMacho twoReturns [] wideType 0x0100000C machoRelocArm64) := by
  rintro ⟨o, index, hdecode, -, -, htype, -⟩
  obtain rfl := object_eq ⟨by constructor <;> decide, rfl⟩ (by decide) hdecode
  have hfirst := htype _ named_text 0 (by decide)
  revert hfirst
  decide

/-- Without data there is no section 2 for a symbol to be defined in. -/
theorem strayData_lost :
    ¬ Faithful twoReturns [] (oneSymbol 2 true false) 0x0100000C machoRelocArm64
      (writeMacho twoReturns [] (oneSymbol 2 true false) 0x0100000C machoRelocArm64) := by
  rintro ⟨o, index, hdecode, hdesc⟩
  obtain rfl := object_eq ⟨by constructor <;> decide, rfl⟩ (by decide) hdecode
  have hzero : index 0 = 0 := Nat.lt_one_iff.mp (hdesc.inTable 0 (by decide))
  have hfirst := hdesc.symbol 0 (by decide)
  rw [hzero] at hfirst
  revert hfirst
  decide

/-- A relocation of data that are not there. -/
def strayRelocation : ObjfileCtx :=
  { oneSymbol 0 false false with dataRelocs := [⟨0, 0, lrRelocArm64Abs64⟩] }

theorem strayRelocation_lost :
    ¬ Faithful twoReturns [] strayRelocation 0x0100000C machoRelocArm64
      (writeMacho twoReturns [] strayRelocation 0x0100000C machoRelocArm64) := by
  rintro ⟨o, index, hdecode, hdesc⟩
  obtain rfl := object_eq ⟨by constructor <;> decide, rfl⟩ (by decide) hdecode
  rcases hdesc.covered 240 (by decide +kernel) with hin | ⟨s, hs, hlow, hhigh, -⟩
  · revert hin
    decide
  · obtain rfl := Option.some.inj (hs.symm.trans named_text)
    revert hhigh
    decide

/-- One relocation behind so much code that its offset in the file is `2 ^ 32`. -/
def farRelocation : ObjfileCtx :=
  { oneSymbol 0 false false with relocs := [⟨0, 0, lrRelocArm64Branch26⟩] }

theorem farRelocation_fits {code : List UInt8} (hlen : code.length = 2 ^ 32 - 232) :
    SizesFit code [] farRelocation :=
  ⟨by omega, by decide, by decide, by decide, by decide, by decide⟩

theorem farRelocation_lost {code : List UInt8} (hlen : code.length = 2 ^ 32 - 232) :
    ¬ Faithful code [] farRelocation 0x0100000C machoRelocArm64
      (writeMacho code [] farRelocation 0x0100000C machoRelocArm64) := by
  have hfit := farRelocation_fits hlen
  rintro ⟨o, index, hdecode, hdesc⟩
  obtain rfl := Option.some.inj (hdecode.symm.trans (decode_file_cut ⟨hfit, rfl⟩))
  obtain ⟨s, hs, -, -, hreloc⟩ := hdesc.text
  obtain rfl : cutSection (textSection code [] farRelocation) = s := Option.some.inj hs
  obtain ⟨-, -, h3, h4, h5, -, -, h8, -, -, -, -, -⟩ := layout_facts hfit
  have hcount : sectionCount [] = 1 := rfl
  have hsum : (layout code [] farRelocation).textFileOff + code.length = 2 ^ 32 := by
    rw [h4, h3, hcount]
    omega
  have hpad : padUp (2 ^ 32) 8 = 2 ^ 32 := by decide
  have hreloff : (cutSection (textSection code [] farRelocation)).reloff = 0 := by
    have heq : (layout code [] farRelocation).textRelocOff = 2 ^ 32 := by
      rw [h8, h5, hsum, hpad]
      rfl
    simp only [cutSection, textSection, heq, Nat.mod_self]
  -- The entry is read from the header: its address would be the magic number.
  have hmagic : leNat (bytesAt (writeMacho code [] farRelocation 0x0100000C machoRelocArm64) 0 4) =
      0xFEEDFACF := by
    rw [← bytesAt_bytesAt _ (n := 32) (k := 0) (by omega), bytesAt_header ⟨hfit, rfl⟩, machoHeader,
      flatten_cons, bytesAt_append_left (by simp [w32]), w32, bytesAt_all (length_leBytes 4 _),
      leNat_leBytes]
    rfl
  have hfirst := hreloc 0 (by decide)
  rw [relocationAt, hreloff, Nat.zero_mul, Nat.add_zero, hmagic, if_neg (by omega)] at hfirst
  exact absurd hfirst (by simp)

theorem FaithfulToTheLetter.faithful {code data : List UInt8} {oc : ObjfileCtx}
    {cpuType : BitVec 32} {relocMapper : UInt8 → RelocMapped} {file : List UInt8}
    (h : FaithfulToTheLetter code data oc cpuType relocMapper file) :
    Faithful code data oc cpuType relocMapper file := by
  obtain ⟨o, index, hdecode, hdesc, -⟩ := h
  exact ⟨o, index, hdecode, hdesc⟩

/-- Six inputs of the stated kind whose files are not faithful to the letter. -/
theorem letter_fails :
    (SizesFit [0xC0, 0x03, 0x5F, 0xD6] [] emptyContext ∧ ContextValid emptyContext ∧
      ¬ FaithfulToTheLetter [0xC0, 0x03, 0x5F, 0xD6] [] emptyContext 0x0100000C machoRelocArm64
        (writeMacho [0xC0, 0x03, 0x5F, 0xD6] [] emptyContext 0x0100000C machoRelocArm64)) ∧
    (∀ oc ∈ [oneSymbol 0 false true, wideType, oneSymbol 2 true false, strayRelocation],
      SizesFit twoReturns [] oc ∧ ContextValid oc ∧
        ¬ FaithfulToTheLetter twoReturns [] oc 0x0100000C machoRelocArm64
          (writeMacho twoReturns [] oc 0x0100000C machoRelocArm64)) ∧
    SizesFit (replicate (2 ^ 32 - 232) 0) [] farRelocation ∧ ContextValid farRelocation ∧
      ¬ FaithfulToTheLetter (replicate (2 ^ 32 - 232) 0) [] farRelocation 0x0100000C
        machoRelocArm64 (writeMacho (replicate (2 ^ 32 - 232) 0) [] farRelocation 0x0100000C
          machoRelocArm64) := by
  refine ⟨⟨?_, ?_, oneReturn_padded⟩, ?_, ?_, ?_, ?_⟩
  · constructor <;> decide
  · constructor <;> decide
  · intro oc hoc
    simp only [mem_cons, not_mem_nil, or_false] at hoc
    rcases hoc with rfl | rfl | rfl | rfl
    · exact ⟨by constructor <;> decide, by constructor <;> decide, weakReference_strong⟩
    · exact ⟨by constructor <;> decide, by constructor <;> decide, wideType_cut⟩
    · exact ⟨by constructor <;> decide, by constructor <;> decide,
        fun h => strayData_lost h.faithful⟩
    · exact ⟨by constructor <;> decide, by constructor <;> decide,
        fun h => strayRelocation_lost h.faithful⟩
  · exact farRelocation_fits length_replicate
  · constructor <;> decide
  · exact fun h => farRelocation_lost length_replicate h.faithful

end Liric.Guarantees.MachoRelocatable
