import Liric.Lib.Elf64

/-!
# Reading 64-bit Mach-O objects

The header, the load commands, the symbol entries and the relocation entries of the
Mach-O format as a linker reads them, and an object file put together from them.
-/
namespace Liric.Lib.MachO64
open List

structure Header where
  magic : Nat
  cputype : Nat
  cpusubtype : Nat
  filetype : Nat
  ncmds : Nat
  sizeofcmds : Nat
  flags : Nat
  deriving DecidableEq

structure Segment where
  vmaddr : Nat
  vmsize : Nat
  fileoff : Nat
  filesize : Nat
  maxprot : Nat
  initprot : Nat
  nsects : Nat
  deriving DecidableEq

structure Section where
  sectname : List UInt8
  segname : List UInt8
  addr : Nat
  size : Nat
  offset : Nat
  align : Nat
  reloff : Nat
  nreloc : Nat
  flags : Nat
  deriving DecidableEq

structure Symtab where
  symoff : Nat
  nsyms : Nat
  stroff : Nat
  strsize : Nat
  deriving DecidableEq

structure Nlist where
  strx : Nat
  type : Nat
  sect : Nat
  desc : Nat
  value : Nat
  deriving DecidableEq

/-- `2 ^ length` bytes at `address` are to be relocated. -/
structure RelocationInfo where
  address : Nat
  symbolnum : Nat
  pcrel : Bool
  length : Nat
  isExternal : Bool
  type : Nat
  deriving DecidableEq

def headerWidths : List Nat := [4, 4, 4, 4, 4, 4, 4, 4]
def segmentWidths : List Nat := [8, 8, 8, 8, 4, 4, 4, 4]
def sectionWidths : List Nat := [8, 8, 4, 4, 4, 4, 4, 4, 4, 4]
def symtabWidths : List Nat := [4, 4, 4, 4]
def nlistWidths : List Nat := [4, 1, 1, 2, 8]

def headerOf : List Nat → Option Header
  | [magic, cputype, cpusubtype, filetype, ncmds, sizeofcmds, flags, _] =>
    some ⟨magic, cputype, cpusubtype, filetype, ncmds, sizeofcmds, flags⟩
  | _ => none

def segmentOf : List Nat → Option Segment
  | [vmaddr, vmsize, fileoff, filesize, maxprot, initprot, nsects, _] =>
    some ⟨vmaddr, vmsize, fileoff, filesize, maxprot, initprot, nsects⟩
  | _ => none

def sectionOf (sectname segname : List UInt8) : List Nat → Option Section
  | [addr, size, offset, align, reloff, nreloc, flags, _, _, _] =>
    some ⟨sectname, segname, addr, size, offset, align, reloff, nreloc, flags⟩
  | _ => none

def symtabOf : List Nat → Option Symtab
  | [symoff, nsyms, stroff, strsize] => some ⟨symoff, nsyms, stroff, strsize⟩
  | _ => none

def nlistOf : List Nat → Option Nlist
  | [strx, type, sect, desc, value] => some ⟨strx, type, sect, desc, value⟩
  | _ => none

/-- The bits of the second word of a relocation entry. -/
def relocationOf (address : Nat) (word : BitVec 32) : RelocationInfo :=
  { address
    symbolnum := (word.extractLsb' 0 24).toNat
    pcrel := word.getLsbD 24
    length := (word.extractLsb' 25 2).toNat
    isExternal := word.getLsbD 27
    type := (word.extractLsb' 28 4).toNat }

/-- A name in a field of 16 bytes. -/
def fixedName (bs : List UInt8) : List UInt8 := (bs.take 16).takeWhile (· != 0)

/-- The load commands, each with its number and its bytes, and where they end. -/
def loadCommands (file : List UInt8) : Nat → Nat → Option (List (Nat × List UInt8) × Nat)
  | 0, off => some ([], off)
  | n + 1, off =>
    match decodeFields [4, 4] (bytesAt file off 8) with
    | [cmd, cmdsize] =>
      if cmdsize < 8 then none
      else
        (loadCommands file n (off + cmdsize)).map
          (fun rest => ((cmd, bytesAt file off cmdsize) :: rest.1, rest.2))
    | _ => none

/-- Section `i` of the command that loads a segment. -/
def sectionAt (cmd : List UInt8) (i : Nat) : Option Section :=
  let bs := bytesAt cmd (72 + i * 80) 80
  sectionOf (fixedName bs) (fixedName (bs.drop 16)) (decodeFields sectionWidths (bs.drop 32))

/-- An object file: one segment with its sections, and the symbols. -/
structure Object where
  header : Header
  segment : Segment
  sections : List Section
  symtab : Symtab
  deriving DecidableEq

variable (file : List UInt8)

/-- Reading an object (`MH_OBJECT`): `LC_SEGMENT_64` is 0x19, `LC_SYMTAB` is 2. -/
def decodeObject : Option Object := do
  let header ← headerOf (decodeFields headerWidths (bytesAt file 0 32))
  let cmds ← loadCommands file header.ncmds 32
  if header.magic = 0xFEEDFACF ∧ header.filetype = 1 ∧ cmds.2 = 32 + header.sizeofcmds then
    let segmentCmd ← cmds.1.lookup 0x19
    let segment ← segmentOf (decodeFields segmentWidths (segmentCmd.drop 24))
    let sections ← (List.range segment.nsects).mapM (sectionAt segmentCmd)
    let symtabCmd ← cmds.1.lookup 2
    let symtab ← symtabOf (decodeFields symtabWidths (symtabCmd.drop 8))
    some ⟨header, segment, sections, symtab⟩
  else none

/-- The contents of a section. -/
def contents (s : Section) : List UInt8 := bytesAt file s.offset s.size

/-- Entry `k` of the symbol table. -/
def nlistAt (t : Symtab) (k : Nat) : Option Nlist :=
  if k < t.nsyms then nlistOf (decodeFields nlistWidths (bytesAt file (t.symoff + k * 16) 16))
  else none

/-- A symbol with its name and the number of its section; no section is undefined. The
value is relative to the section. -/
structure SymbolView where
  name : List UInt8
  isExternal : Bool
  isWeakDef : Bool
  inSection : Option (List UInt8)
  value : Nat
  deriving DecidableEq

/-- Symbol `k` with its name and section looked up: bit 0 of the type is `N_EXT`, its bits
1 to 3 tell definitions in a section (7) from undefined symbols (0), bit 7 of the
description is `N_WEAK_DEF`. -/
def Object.symbol (o : Object) (file : List UInt8) (k : Nat) : Option SymbolView := do
  let n ← nlistAt file o.symtab k
  let name := cstrAt (bytesAt file o.symtab.stroff o.symtab.strsize) n.strx
  let isExternal := n.type.testBit 0
  let isWeakDef := n.desc.testBit 7
  if n.type / 2 % 8 = 0 then
    if n.sect = 0 then some ⟨name, isExternal, isWeakDef, none, n.value⟩ else none
  else if n.type / 2 % 8 = 7 ∧ 0 < n.sect then
    let s ← o.sections[n.sect - 1]?
    some ⟨name, isExternal, isWeakDef, some s.sectname, n.value - s.addr⟩
  else none

/-- Relocation entry `i` of a section. The top bit of the address is not part of it. -/
def relocationAt (s : Section) (i : Nat) : Option RelocationInfo :=
  let address := leNat (bytesAt file (s.reloff + i * 8) 4)
  if i < s.nreloc ∧ address < 2 ^ 31 then
    some (relocationOf address (wordOf (bytesAt file (s.reloff + i * 8 + 4) 4)))
  else none

/-- The first section of a name. -/
def Object.named (o : Object) (name : List UInt8) : Option Section :=
  o.sections.find? (fun s => s.sectname == name)

/-- The ranges the header and the load commands describe: themselves, the contents and the
relocations of each section, the symbols and their names. -/
def Object.ranges (o : Object) : List (Nat × Nat) :=
  (0, 32 + o.header.sizeofcmds) ::
    (o.sections.map (fun s => (s.offset, s.size)) ++
      o.sections.map (fun s => (s.reloff, s.nreloc * 8)) ++
      [(o.symtab.symoff, o.symtab.nsyms * 16), (o.symtab.stroff, o.symtab.strsize)])

/-- The bytes of a command begin with its number and its size. -/
structure IsCommand (c : Nat × List UInt8) : Prop where
  prefixed : decodeFields [4, 4] (c.2.take 8) = [c.1, c.2.length]
  size : 8 ≤ c.2.length

theorem isCommand_fields {cmd cmdsize : Nat} {rest : List (List UInt8)} (hcmd : cmd < 2 ^ 32)
    (hlen : (leBytes 4 cmd :: leBytes 4 cmdsize :: rest).flatten.length = cmdsize)
    (hsize : cmdsize < 2 ^ 32) :
    IsCommand (cmd, (leBytes 4 cmd :: leBytes 4 cmdsize :: rest).flatten) := by
  have htake : (leBytes 4 cmd :: leBytes 4 cmdsize :: rest).flatten.take 8 =
      (leBytes 4 cmd :: leBytes 4 cmdsize :: []).flatten := by
    rw [flatten_cons, flatten_cons, ← append_assoc, take_left' (by simp)]
    simp
  constructor
  · rw [htake, decodeFields_cons, decodeFields_cons, decodeFields_nil, pow_four_bytes,
      Nat.mod_eq_of_lt hcmd, Nat.mod_eq_of_lt hsize, hlen]
  · rw [flatten_cons, flatten_cons, length_append, length_append, length_leBytes, length_leBytes]
    omega

/-- Commands that stand one behind the other are the ones that are read. -/
theorem loadCommands_flatMap {file : List UInt8} {cmds : List (Nat × List UInt8)} {off : Nat}
    (hcmds : ∀ c ∈ cmds, IsCommand c)
    (h : bytesAt file off (cmds.flatMap (·.2)).length = cmds.flatMap (·.2)) :
    loadCommands file cmds.length off = some (cmds, off + (cmds.flatMap (·.2)).length) := by
  induction cmds generalizing off with
  | nil => rfl
  | cons c cmds ih =>
    obtain ⟨hfirst, hsize⟩ := hcmds c mem_cons_self
    have hlen : ((c :: cmds).flatMap (·.2)).length = c.2.length + (cmds.flatMap (·.2)).length := by
      rw [flatMap_cons, length_append]
    have hhead : bytesAt file off c.2.length = c.2 := by
      have hsub := bytesAt_bytesAt file (o := off) (k := 0) (m := c.2.length)
        (n := ((c :: cmds).flatMap (·.2)).length) (by omega)
      rw [h, flatMap_cons, bytesAt_append_left (by omega), bytesAt_zero_length] at hsub
      exact hsub.symm
    have hfields : bytesAt file off 8 = c.2.take 8 := by
      have hsub := bytesAt_bytesAt file (o := off) (k := 0) (m := 8) (n := c.2.length) (by omega)
      rw [hhead, Nat.add_zero, bytesAt, drop_zero] at hsub
      exact hsub.symm
    have htail : bytesAt file (off + c.2.length) (cmds.flatMap (·.2)).length =
        cmds.flatMap (·.2) := by
      have hsub := bytesAt_bytesAt file (o := off) (k := c.2.length)
        (m := (cmds.flatMap (·.2)).length) (n := ((c :: cmds).flatMap (·.2)).length) (by omega)
      rw [h, flatMap_cons, bytesAt_append_right (Nat.le_refl _), Nat.sub_self,
        bytesAt_zero_length] at hsub
      exact hsub.symm
    have hrest := ih (fun d hd => hcmds d (mem_cons_of_mem c hd)) htail
    rw [length_cons, loadCommands, hfields, hfirst]
    simp only [Nat.not_lt.mpr hsize, if_false, hrest, hhead, Option.map_some, hlen, Nat.add_assoc]

end Liric.Lib.MachO64
