import Liric.Lib.Buffer

/-!
# Reading ELF64 files

Records of little-endian fields, and with them the headers and table entries of
the ELF64 format as a linker or a loader reads them.
-/
namespace Liric.Lib
open List

/-- The fields of a record, given the widths of its fields in bytes. -/
def decodeFields : List Nat → List UInt8 → List Nat
  | [], _ => []
  | w :: ws, bs => leNat (bs.take w) :: decodeFields ws (bs.drop w)

@[simp] theorem decodeFields_nil (bs : List UInt8) : decodeFields [] bs = [] := rfl

@[simp] theorem decodeFields_cons (w : Nat) (ws : List Nat) (v : Nat) (rest : List (List UInt8)) :
    decodeFields (w :: ws) (leBytes w v :: rest).flatten =
      v % 256 ^ w :: decodeFields ws rest.flatten := by
  have hlen := length_leBytes w v
  rw [decodeFields, flatten_cons, take_left' hlen, drop_left' hlen, leNat_leBytes]

/-- Reading the entries of a table one by one gives the table. -/
theorem mapM_range {α : Type} {f : Nat → Option α} {l : List α}
    (h : ∀ i (hi : i < l.length), f i = some l[i]) : (List.range l.length).mapM f = some l := by
  induction l generalizing f with
  | nil => rfl
  | cons a l ih =>
    have hhead : f 0 = some a := h 0 (Nat.zero_lt_succ _)
    have htail : (List.range l.length).mapM (f ∘ Nat.succ) = some l :=
      ih (fun i hi => h (i + 1) (Nat.succ_lt_succ hi))
    rw [length_cons, range_succ_eq_map, mapM_cons, mapM_map, hhead, htail]
    rfl

/-- The C string at an offset. -/
def cstrAt (bs : List UInt8) (off : Nat) : List UInt8 := (bs.drop off).takeWhile (· != 0)

section
variable (names : List (List UInt8))

/-- A string table: an empty string, then each name behind the last one. -/
def stringTable : List UInt8 :=
  [0] ++ names.flatMap (fun name => name ++ [0])

/-- Where the `i`-th name of a string table starts. -/
def stringOffset (i : Nat) : Nat :=
  1 + ((names.take i).map (fun name => name.length + 1)).sum

theorem length_names :
    (names.flatMap (fun name => name ++ [0])).length =
      (names.map (fun name => name.length + 1)).sum := by
  induction names with
  | nil => rfl
  | cons name names ih =>
    rw [flatMap_cons, length_append, ih, map_cons, sum_cons, length_append, length_singleton]

theorem length_stringTable :
    (stringTable names).length = 1 + (names.map (fun name => name.length + 1)).sum := by
  rw [stringTable, length_append, length_singleton, length_names]

end

variable {names : List (List UInt8)} {i : Nat}

theorem stringOffset_succ (h : i < names.length) :
    stringOffset names (i + 1) = stringOffset names i + names[i].length + 1 := by
  rw [stringOffset, stringOffset, take_add_one, List.getElem?_eq_getElem h, map_append,
    sum_append, Option.toList_some, map_singleton, sum_singleton]
  omega

theorem stringOffset_le (h : i < names.length) :
    stringOffset names i + names[i].length < (stringTable names).length := by
  have hsum : (names.map (fun name => name.length + 1)).sum =
      ((names.take (i + 1)).map (fun name => name.length + 1)).sum +
        ((names.drop (i + 1)).map (fun name => name.length + 1)).sum := by
    rw [← sum_append, ← map_append, take_append_drop]
  have hsucc := stringOffset_succ h
  rw [stringOffset] at hsucc
  rw [length_stringTable, hsum]
  omega

theorem takeWhile_cstr {name : List UInt8} (h : 0 ∉ name) (rest : List UInt8) :
    (name ++ 0 :: rest).takeWhile (· != 0) = name := by
  have hall : ∀ b ∈ name, (b != 0) = true := by
    intro b hb
    simp only [bne_iff_ne, ne_eq]
    intro hzero
    exact h (hzero ▸ hb)
  rw [takeWhile_append_of_pos hall]
  simp

/-- The name written at an offset of a string table is the one read there. -/
theorem cstrAt_stringTable (h : i < names.length) (hnul : 0 ∉ names[i]) (rest : List UInt8) :
    cstrAt (stringTable names ++ rest) (stringOffset names i) = names[i] := by
  have hsplit : names = names.take i ++ names[i] :: names.drop (i + 1) := by
    rw [getElem_cons_drop h, take_append_drop]
  have htable : stringTable names ++ rest =
      ([0] ++ (names.take i).flatMap (fun name => name ++ [0])) ++
        (names[i] ++ 0 :: ((names.drop (i + 1)).flatMap (fun name => name ++ [0]) ++ rest)) := by
    conv_lhs => rw [stringTable, hsplit, flatMap_append, flatMap_cons]
    simp only [append_assoc, cons_append, nil_append]
  have hlen : ([0] ++ (names.take i).flatMap (fun name => name ++ [0]) : List UInt8).length =
      stringOffset names i := by
    rw [length_append, length_names, stringOffset, length_singleton]
  rw [cstrAt, htable, drop_left' hlen, takeWhile_cstr hnul]

namespace Elf64

structure Ehdr where
  magic : List Nat
  fileClass : Nat
  encoding : Nat
  type : Nat
  machine : Nat
  entry : Nat
  phoff : Nat
  shoff : Nat
  phentsize : Nat
  phnum : Nat
  shentsize : Nat
  shnum : Nat
  shstrndx : Nat
  deriving DecidableEq

structure Phdr where
  type : Nat
  flags : Nat
  offset : Nat
  vaddr : Nat
  filesz : Nat
  memsz : Nat
  deriving DecidableEq

structure Shdr where
  name : Nat
  type : Nat
  flags : Nat
  addr : Nat
  offset : Nat
  size : Nat
  link : Nat
  info : Nat
  addralign : Nat
  entsize : Nat
  deriving DecidableEq

structure Sym where
  name : Nat
  info : Nat
  shndx : Nat
  value : Nat
  deriving DecidableEq

/-- `r_info` is the type in its low and the symbol in its high half. -/
structure Rela where
  offset : Nat
  type : Nat
  sym : Nat
  addend : Nat
  deriving DecidableEq

def Sym.bind (s : Sym) : Nat := s.info / 16
def Sym.type (s : Sym) : Nat := s.info % 16

def ehdrWidths : List Nat :=
  [1, 1, 1, 1, 1, 1, 1, 1, 8, 2, 2, 4, 8, 8, 8, 4, 2, 2, 2, 2, 2, 2]
def phdrWidths : List Nat := [4, 4, 8, 8, 8, 8, 8, 8]
def shdrWidths : List Nat := [4, 4, 8, 8, 8, 8, 4, 4, 8, 8]
def symWidths : List Nat := [4, 1, 1, 2, 8, 8]
def relaWidths : List Nat := [8, 4, 4, 8]

def ehdrOf : List Nat → Option Ehdr
  | [mag0, mag1, mag2, mag3, fileClass, encoding, _, _, _, type, machine, _, entry, phoff, shoff,
      _, _, phentsize, phnum, shentsize, shnum, shstrndx] =>
    some ⟨[mag0, mag1, mag2, mag3], fileClass, encoding, type, machine, entry, phoff, shoff, phentsize, phnum,
      shentsize, shnum, shstrndx⟩
  | _ => none

def phdrOf : List Nat → Option Phdr
  | [type, flags, offset, vaddr, _, filesz, memsz, _] =>
    some ⟨type, flags, offset, vaddr, filesz, memsz⟩
  | _ => none

def shdrOf : List Nat → Option Shdr
  | [name, type, flags, addr, offset, size, link, info, addralign, entsize] =>
    some ⟨name, type, flags, addr, offset, size, link, info, addralign, entsize⟩
  | _ => none

def symOf : List Nat → Option Sym
  | [name, info, _, shndx, value, _] => some ⟨name, info, shndx, value⟩
  | _ => none

def relaOf : List Nat → Option Rela
  | [offset, type, sym, addend] => some ⟨offset, type, sym, addend⟩
  | _ => none

variable (file : List UInt8)

def ehdr : Option Ehdr := ehdrOf (decodeFields ehdrWidths (bytesAt file 0 64))

/-- The program header of number `i`. -/
def phdr (e : Ehdr) (i : Nat) : Option Phdr :=
  phdrOf (decodeFields phdrWidths (bytesAt file (e.phoff + i * e.phentsize) 56))

/-- The section header of number `i`. -/
def shdr (e : Ehdr) (i : Nat) : Option Shdr :=
  shdrOf (decodeFields shdrWidths (bytesAt file (e.shoff + i * e.shentsize) 64))

/-- The contents of a section. -/
def contents (sh : Shdr) : List UInt8 := bytesAt file sh.offset sh.size

/-- Entry `i` of a table of symbols. -/
def symAt (table : List UInt8) (i : Nat) : Option Sym :=
  symOf (decodeFields symWidths (bytesAt table (i * 24) 24))

/-- Entry `i` of a table of relocations. -/
def relaAt (table : List UInt8) (i : Nat) : Option Rela :=
  relaOf (decodeFields relaWidths (bytesAt table (i * 24) 24))

/-- The `n` bytes at an address once the first program header is loaded. -/
def loaded (address n : Nat) : Option (List UInt8) := do
  let e ← ehdr file
  let p ← phdr file e 0
  if p.type = 1 ∧ p.vaddr ≤ address ∧ address + n ≤ p.vaddr + p.filesz then
    some (bytesAt file (p.offset + (address - p.vaddr)) n)
  else none

def loaded32 (address : Nat) : Option (BitVec 32) :=
  (loaded file address 4).map wordOf

def loaded64 (address : Nat) : Option Nat :=
  (loaded file address 8).map leNat

/-- A file as its header and its sections with their names, in order of their numbers. -/
structure Object where
  header : Ehdr
  sections : List (List UInt8 × Shdr)
  deriving DecidableEq

def decodeObject : Option Object := do
  let header ← ehdr file
  let headers ← (List.range header.shnum).mapM (shdr file header)
  let names ← headers[header.shstrndx]?
  some ⟨header, headers.map (fun sh => (cstrAt (contents file names) sh.name, sh))⟩

/-- The first section of a name. -/
def Object.named (o : Object) (name : List UInt8) : Option Shdr := o.sections.lookup name

/-- A symbol with its name and the name of its section; `none` is undefined. -/
structure SymbolView where
  name : List UInt8
  bind : Nat
  inSection : Option (List UInt8)
  value : Nat
  deriving DecidableEq

/-- Entry `k` of the symbol table, its names resolved through the linked string table. -/
def Object.symbol (o : Object) (file : List UInt8) (symtab : Shdr) (k : Nat) :
    Option SymbolView := do
  let sym ← symAt (contents file symtab) k
  let strtab ← o.sections[symtab.link]?
  some
    { name := cstrAt (contents file strtab.2) sym.name
      bind := sym.bind
      inSection := if sym.shndx = 0 then none else (o.sections[sym.shndx]?).map (·.1)
      value := sym.value }

/-- The ranges the file is made of: header, section headers, and the sections but the null one. -/
def Object.ranges (o : Object) : List (Nat × Nat) :=
  (0, 64) :: (o.header.shoff, o.header.shnum * o.header.shentsize) ::
    o.sections.tail.map (fun s => (s.2.offset, s.2.size))

end Elf64

end Liric.Lib
