import Liric.Source.Compat.Archive
import Liric.Source.Jit.Symbols

/-!
# Symbols of a text for archive selection

Source: src/liric_compat.c:935-947 (`compat_symbol_drives_archive_selection`), 1205-1291
(`compat_parse_ir_symbol_at`, `compat_collect_ll_symbols`).

A pointer into the buffer is what stands from there to the end of the buffer; to read a byte
of the empty list is to read behind the end, and gives `none`. An empty file is a null
pointer. Allocations succeed.
-/
namespace Liric.Source.Compat
open Ir
open Jit (localTag strstr)

/-- Neither `_lcompilers_` nor `_lfortran_` in front, and no tag of a local name. -/
def symbolDrivesArchiveSelection (s : Name) : Bool :=
  !([95, 108, 99, 111, 109, 112, 105, 108, 101, 114, 115, 95].isPrefixOf s.val ||
    [95, 108, 102, 111, 114, 116, 114, 97, 110, 95].isPrefixOf s.val ||
    (strstr s.val localTag).isSome)

/-- The bytes before the first NUL or stop, and what stands from there on. -/
def scanName (stops : UInt8 → Bool) : List UInt8 → Option (List UInt8 × List UInt8)
  | [] => none
  | b :: rest =>
    if b = 0 ∨ stops b then some ([], b :: rest)
    else (scanName stops rest).map fun r => (b :: r.1, r.2)

def nameOf (s : List UInt8) : Option Name := if h : s = [] then none else some ⟨s, h⟩

/-- One of `(`, `,`, space, tab and `=`. -/
def endsPlainName (b : UInt8) : Bool := [40, 44, 32, 9, 61].contains b

/-- The bytes 64 and 34 are `@` and a quote. -/
def parseIrSymbolAt : Option (List UInt8) → Option (Option Name)
  | none => some none
  | some [] => none
  | some (b :: p) =>
    if b ≠ 64 then some none
    else
      match p with
      | [] => none
      | q :: start =>
        if q = 34 then do
          let (name, rest) ← scanName (· == 34) start
          pure (if rest.head? = some 34 then nameOf name else none)
        else do
          let (name, _) ← scanName endsPlainName p
          pure (nameOf name)

/-- `strstr(s, needle) != NULL`. -/
def strstrFinds (needle : List UInt8) : List UInt8 → Option Bool
  | [] => none
  | b :: rest =>
    if needle.isPrefixOf (b :: rest) then some true
    else if b = 0 then some false
    else strstrFinds needle rest

def memchr (s : List UInt8) (b : UInt8) (len : Nat) : Option (List UInt8) :=
  if b ∈ s.take len then some (s.dropWhile (· != b)) else none

def defineWord : List UInt8 := [100, 101, 102, 105, 110, 101]
def declareWord : List UInt8 := [100, 101, 99, 108, 97, 114, 101]

/-- `" external "`. -/
def externalWord : List UInt8 := [32, 101, 120, 116, 101, 114, 110, 97, 108, 32]

structure LlSymbols where
  defs : StringList
  undefs : StringList
  deriving DecidableEq

def LlSymbols.addDef (s : LlSymbols) (sym : Name) : LlSymbols := { s with defs := s.defs ++ [sym] }

def LlSymbols.addUndef (s : LlSymbols) (sym : Name) : LlSymbols :=
  if symbolDrivesArchiveSelection sym then { s with undefs := s.undefs ++ [sym] } else s

/-- A line that is longer than a word and begins with it. -/
def lineStarts (word line : List UInt8) (lineLen : Nat) : Bool :=
  lineLen ≥ word.length + 1 && word.isPrefixOf line

def lineIsExternal (line : List UInt8) : Option Bool := do
  if ← strstrFinds externalWord line then pure true
  else strstrFinds (61 :: externalWord) line

def collectLine (line : List UInt8) (lineLen : Nat) (s : LlSymbols) : Option LlSymbols :=
  if lineStarts defineWord line lineLen then do
    let sym ← parseIrSymbolAt (memchr line 64 lineLen)
    pure (sym.elim s s.addDef)
  else if lineStarts declareWord line lineLen then do
    let sym ← parseIrSymbolAt (memchr line 64 lineLen)
    pure (sym.elim s s.addUndef)
  else if lineStarts [64] line lineLen then do
    match ← parseIrSymbolAt (some line) with
    | none => pure s
    | some sym => (lineIsExternal line).map fun isExternal =>
      if isExternal then s.addUndef sym else s.addDef sym
  else pure s

/-- The fuel is the length of the buffer; each line takes at least one byte. -/
def collectLines : Nat → List UInt8 → LlSymbols → Option LlSymbols
  | 0, _, s => some s
  | fuel + 1, p, s =>
    if p = [] then some s
    else do
      let lineLen := (p.takeWhile (· != 10)).length
      let s ← collectLine p lineLen s
      collectLines fuel (p.drop (lineLen + 1)) s

/-- The return value, and the lists behind it. -/
def collectLlSymbols (data : List UInt8) (s : LlSymbols) : Option (Int × LlSymbols) :=
  if data = [] then some (-1, s) else (collectLines data.length data s).map fun s => (0, s)

end Liric.Source.Compat
