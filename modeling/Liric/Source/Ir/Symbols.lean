import Liric.Lib.LinearProbe
import Liric.Source.Ir.Types

/-!
# Symbol interning of a module

Source: src/ir.c:11-40 (`symbol_hash`, `symbol_index_rebuild`), 962-1040
(`lr_module_intern_symbol`, `lr_module_symbol_name`, `lr_module_find_symbol_id`).

`symbol_names` and `symbol_hashes` are lists of the `num_symbols` entries in use;
their common capacity is kept apart. `symbol_index` is the whole open-addressing
table, its length is `symbol_index_cap`. Allocations succeed. A loop that would
not end is `none`: a probe that has visited every slot of the table, or a
capacity loop that has doubled past 32 bits. `uint32_t` arithmetic is reduced
modulo `2 ^ 32` where a shift, a sum or a product can leave the range.
-/
namespace Liric.Source.Ir
open Lib (iterateUntil)

def uint32Max : Nat := 2 ^ 32 - 1

/-- FNV-1a over the bytes of the name. -/
def symbolHash (name : CStr) : BitVec 32 :=
  name.foldl (fun h byte => (h ^^^ byte.toBitVec.setWidth 32) * 16777619) 2166136261

/-- The fields of `lr_module_t` that interning reads and writes. -/
structure SymbolTable where
  symbolNames : List CStr
  symbolHashes : List (BitVec 32)
  symbolCap : Nat
  symbolIndex : List Nat
  deriving DecidableEq

namespace SymbolTable

/-- The state `lr_module_create` leaves: all fields zero. -/
def empty : SymbolTable := ⟨[], [], 0, []⟩

def numSymbols (m : SymbolTable) : Nat := m.symbolNames.length

end SymbolTable

/-- `while (cap < (min_symbols << 1)) cap <<= 1;` -/
def rebuildCap (minSymbols : Nat) : Nat → Nat → Option Nat
  | 0, _ => none
  | fuel + 1, cap =>
    if cap < (minSymbols * 2) % 2 ^ 32 then rebuildCap minSymbols fuel ((cap * 2) % 2 ^ 32)
    else some cap

/-- A probe loop over `index` from the slot of `hash`: `slot & (cap - 1)` first,
then `(slot + 1) & (cap - 1)` while `stop` does not hold of the cell. -/
def probeLoop (index : List Nat) (stop : Nat → Bool) (hash : BitVec 32) : Option Nat :=
  iterateUntil (fun slot => (slot + 1) &&& (index.length - 1))
    (fun slot => stop (index.getD slot 0)) index.length (hash.toNat &&& (index.length - 1))

/-- Insertion: `while (index[slot] != 0) ...; index[slot] = id + 1`. -/
def indexInsert (index : List Nat) (hash : BitVec 32) (id : Nat) : Option (List Nat) :=
  (probeLoop index (fun stored => stored == 0) hash).map fun slot => index.set slot (id + 1)

/-- Reinsert the symbols `id, id + 1, …` whose hashes are listed. -/
def indexInsertAll : List (BitVec 32) → Nat → List Nat → Option (List Nat)
  | [], _, index => some index
  | hash :: rest, id, index => do
    let index ← indexInsert index hash id
    indexInsertAll rest (id + 1) index

def symbolIndexRebuild (m : SymbolTable) (minSymbols : Nat) : Option SymbolTable := do
  let cap ← rebuildCap minSymbols 33 128
  let index ← indexInsertAll m.symbolHashes 0 (List.replicate cap 0)
  return { m with symbolIndex := index }

/-- The search loop of intern and find: the cell it stops at holds `0`, or one
more than the id of a symbol with this hash and this name. -/
def searchLoop (m : SymbolTable) (hash : BitVec 32) (name : CStr) : Option Nat :=
  (probeLoop m.symbolIndex
    (fun stored => stored == 0 ||
      (m.symbolHashes[stored - 1]? == some hash && m.symbolNames[stored - 1]? == some name))
    hash).map fun slot => m.symbolIndex.getD slot 0

/-- `if (m->symbol_index_cap == 0) symbol_index_rebuild(m, 1)`. -/
def allocateIndex (m : SymbolTable) : Option SymbolTable :=
  if m.symbolIndex.length = 0 then symbolIndexRebuild m 1 else some m

/-- Growth of the name and hash arrays when they are full. -/
def growNames (m : SymbolTable) : SymbolTable :=
  if m.numSymbols = m.symbolCap then
    { m with symbolCap := if m.symbolCap = 0 then 64 else (m.symbolCap * 2) % 2 ^ 32 }
  else m

/-- Growth of the index when one more symbol would pass half of its slots. -/
def growIndex (m : SymbolTable) : Option SymbolTable :=
  if (((m.numSymbols + 1) % 2 ^ 32) * 2) % 2 ^ 32 > m.symbolIndex.length then
    symbolIndexRebuild m ((m.numSymbols + 1) % 2 ^ 32)
  else some m

/-- Store the name and the hash under the next id and enter the id in the index. -/
def appendSymbol (m : SymbolTable) (hash : BitVec 32) (name : CStr) :
    Option (SymbolTable × Nat) := do
  let id := m.numSymbols
  let index ← indexInsert m.symbolIndex hash id
  return ({ m with
    symbolNames := m.symbolNames ++ [name]
    symbolHashes := m.symbolHashes ++ [hash]
    symbolIndex := index }, id)

def lrModuleInternSymbol (m : SymbolTable) (name : CStr) : Option (SymbolTable × Nat) := do
  let hash := symbolHash name
  let m ← allocateIndex m
  let stored ← searchLoop m hash name
  if stored ≠ 0 then return (m, stored - 1)
  let m ← growIndex (growNames m)
  appendSymbol m hash name

def lrModuleSymbolName (m : SymbolTable) (id : Nat) : Option CStr :=
  if id ≥ m.numSymbols then none else m.symbolNames[id]?

/-- The outer `none` is a search that does not end. -/
def lrModuleFindSymbolId (m : SymbolTable) (name : CStr) : Option Nat :=
  if name = [] ∨ m.symbolIndex.length = 0 then some uint32Max
  else
    (searchLoop m (symbolHash name) name).map fun stored =>
      if stored = 0 then uint32Max else stored - 1

/-- A run of intern calls in order, with the ids it hands out. -/
def internAll : SymbolTable → List CStr → Option (SymbolTable × List Nat)
  | m, [] => some (m, [])
  | m, name :: rest => do
    let (m, id) ← lrModuleInternSymbol m name
    let (m, ids) ← internAll m rest
    return (m, id :: ids)

end Liric.Source.Ir
