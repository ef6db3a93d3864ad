import Liric.Source.Jit.Symbols

/-!
# Lookups of names in a module

Source: src/objfile.c:1078-1351 (`obj_ensure_sym_to_caches` to
`obj_resolve_blob_reloc_symbol_name`).

A global or a function is known by its place. `sym_to_global` and `sym_to_func` are allocated
together, each with one entry for every symbol there is at that moment. `none` is a run without
result: an interning that does not end, or an access past the end of one of the two arrays.
Allocations succeed.
-/
namespace Liric.Source.Object
open Ir
open Jit (localTag strstr)

structure SymToCaches where
  symToGlobal : List (Option Nat)
  symToFunc : List (Option Nat)
  symToCap : Nat
  deriving DecidableEq

/-- A module with its caches; `none` is the null pointers. -/
structure ObjModule where
  ir : LrModule
  caches : Option SymToCaches := none
  deriving DecidableEq

/-- `slots[i] = &entity` -/
def storeSlot (slots : List (Option Nat)) (i place : Nat) : Option (List (Option Nat)) :=
  if i < slots.length then some (slots.set i (some place)) else none

/-- Interning the name of a global can add a symbol, for which `gs` has no entry. -/
def fillGlobals : List LrGlobal → Nat → SymbolTable → List (Option Nat) →
    Option (SymbolTable × List (Option Nat))
  | [], _, symbols, gs => some (symbols, gs)
  | g :: rest, place, symbols, gs =>
    if g.name = [] then fillGlobals rest (place + 1) symbols gs
    else do
      let (symbols, symId) ← lrModuleInternSymbol symbols g.name
      let gs ← if symId ≠ uint32Max ∧ symId < symbols.numSymbols then storeSlot gs symId place
        else some gs
      fillGlobals rest (place + 1) symbols gs

def fillFuncs (numSymbols : Nat) : List LrFunc → Nat → List (Option Nat) →
    Option (List (Option Nat))
  | [], _, fs => some fs
  | f :: rest, place, fs => do
    let fs ← if f.name ≠ [] ∧ f.symbolId < numSymbols then storeSlot fs f.symbolId place
      else some fs
    fillFuncs numSymbols rest (place + 1) fs

def objEnsureSymToCaches (m : ObjModule) : Option ObjModule :=
  let numSymbols := m.ir.symbols.numSymbols
  if m.caches.any (fun c => numSymbols ≤ c.symToCap) ∧ 0 < numSymbols then some m
  else if numSymbols = 0 then some m
  else do
    let (symbols, gs) ← fillGlobals m.ir.globals 0 m.ir.symbols (List.replicate numSymbols none)
    let fs ← fillFuncs symbols.numSymbols m.ir.funcs 0 (List.replicate numSymbols none)
    some { ir := { m.ir with symbols := symbols }, caches := some ⟨gs, fs, symbols.numSymbols⟩ }

/-- The two lookups differ in the array they read, and in the walk that stands in for it. -/
def moduleByName (slots : SymToCaches → List (Option Nat)) (walk : LrModule → CStr → Option Nat)
    (m : ObjModule) (name : CStr) : Option (ObjModule × Option Nat) :=
  if name = [] then some (m, none)
  else do
    let (symbols, symId) ← lrModuleInternSymbol m.ir.symbols name
    let m := { m with ir := { m.ir with symbols := symbols } }
    if symId = uint32Max then return (m, none)
    let m ← objEnsureSymToCaches m
    match m.caches with
    | none => return (m, walk m.ir name)
    | some caches =>
      if symId < caches.symToCap then (slots caches)[symId]?.map fun place => (m, place)
      else return (m, walk m.ir name)

def objModuleGlobalByName : ObjModule → CStr → Option (ObjModule × Option Nat) :=
  moduleByName SymToCaches.symToGlobal fun m name => m.globals.findIdx? fun g => g.name == name

def objModuleFuncByName : ObjModule → CStr → Option (ObjModule × Option Nat) :=
  moduleByName SymToCaches.symToFunc funcByName

def objLookupModuleSymbolName (m : ObjModule) (name : CStr) : Option (ObjModule × Option CStr) :=
  if name = [] then some (m, none)
  else do
    let (m, g) ← objModuleGlobalByName m name
    match g.bind fun place => m.ir.globals[place]? with
    | some g => return (m, some g.name)
    | none =>
      let (m, f) ← objModuleFuncByName m name
      return (m, (f.bind fun place => m.ir.funcs[place]?).map LrFunc.name)

def objLookupModuleDefinedSymbolName (m : ObjModule) (name : CStr) :
    Option (ObjModule × Option CStr) :=
  if name = [] then some (m, none)
  else do
    let (m, g) ← objModuleGlobalByName m name
    match (g.bind fun place => m.ir.globals[place]?).filter fun g => !g.isExternal with
    | some g => return (m, some g.name)
    | none =>
      let (m, f) ← objModuleFuncByName m name
      let f := (f.bind fun place => m.ir.funcs[place]?).filter fun f => !f.blocks.isEmpty
      return (m, f.map LrFunc.name)

/-- The names that the walks go through, those of the globals before those of the functions. -/
def entityNames (m : LrModule) : List CStr :=
  m.globals.map LrGlobal.name ++ m.funcs.map LrFunc.name

def objLookupModuleScopedLocalName (m : LrModule) (baseName : CStr) : Option CStr :=
  if baseName = [] then none
  else (entityNames m).find? fun name => (baseName ++ localTag).isPrefixOf name

def isDigit (p : UInt8) : Bool := 48 ≤ p && p ≤ 57

/-- `strrchr(name, '.')` -/
def lastDot (name : CStr) : Option Nat :=
  (List.range name.length).reverse.find? fun i => name[i]? == some 46

/-- `ordinal` is computed in 64 bits. -/
def decimalValue (digits : CStr) : Nat :=
  digits.foldl (fun ordinal p => (ordinal * 10 + (p.toNat - 48)) % 2 ^ 64) 0

/-- The root of the name and its number, where the root has room. -/
def objSplitNumericSuffix (name : CStr) (rootCap : Nat) : Option (CStr × Nat) :=
  match lastDot name with
  | none => none
  | some dot =>
    let suffix := name.drop (dot + 1)
    if dot = 0 ∨ suffix = [] ∨ suffix.all isDigit = false ∨ rootCap ≤ dot then none
    else some (name.take dot, decimalValue suffix)

def objSymbolNameMatchesFamily (candidate root : CStr) : Bool :=
  candidate == root || (root.isPrefixOf candidate &&
    match candidate.drop root.length with
    | [] => false
    | c :: suffix => c == 46 && !suffix.isEmpty && suffix.all isDigit)

/-- The members are counted in the order of their declarations. -/
def objLookupModuleSymbolFamilyOrdinal (m : LrModule) (name : CStr) : Option CStr :=
  match objSplitNumericSuffix name 4096 with
  | none => none
  | some (root, ordinal) =>
    ((entityNames m).filter fun candidate => objSymbolNameMatchesFamily candidate root)[ordinal]?

def objResolveBlobRelocSymbolName (m : ObjModule) (name : CStr) : Option (ObjModule × CStr) :=
  if name = [] then some (m, name)
  else do
    let (m, exact) ← objLookupModuleSymbolName m name
    let (m, scopedName) ← objLookupModuleDefinedSymbolName m name
    match scopedName with
    | some scopedName => return (m, scopedName)
    | none =>
      match strstr name localTag with
      | none =>
        let scopedName := (objLookupModuleSymbolFamilyOrdinal m.ir name).or
          (objLookupModuleScopedLocalName m.ir name)
        return (m, (scopedName.or exact).getD name)
      | some baseLen =>
        if baseLen = 0 ∨ 4096 ≤ baseLen then return (m, name)
        let baseName := name.take baseLen
        match objLookupModuleSymbolFamilyOrdinal m.ir baseName with
        | some scopedName => return (m, scopedName)
        | none =>
          let (m, scopedName) ← objLookupModuleSymbolName m baseName
          let scopedName := scopedName.or (objLookupModuleScopedLocalName m.ir baseName)
          return (m, (scopedName.or exact).getD name)

end Liric.Source.Object
