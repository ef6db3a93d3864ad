import Liric.Source.Ir.Module
import Liric.Source.Object.Context

/-!
# Symbols of the JIT

Source: src/jit.h:9-40 (entries and providers), src/jit.c:43-62 (`lr_lazy_func_entry`), 976-1145
(`find_symbol_entry` to `register_default_symbol_providers`), 1147-1202
(`symbol_should_preserve_host_binding`, `lr_jit_add_symbol`), 1354-1511 (the two providers and the
lookups).

The hash buckets are searches by name. A last-hit pointer is the name of the
entry it points to. Addresses are numbers and the null pointer is 0. What `dlsym`
and the table of intrinsics answer does not change: no library is loaded while
the JIT is used. Allocations succeed.
-/
namespace Liric.Source.Jit
open Ir
open Object (ObjReloc)
open Lib (padUp)

/-- A handle of the loader: `dlsym` and `lr_platform_intrinsic_resolve_addr` on it. -/
structure Library where
  dlsym : CStr → Nat
  intrinsicResolveAddr : CStr → Nat

structure Host where
  libs : List Library
  process : Library

structure SymEntry where
  name : CStr
  addr : Nat
  deriving DecidableEq

inductive LazyFuncState where
  | pending | compiling | ready
  deriving DecidableEq

structure LazyFuncEntry where
  name : CStr
  module : LrModule
  func : LrFunc
  pendingAddr : Nat := 0
  state : LazyFuncState := .pending
  deriving DecidableEq

/-- A relocation that was written into the code: at `offset` of the code buffer,
for the address `target` of its symbol, through `slot` if it needs one. -/
structure Patch where
  offset : Nat
  type : UInt8
  target : Nat
  slot : Option Nat
  deriving DecidableEq

/-- A function whose code was appended to the code buffer. -/
structure PlacedFunc where
  name : CStr
  start : Nat
  codeLen : Nat
  /-- The relocations, with offsets in the code buffer. -/
  relocs : List ObjReloc
  deriving DecidableEq

/-- A part of the data buffer that was handed out, with the names it was handed out for. -/
structure DataRange where
  names : List CStr
  off : Nat
  size : Nat
  deriving DecidableEq

/-- Bytes that were written for the global of this name. -/
structure DataWrite where
  name : CStr
  addr : Nat
  len : Nat
  deriving DecidableEq

/-- The fields of `lr_jit_t` that symbols, relocations and lazy functions use. The
code buffer is given by the functions that were placed in it and the patches made
in it, the data buffer by the words that relocations of globals wrote, by what was
handed out of it and by where bytes were written for a global. -/
structure LrJit where
  codeBuf : Nat
  codeSize : Nat := 0
  codeCap : Nat
  dataBuf : Nat
  dataSize : Nat := 0
  dataCap : Nat
  symbols : List SymEntry := []
  lookupLastEntry : Option CStr := none
  miss : List CStr := []
  lazyFuncs : List LazyFuncEntry := []
  lookupLastLazyEntry : Option CStr := none
  placed : List PlacedFunc := []
  patches : List Patch := []
  globalWrites : List (Nat × BitVec 64) := []
  dataRanges : List DataRange := []
  dataWrites : List DataWrite := []
  deriving DecidableEq

/-- `".__liric_local."`. -/
def localTag : CStr :=
  ['.', '_', '_', 'l', 'i', 'r', 'i', 'c', '_', 'l', 'o', 'c', 'a', 'l', '.'].map
    fun c => UInt8.ofNat c.toNat

/-- `strstr`: where the needle first stands. -/
def strstr (haystack needle : CStr) : Option Nat :=
  (List.range (haystack.length + 1)).find? fun i => needle.isPrefixOf (haystack.drop i)

def findSymbolEntry (j : LrJit) (name : CStr) : Option SymEntry :=
  j.symbols.find? fun e => e.name == name

/-- The entry of the last hit, if it has this name. -/
def lastSymbolEntry (j : LrJit) (name : CStr) : Option SymEntry :=
  if j.lookupLastEntry = some name then findSymbolEntry j name else none

def lastLazyEntry (j : LrJit) (name : CStr) : Option LazyFuncEntry :=
  if j.lookupLastLazyEntry = some name then j.lazyFuncs.find? (fun e => e.name == name) else none

def findLazyFuncEntry (j : LrJit) (name : CStr) : LrJit × Option LazyFuncEntry :=
  if name = [] then (j, none)
  else
    match lastLazyEntry j name with
    | some e => (j, some e)
    | none =>
      match j.lazyFuncs.find? (fun e => e.name == name) with
      | some e => ({ j with lookupLastLazyEntry := some name }, some e)
      | none => (j, none)

def missCacheContains (j : LrJit) (name : CStr) : Bool := j.miss.contains name

def missCacheAdd (j : LrJit) (name : CStr) : LrJit :=
  if missCacheContains j name then j else { j with miss := name :: j.miss }

/-- Skip `'\01'` if something follows it. -/
def skipMark : CStr → CStr
  | 1 :: c :: rest => c :: rest
  | name => name

/-- One handle: the name, the name without an underscore, the intrinsics. -/
def resolveSymbolFromLibrary (lib : Library) (lookup : CStr) : Nat :=
  let addr := lib.dlsym lookup
  let addr :=
    match lookup with
    | 95 :: rest => if addr = 0 then lib.dlsym rest else addr
    | _ => addr
  if addr = 0 then lib.intrinsicResolveAddr lookup else addr

def resolveSymbolFromLoadedLibraries (host : Host) (name : CStr) : Nat :=
  if name = [] then 0
  else
    ((host.libs.map fun lib => resolveSymbolFromLibrary lib (skipMark name)).find? (· ≠ 0)).getD 0

def resolveSymbolFromProcess (host : Host) (name : CStr) : Nat :=
  if name = [] then 0 else resolveSymbolFromLibrary host.process (skipMark name)

/-- The two providers in the order of their registration. -/
def resolveSymbolFromProviders (host : Host) (name : CStr) : Nat :=
  let addr := resolveSymbolFromLoadedLibraries host name
  if addr = 0 then resolveSymbolFromProcess host name else addr

/-- Here the process is asked first. -/
def symbolShouldPreserveHostBinding (host : Host) (name : CStr) (existingAddr : Nat) : Bool :=
  if name = [] || existingAddr == 0 || (strstr name localTag).isSome then false
  else
    let addr := resolveSymbolFromProcess host name
    let addr := if addr = 0 then resolveSymbolFromLoadedLibraries host name else addr
    addr != 0 && addr == existingAddr

def lrJitAddSymbol (host : Host) (j : LrJit) (name : CStr) (addr : Nat) : LrJit :=
  if name = [] then j
  else
    match findSymbolEntry j name with
    | some existing =>
      if symbolShouldPreserveHostBinding host name existing.addr then j
      else
        { j with
          symbols := j.symbols.map fun e => if e.name == name then { e with addr := addr } else e
          lookupLastEntry := some name }
    | none =>
      { j with
        symbols := { name := name, addr := addr } :: j.symbols
        lookupLastEntry := some name }

/-- The part of the exact lookup behind the lazy functions. Both providers skip
names that are known to be missing and have their answers kept as symbols. -/
def lookupSymbolTables (host : Host) (j : LrJit) (name : CStr) : LrJit × Nat :=
  match lastSymbolEntry j name with
  | some e => (j, e.addr)
  | none =>
    match findSymbolEntry j name with
    | some e => ({ j with lookupLastEntry := some name }, e.addr)
    | none =>
      if missCacheContains j name then (j, 0)
      else
        let addr := resolveSymbolFromProviders host name
        if addr = 0 then (missCacheAdd j name, 0) else (lrJitAddSymbol host j name addr, addr)

def lookupSymbolHashedExact (host : Host) (j : LrJit) (name : CStr) : LrJit × Nat :=
  let (j, lazy) := findLazyFuncEntry j name
  match lazy with
  | none => lookupSymbolTables host j name
  | some e =>
    match e.state with
    | .compiling => (j, e.pendingAddr)
    | .pending => (j, 0)
    | .ready => lookupSymbolTables host j name

def lookupSymbolHashedAlias (host : Host) (j : LrJit) (name aliasName : CStr) : LrJit × Nat :=
  if aliasName = [] ∨ name = aliasName then (j, 0)
  else
    let (j, addr) := lookupSymbolHashedExact host j aliasName
    if addr = 0 then (j, 0) else (lrJitAddSymbol host j name addr, addr)

/-- The other spelling of a name: without its underscore, or with one. -/
def underscoreAlias : CStr → CStr
  | 95 :: c :: rest => c :: rest
  | canonical => 95 :: canonical

/-- The name in front of the local tag, if there is one. -/
def localBase (canonical : CStr) : CStr :=
  match strstr canonical localTag with
  | some i => canonical.take i
  | none => []

/-- A zeroed word of the data buffer for a local name that nothing defines. -/
def localPlaceholder (host : Host) (j : LrJit) (name canonical : CStr) : LrJit × Nat :=
  if (strstr canonical localTag).isSome then
    let off := padUp j.dataSize 8
    if off + 8 ≤ j.dataCap then
      let placeholder := j.dataBuf + off
      let j := lrJitAddSymbol host { j with
        dataSize := off + 8
        dataRanges := j.dataRanges ++ [⟨[name, canonical], off, 8⟩] } name placeholder
      (if canonical = name then j else lrJitAddSymbol host j canonical placeholder, placeholder)
    else (j, 0)
  else (j, 0)

/-- `lookup_symbol_hashed` behind the exact lookup of the name and of the name
without its mark. -/
def lookupSymbolAliases (host : Host) (j : LrJit) (name canonical : CStr) : LrJit × Nat :=
  let (j, addr) := lookupSymbolHashedAlias host j name (underscoreAlias canonical)
  if addr ≠ 0 then (j, addr)
  else
    let (j, addr) := lookupSymbolHashedAlias host j name (localBase canonical)
    if addr ≠ 0 then (j, addr) else localPlaceholder host j name canonical

def lookupSymbolHashed (host : Host) (j : LrJit) (name : CStr) : LrJit × Nat :=
  if name = [] then (j, 0)
  else
    let (j, addr) := lookupSymbolHashedExact host j name
    if addr ≠ 0 then (j, addr)
    else
      let canonical := skipMark name
      -- without a mark the alias is the name itself and is not looked up again
      let (j, addr) := lookupSymbolHashedAlias host j name canonical
      if addr ≠ 0 then (j, addr) else lookupSymbolAliases host j name canonical

end Liric.Source.Jit
