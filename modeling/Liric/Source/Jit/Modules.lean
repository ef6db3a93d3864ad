import Liric.Source.Jit.Relocs
import Liric.Source.Jit.Signature

/-!
# Modules and lazy functions of the JIT

Source: src/jit.c:33-34 (buffer sizes), 1057-1107 (`upsert_lazy_func_entry`), 1590-1690 (globals),
2079-2159 (`replay_cached_function`, `compile_one_function`), 2549-2803
(`register_lazy_module_functions`, `materialize_lazy_function`), 2805-2998 (`lr_jit_add_module`,
`lr_jit_get_symbol`).

A module is taken as `lr_module_disambiguate_local_function_collisions` leaves it
and has its symbols interned; there is no runtime bitcode and page protections
change when asked to. `compile` is `lr_target_compile`: the length of the code it
writes and its relocations. A function whose signature is in the materialisation
cache is replayed instead, which appends the same code and relocations once more,
so one definition stands for both. Lazy entries are known by their names. A call
of `materialize_lazy_function` or a turn of its loop that would be one too many is
`none`.
-/
namespace Liric.Source.Jit
open Ir Object
open Lib (padUp)

def codePageSize : Nat := 16 * 1024 * 1024
def dataPageSize : Nat := 64 * 1024 * 1024

/-- The code of a function before relocation, by its length. -/
structure Compiled where
  codeLen : Nat
  relocs : List CachedReloc
  deriving DecidableEq

structure Env where
  host : Host
  /-- The last argument is the free space of the code buffer. -/
  compile : LrModule → LrFunc → Nat → Option Compiled

def updateLazyEntry (j : LrJit) (name : CStr) (change : LazyFuncEntry → LazyFuncEntry) : LrJit :=
  { j with lazyFuncs := j.lazyFuncs.map fun e => if e.name == name then change e else e }

def upsertLazyFuncEntry (j : LrJit) (m : LrModule) (f : LrFunc) : LrJit :=
  let (j, existing) := findLazyFuncEntry j f.name
  let j :=
    match existing with
    | some _ =>
      updateLazyEntry j f.name fun e =>
        { e with module := m, func := f, pendingAddr := 0, state := .pending }
    | none => { j with lazyFuncs := { name := f.name, module := m, func := f } :: j.lazyFuncs }
  { j with lookupLastLazyEntry := some f.name }

/-- The relocations of a function that was placed at `codeBase`. -/
def appendRelocs (ctx : ObjfileCtx) (codeBase : Nat) (relocs : List CachedReloc) : ObjfileCtx :=
  relocs.foldl (fun ctx r =>
    let (ctx, idx) := lrObjEnsureSymbol id ctx r.symbolName false 0 0
    lrObjAddReloc ctx (BitVec.ofNat 32 (codeBase + r.offset)) idx r.type) ctx

/-- The function is appended to the code; its address and the context with its
symbol and relocations. -/
def compileOneFunction (env : Env) (j : LrJit) (m : LrModule) (f : LrFunc) (ctx : ObjfileCtx) :
    Option (LrJit × ObjfileCtx × Nat) :=
  let free := j.codeCap - j.codeSize
  let ctx :=
    if f.name = [] then ctx
    else (lrObjEnsureSymbol id ctx f.name true 1 (BitVec.ofNat 32 j.codeSize)).1
  match env.compile m f free with
  | none => none
  | some c =>
    if c.codeLen > free then none
    else
      let ctx' := appendRelocs ctx j.codeSize c.relocs
      let func : PlacedFunc := ⟨f.name, j.codeSize, c.codeLen, ctx'.relocs.drop ctx.relocs.length⟩
      some ({ j with codeSize := j.codeSize + c.codeLen, placed := j.placed ++ [func] }, ctx',
        j.codeBuf + j.codeSize)

def lookupSymbol (host : Host) (j : LrJit) (name : CStr) : LrJit × Nat :=
  lookupSymbolHashed host j name

/-- `lr_type_size` of a type that may be null, and never 0. -/
def globalSize (g : LrGlobal) : Nat :=
  let size := (g.type.map fun t => (lrTypeSize t).toNat).getD 0
  if size = 0 then 8 else size

def globalAlign (g : LrGlobal) : Nat :=
  let align := (g.type.map fun t => (lrTypeAlign t).toNat).getD 1
  if align = 0 then 8 else align

section Recursion
-- `materialize` is `materialize_lazy_function`, which the functions of this
-- section call and are called by
variable (env : Env) (materialize : LrJit → CStr → Option (LrJit × Bool))

def lookupSymbolMaterializingLazy (j : LrJit) (name : CStr) : Option (LrJit × Nat) :=
  if name = [] then some (j, 0)
  else
    let (j, lazy) := findLazyFuncEntry j name
    match lazy with
    | none => some (lookupSymbolHashed env.host j name)
    | some e =>
      match e.state with
      | .compiling => some (j, e.pendingAddr)
      | .ready => some (lookupSymbolHashed env.host j name)
      | .pending => do
        let (j, ok) ← materialize j name
        if ok then return lookupSymbolHashed env.host j name else return (j, 0)

/-- The relocations of one global at `base`. -/
def applyGlobalRelocs (g : LrGlobal) (base : Nat) : LrJit → List LrReloc → Option LrJit
  | j, [] => some j
  | j, r :: rest => do
    let (j, target) ← lookupSymbolMaterializingLazy env materialize j r.symbolName
    let place := (base + r.offset) % 2 ^ 64
    let j :=
      -- the sums are of `size_t`
      if target ≠ 0 ∧ (r.offset + 8) % 2 ^ 64 ≤ globalSize g then
        { j with
          globalWrites := j.globalWrites ++ [(place, BitVec.ofNat 64 target + r.addend)]
          dataWrites := j.dataWrites ++ [⟨g.name, place, 8⟩] }
      else j
    applyGlobalRelocs g base j rest

def applyModuleGlobalRelocs : LrJit → List LrGlobal → Option LrJit
  | j, [] => some j
  | j, g :: rest =>
    if g.relocs.isEmpty then applyModuleGlobalRelocs j rest
    else
      let (j, base) := lookupSymbol env.host j g.name
      if base = 0 then applyModuleGlobalRelocs j rest
      else do
        let j ← applyGlobalRelocs env materialize g base j g.relocs
        applyModuleGlobalRelocs j rest

/-- `while (1)`: the relocations are applied until none misses a symbol that is a
function to materialise. -/
def materializeDependencies (ctx : ObjfileCtx) : Nat → LrJit → Option (LrJit × Bool)
  | 0, _ => none
  | turns + 1, j =>
    match applyJitRelocs env.host j ctx 0 with
    | (j, none) => some (j, true)
    | (j, some .hard) => some (j, false)
    | (j, some (.missing symbol)) =>
      let (j, dep) := findLazyFuncEntry j symbol
      match dep with
      | none => some (j, false)
      | some d =>
        match d.state with
        | .ready | .compiling => some (j, false)
        | .pending => do
          let (j, ok) ← materialize j symbol
          if ok then materializeDependencies ctx turns j else return (j, false)

end Recursion

/-- The entry is given up: its code stays where it is. -/
def abandonLazyEntry (j : LrJit) (name : CStr) : LrJit :=
  updateLazyEntry j name fun e => { e with pendingAddr := 0, state := .pending }

def beginLazyEntry (j : LrJit) (name : CStr) : LrJit :=
  updateLazyEntry j name fun e => { e with pendingAddr := 0, state := .compiling }

/-- The context of one function; `none` is a failed compilation, which may have
advanced the code already. -/
def compileLazyFunction (env : Env) (j : LrJit) (e : LazyFuncEntry) :
    LrJit × Option (ObjfileCtx × Nat) :=
  match compileOneFunction env j e.module e.func ⟨[], [], []⟩ with
  | none => (j, none)
  | some (j', ctx, addr) =>
    if j'.codeSize = j.codeSize then (j', none)
    else if ctx.symbols.any (fun sym => sym.name.isEmpty) then (j', none)
    else (j', some (ctx, addr))

/-- The second component is whether 0 is returned. -/
def materializeLazyFunction (env : Env) : Nat → LrJit → CStr → Option (LrJit × Bool)
  | 0, _, _ => none
  | fuel + 1, j, name =>
    match j.lazyFuncs.find? (fun e => e.name == name) with
    | none => some (j, false)
    | some e =>
      match e.state with
      | .ready | .compiling => some (j, true)
      | .pending =>
        match compileLazyFunction env (beginLazyEntry j name) e with
        | (j, none) => some (abandonLazyEntry j name, false)
        | (j, some (ctx, addr)) => do
          let j := updateLazyEntry j name fun e => { e with pendingAddr := addr }
          let rec' := materializeLazyFunction env fuel
          let (j, ok) ← materializeDependencies env rec' ctx (fuel + 1) j
          if ok then
            let j := lrJitAddSymbol env.host j name addr
            let j := updateLazyEntry j name fun e => { e with pendingAddr := 0, state := .ready }
            let j ← applyModuleGlobalRelocs env rec' j e.module.globals
            return (j, true)
          else return (abandonLazyEntry j name, false)

/-- Every call of the recursion takes a pending entry, so this is enough fuel. -/
def materializeFuel (j : LrJit) : Nat := j.lazyFuncs.length + 1

def materializeTop (env : Env) (j : LrJit) (name : CStr) : Option (LrJit × Bool) :=
  materializeLazyFunction env (materializeFuel j) j name

/-- The storage of a global at `off`, with its image. -/
def recordGlobal (j : LrJit) (g : LrGlobal) (off : Nat) : LrJit :=
  { j with
    dataRanges := j.dataRanges ++ [⟨[g.name], off, globalSize g⟩]
    dataWrites := j.dataWrites ++ [⟨g.name, j.dataBuf + off, globalSize g⟩] }

/-- One global of `lr_jit_materialize_globals`; `none` if the data buffer is full. -/
def materializeGlobal (host : Host) (j : LrJit) (g : LrGlobal) : Option LrJit :=
  if g.name = [] then some j
  else if g.isExternal then
    match findSymbolEntry j g.name with
    | some _ => some j
    | none => some (lookupSymbol host j g.name).1
  else
    match findSymbolEntry j g.name with
    | some _ => some j
    | none =>
      let off := padUp j.dataSize (globalAlign g)
      if off + globalSize g > j.dataCap then none
      else
        some (lrJitAddSymbol host
          { recordGlobal j g off with dataSize := off + globalSize g } g.name (j.dataBuf + off))

/-- A full buffer is noticed in `size_t`: a sum that wraps around is taken for one that fits, and
the image is written. The process does not survive that, so nothing else is kept of it. -/
def overrunGlobal (j : LrJit) (g : LrGlobal) : LrJit :=
  let off := alignUp (BitVec.ofNat 64 j.dataSize) (BitVec.ofNat 64 (globalAlign g))
  if (off + BitVec.ofNat 64 (globalSize g)).toNat > j.dataCap then j
  else recordGlobal j g off.toNat

/-- The first pass; the globals before a failure keep their storage. -/
def allocateGlobals (host : Host) : LrJit → List LrGlobal → LrJit × Bool
  | j, [] => (j, true)
  | j, g :: rest =>
    match materializeGlobal host j g with
    | none => (overrunGlobal j g, false)
    | some j => allocateGlobals host j rest

def lrJitMaterializeGlobals (env : Env) (j : LrJit) (m : LrModule) : Option (LrJit × Bool) :=
  match allocateGlobals env.host j m.globals with
  | (j, false) => some (j, false)
  | (j, true) => do
    let j ← applyModuleGlobalRelocs env (materializeTop env) j m.globals
    return (j, true)

def definedFuncs (m : LrModule) : List LrFunc := m.funcs.filter fun f => !f.isDecl

def addMissingName (j : LrJit) (name : CStr) : LrJit :=
  match findSymbolEntry j name with
  | some _ => j
  | none => missCacheAdd j name

def registerLazyModuleFunctions (j : LrJit) (m : LrModule) : LrJit :=
  (definedFuncs m).foldl (fun j f =>
    if f.name = [] then j else addMissingName (upsertLazyFuncEntry j m f) f.name) j

def preRegisterNames (j : LrJit) (m : LrModule) : LrJit :=
  (definedFuncs m).foldl (fun j f => if f.name = [] then j else addMissingName j f.name) j

/-- Function declarations are resolved at once. -/
def resolveDeclarations (host : Host) (j : LrJit) (m : LrModule) : LrJit :=
  m.funcs.foldl (fun j f => if f.isDecl ∧ f.name ≠ [] then (lookupSymbol host j f.name).1 else j) j

/-- The compile loop of the eager mode, with the addresses of the functions. A
failure leaves the code of the functions before it. -/
def compileAll (env : Env) (m : LrModule) :
    LrJit → ObjfileCtx → List LrFunc → LrJit × Option (ObjfileCtx × List (CStr × Nat))
  | j, ctx, [] => (j, some (ctx, []))
  | j, ctx, f :: rest =>
    match compileOneFunction env j m f ctx with
    | none => (j, none)
    | some (j, ctx, addr) =>
      match compileAll env m j ctx rest with
      | (j, none) => (j, none)
      | (j, some (ctx, addrs)) => (j, some (ctx, (f.name, addr) :: addrs))

/-- The part of `lr_jit_add_module` that only the eager mode runs. -/
def compileModule (env : Env) (j : LrJit) (m : LrModule) : Option (LrJit × Bool) :=
  match compileAll env m j ⟨[], [], []⟩ (definedFuncs m) with
  | (j, none) => some (j, false)
  | (j, some (ctx, addrs)) =>
    match applyJitRelocs env.host j ctx 0 with
    | (j, some _) => some (j, false)
    | (j, none) => do
      let j := addrs.foldl (fun j p => lrJitAddSymbol env.host j p.1 p.2) j
      let j ← applyModuleGlobalRelocs env (materializeTop env) j m.globals
      return (j, true)

/-- `lazyMode` is `jit_lazy_materialization_enabled`. -/
def lrJitAddModule (env : Env) (lazyMode : Bool) (j : LrJit) (m : LrModule) :
    Option (LrJit × Bool) := do
  let (j, ok) ← lrJitMaterializeGlobals env j m
  if !ok then return (j, false)
  else if (definedFuncs m).isEmpty then
    let j ← applyModuleGlobalRelocs env (materializeTop env) j m.globals
    return (j, true)
  else if lazyMode then
    let j := resolveDeclarations env.host (registerLazyModuleFunctions j m) m
    let j ← applyModuleGlobalRelocs env (materializeTop env) j m.globals
    return (j, true)
  else compileModule env (resolveDeclarations env.host (preRegisterNames j m) m) m

def lrJitGetSymbol (env : Env) (j : LrJit) (name : CStr) : Option (LrJit × Nat) :=
  if name = [] then some (j, 0)
  else
    let (j, addr) := lookupSymbolHashed env.host j name
    if addr ≠ 0 then some (j, addr)
    else
      let (j, lazy) := findLazyFuncEntry j name
      match lazy with
      | none => some (lookupSymbolHashed env.host j name)
      | some e =>
        if e.state = .ready then some (lookupSymbolHashed env.host j name)
        else do
          let (j, ok) ← materializeTop env j name
          if ok then return lookupSymbolHashed env.host j name else return (j, 0)

end Liric.Source.Jit
