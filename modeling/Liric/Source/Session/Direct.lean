import Liric.Source.Session.Building

/-!
# Compiling functions in a direct session

Source: src/session.c:511-526 (`ensure_runtime_and_globals_ready`), 720-741 and 803-1003
(`init_direct_obj_ctx`, `patch_direct_relocs` to `capture_blob`), 1458-1689
(`finish_direct_compile`), 2212-2275 (`lr_session_create`), 2327-2332 (`lr_session_add_symbol`),
2462-2493 (`lr_session_lookup`), 2572-2642 (globals), 2672-2761 and 2795-2842
(`lr_session_func_begin`, `lr_session_func_begin_existing`, `lr_session_func_end`), 3171-3185
(`lr_session_set_module`).

`stream` stands for `lr_func_finalize`, `compile_begin`, `lr_replay_function_stream`
and `compile_end` of the target: the relocations it emits into the object context, by
the names of their symbols, and the code, or none if one of the four fails. What the
finalization removes from the IR is not kept. There is no runtime bitcode, page
protections change when asked to, and the caches of the object context over the
symbols of the module, which only save lookups, are left out: a missing symbol that
belongs to the module fails a lookup like any other. A recursion of the JIT that does
not end is `none`.
-/
namespace Liric.Source.Session
open Ir Object
open Jit (LrJit PlacedFunc applyJitRelocs lrJitAddSymbol lrJitGetSymbol
  lrJitMaterializeGlobals)
open Lib (padUp)

/-- What the target does with a function: the offsets are those in its code. -/
structure StreamResult where
  relocs : List CachedReloc
  code : Option (List UInt8)
  deriving DecidableEq

structure SessionEnv where
  jit : Jit.Env
  /-- The last argument is the capacity of the buffer for the code. -/
  stream : LrModule → LrFunc → Nat → StreamResult

/-- `modules` are all modules that the session will know, `module` is its own. -/
def lrSessionCreate (jit : LrJit) (modules : List LrModule) (module : Nat) : LrSession :=
  { jit := jit, modules := modules, module := module }

/-- `0`, `1` for an unresolved symbol, `-1` for an error. -/
inductive PatchResult where
  | patched | unresolved | failed
  deriving DecidableEq

/-- The relocations of the context from `relocStart` on; `stop` is their number. -/
def patchDirectRelocsUpTo (env : SessionEnv) (s : LrSession) (relocStart stop : Nat) :
    LrSession × PatchResult :=
  if !s.directObjCtxActive then (s, .patched)
  else
    let ctx := { s.directObjCtx with relocs := s.directObjCtx.relocs.take stop }
    match applyJitRelocs env.jit.host s.jit ctx relocStart with
    | (j, none) => ({ s with jit := j }, .patched)
    | (j, some .hard) => ({ s with jit := j }, .failed)
    | (j, some (.missing symbol)) =>
      ({ s with jit := j }, if symbol = [] then .failed else .unresolved)

def patchDirectRelocs (env : SessionEnv) (s : LrSession) (relocStart : Nat) :
    LrSession × PatchResult :=
  patchDirectRelocsUpTo env s relocStart s.directObjCtx.relocs.length

def patchDirectRelocRange (env : SessionEnv) (s : LrSession) (rr : DirectRelocRange) :
    LrSession × PatchResult :=
  if rr.stop ≤ rr.start then (s, .patched) else patchDirectRelocsUpTo env s rr.start rr.stop

def clearPending (s : LrSession) : LrSession :=
  { s with directPendingRelocs := false, directPendingRelocStart := 0 }

def tryPatchPendingDirectRelocs (env : SessionEnv) (s : LrSession) : LrSession :=
  if !s.directPendingRelocs || !s.directObjCtxActive then s
  else
    match patchDirectRelocs env s s.directPendingRelocStart with
    | (s, .patched) => clearPending s
    | (s, _) => s

/-- A range with an unresolved symbol is left for later. -/
def deferRange (s : LrSession) (rr : DirectRelocRange) : LrSession :=
  let start :=
    if !s.directPendingRelocs || rr.start < s.directPendingRelocStart then rr.start
    else s.directPendingRelocStart
  { s with directPendingRelocStart := start, directPendingRelocs := true }

/-- The ranges of the function that was just placed; an error ends the loop. -/
def patchOwnRanges (env : SessionEnv) : LrSession → List DirectRelocRange → LrSession × Bool
  | s, [] => (s, true)
  | s, rr :: rest =>
    match patchDirectRelocRange env s rr with
    | (s, .patched) => patchOwnRanges env s rest
    | (s, .unresolved) => patchOwnRanges env (deferRange s rr) rest
    | (s, .failed) => (s, false)

def initDirectObjCtx (s : LrSession) : LrSession :=
  if s.directObjCtxActive then s
  else { s with directObjCtx := ⟨[], [], []⟩, directObjCtxActive := true }

def directCompileBufCapacity (s : LrSession) : Nat := s.jit.codeCap - s.jit.codeSize

def beginDirectCompile (s : LrSession) : LrSession × Bool :=
  match s.curFunc with
  | none => (s, true)
  | some r =>
    let s := setObjCtx (initDirectObjCtx s)
    let s := { s with
      directRelocBase := s.directObjCtx.relocs.length
      directRelocRanges := []
      directRelocActiveStart := s.directObjCtx.relocs.length
      directRelocActive := true }
    let desiredCap := directCompileBufCapacity s
    if desiredCap = 0 then (clearObjCtx s, false)
    else
      let s :=
        if s.funcCompileBufCap ≥ desiredCap then s else { s with funcCompileBufCap := desiredCap }
      let name := ((findFunc s.modules r).map fun f => f.name).getD []
      let s :=
        if name = [] then s
        else { s with directObjCtx := (lrObjEnsureSymbol id s.directObjCtx name false 0 0).1 }
      ({ s with compileActive := true, compileDeferred := true, compileOpenedUpdate := false },
        true)

def ensureRuntimeAndGlobalsReady (env : SessionEnv) (s : LrSession) : Option (LrSession × Bool) :=
  match s.modules[s.module]? with
  | none => some (s, true)
  | some m =>
    if m.globals.isEmpty then some (s, true)
    else do
      let (j, ok) ← lrJitMaterializeGlobals env.jit s.jit m
      return ({ s with jit := j }, ok)

def markDecl (s : LrSession) (r : FuncRef) : LrSession :=
  updateFuncRef s r fun f => { f with isDecl := true }

/-- The fields that `lr_session_func_begin` resets. -/
def resetBuild (s : LrSession) (r : FuncRef) : LrSession :=
  resetPhiCopies { s with
    curFunc := some r
    curBlock := none
    blockCount := 0
    compileActive := false
    emittedCount := 0 }

/-- The part of the two beginnings behind the reset; `onError` is what the first of
them does to its new function. -/
def startCompile (env : SessionEnv) (s : LrSession) (onError : LrSession → LrSession) :
    Option (LrSession × Bool) := do
  let (s, ok) ← ensureRuntimeAndGlobalsReady env s
  if !ok then return (finishFunctionState (onError s), false)
  else
    let (s, ok) := beginDirectCompile s
    if ok then return (s, true) else return (finishFunctionState (onError s), false)

def lrSessionFuncBegin (env : SessionEnv) (s : LrSession) (name : CStr) (ret : Option LrType)
    (params : List LrType) (vararg : Bool) : Option (LrSession × Bool) :=
  if name = [] then some (s, false)
  else if s.curFunc.isSome then some (s, false)
  else
    match s.modules[s.module]? with
    | none => some (s, false)
    | some m => do
      let (m', _) ← lrFuncCreate m name (ret.getD m.builtin.typeVoid) params vararg
      let r : FuncRef := ⟨s.module, m.funcs.length⟩
      let s := resetBuild { s with modules := s.modules.set s.module m' } r
      startCompile env s fun s => markDecl s r

/-- A module or a function that does not exist is the null pointer. -/
def lrSessionFuncBeginExisting (env : SessionEnv) (s : LrSession) (r : FuncRef) :
    Option (LrSession × Bool) :=
  match findFunc s.modules r with
  | none => some (s, false)
  | some _ =>
    if s.curFunc.isSome then some (s, false)
    else startCompile env (resetBuild { s with module := r.module } r) id

/-- The relocations that the target emits. -/
def emitRelocs (ctx : ObjfileCtx) (relocs : List CachedReloc) : ObjfileCtx :=
  relocs.foldl (fun ctx r =>
    let (ctx, idx) := lrObjEnsureSymbol id ctx r.symbolName false 0 0
    lrObjAddReloc ctx r.offset idx r.type) ctx

/-- The relocations in the ranges of the current function. -/
def ownRelocs (s : LrSession) : List ObjReloc :=
  s.directRelocRanges.flatMap fun rr => (s.directObjCtx.relocs.take rr.stop).drop rr.start

def captureBlob (s : LrSession) (name : CStr) (code : List UInt8) : Option LrSession := do
  let relocs ← (ownRelocs s).mapM fun rel =>
    (s.directObjCtx.symbols[rel.symbolIdx.toNat]?).map fun sym =>
      (⟨rel.offset, rel.type, sym.name⟩ : CachedReloc)
  return { s with blobs := s.blobs ++ [⟨name, code, relocs⟩] }

def rebaseRange (start : Nat) (relocs : List ObjReloc) (rr : DirectRelocRange) : List ObjReloc :=
  relocs.mapIdx fun i rel =>
    if rr.start ≤ i ∧ i < rr.stop then { rel with offset := rel.offset + BitVec.ofNat 32 start }
    else rel

/-- The offsets of the own relocations become offsets in the code buffer. -/
def rebaseOwnRelocs (s : LrSession) (start : Nat) : LrSession :=
  { s with directObjCtx := { s.directObjCtx with
    relocs := s.directRelocRanges.foldl (rebaseRange start) s.directObjCtx.relocs } }

/-- The way out of `finish_direct_compile`, with an error or without. -/
def leaveCompile (s : LrSession) (shouldCloseUpdate : Bool) : LrSession :=
  let s := clearObjCtx s
  if shouldCloseUpdate then { s with updateActive := false } else s

/-- The code is copied into the code buffer at `start`. -/
def placeCode (s : LrSession) (name : CStr) (start codeLen : Nat) : LrSession :=
  let func : PlacedFunc := ⟨name, start, codeLen, ownRelocs s⟩
  { s with jit := { s.jit with codeSize := start + codeLen, placed := s.jit.placed ++ [func] } }

/-- Pending relocations are tried again; `false` is an error. -/
def patchPending (env : SessionEnv) (s : LrSession) : LrSession × Bool :=
  if !s.directPendingRelocs then (s, true)
  else
    match patchDirectRelocs env s s.directPendingRelocStart with
    | (s, .patched) => (clearPending s, true)
    | (s, .unresolved) => (s, true)
    | (s, .failed) => (s, false)

/-- The function has been compiled to `code` and its relocations are in the context. -/
def finishPlaced (env : SessionEnv) (s : LrSession) (r : FuncRef) (name : CStr)
    (code : List UInt8) : LrSession × Bool :=
  let start := padUp s.jit.codeSize 16
  if start + code.length > s.jit.codeCap then (s, false)
  else
    let s :=
      if name = [] then s
      else { s with directObjCtx :=
        (lrObjEnsureSymbol id s.directObjCtx name true 1 (BitVec.ofNat 32 start)).1 }
    match captureBlob s name code with
    | none => (s, false)
    | some s =>
      let s := placeCode (rebaseOwnRelocs s start) name start code.length
      match patchOwnRanges env s s.directRelocRanges with
      | (s, false) => (s, false)
      | (s, true) =>
        let s := { s with jit := lrJitAddSymbol env.jit.host s.jit name (s.jit.codeBuf + start) }
        patchPending env (markDecl s r)

def finishDirectCompile (env : SessionEnv) (s : LrSession) : LrSession × Bool :=
  match s.curFunc with
  | none => (s, false)
  | some r =>
    match s.modules[s.module]?, findFunc s.modules r with
    | some m, some f =>
      let s :=
        if s.updateActive then s else { s with updateActive := true, compileOpenedUpdate := true }
      let shouldCloseUpdate := s.compileOpenedUpdate
      let out := env.stream m f s.funcCompileBufCap
      let s := { s with directObjCtx := emitRelocs s.directObjCtx out.relocs }
      match out.code with
      | none => (leaveCompile s shouldCloseUpdate, false)
      | some code =>
        let s := { s with
          compileDeferred := false, compileActive := false, compileOpenedUpdate := false }
        let (s, ok) := finishPlaced env (closeActiveDirectRelocRange s) r f.name code
        (leaveCompile s shouldCloseUpdate, ok)
    | _, _ => (s, false)

/-- A function without blocks stays active. -/
def lrSessionFuncEnd (env : SessionEnv) (s : LrSession) : Option (LrSession × Bool) :=
  match s.curFunc with
  | none => some (s, false)
  | some _ =>
    let (s, ok) := validateBlockTermination s
    if !ok then some (s, false)
    else if s.compileActive then
      let (s, ok) := finishDirectCompile env s
      some (finishFunctionState s, ok)
    else none

def lrSessionAddSymbol (env : SessionEnv) (s : LrSession) (name : CStr) (addr : Nat) : LrSession :=
  if name = [] then s
  else
    tryPatchPendingDirectRelocs env
      { s with jit := lrJitAddSymbol env.jit.host s.jit name addr }

/-- The globals of the module get their storage, then pending relocations are tried. -/
def globalsChanged (env : SessionEnv) (s : LrSession) : Option LrSession :=
  match s.modules[s.module]? with
  | none => some s
  | some m => do
    let (j, ok) ← lrJitMaterializeGlobals env.jit s.jit m
    let s := { s with jit := j }
    return if ok then tryPatchPendingDirectRelocs env s else s

/-- The last global of the module gets its initial bytes. -/
def setInit (init : List UInt8) (m : LrModule) : LrModule :=
  if init.isEmpty then m
  else { m with globals := m.globals.modify (m.globals.length - 1) fun g =>
    { g with initData := some init, initSize := init.length } }

def lrSessionGlobal (env : SessionEnv) (s : LrSession) (name : CStr) (type : Option LrType)
    (isConst : Bool) (init : List UInt8) : Option LrSession :=
  globalsChanged env
    (updateModule s s.module fun m => setInit init (lrGlobalCreate m name type isConst))

def lrSessionGlobalExtern (env : SessionEnv) (s : LrSession) (name : CStr)
    (type : Option LrType) : Option LrSession :=
  globalsChanged env (updateModule s s.module fun m =>
    let m := lrGlobalCreate m name type false
    { m with globals := m.globals.modify (m.globals.length - 1) fun g =>
      { g with isExternal := true } })

/-- A new relocation stands in front of the others. -/
def lrSessionGlobalReloc (env : SessionEnv) (s : LrSession) (id offset : Nat) (sym : CStr) :
    Option LrSession :=
  match (s.modules[s.module]?).bind fun m => m.globals.findIdx? fun g => g.id == id with
  | none => some s
  | some i =>
    globalsChanged env (updateModule s s.module fun m =>
      { m with globals := m.globals.modify i fun g =>
        { g with relocs := ⟨offset, 0, sym⟩ :: g.relocs } })

/-- The address is 0 while relocations are pending. -/
def lrSessionLookup (env : SessionEnv) (s : LrSession) (name : CStr) : Option (LrSession × Nat) :=
  if name = [] then some (s, 0)
  else do
    let (s, ok) ← ensureRuntimeAndGlobalsReady env s
    if !ok then return (s, 0)
    else
      let s :=
        if s.directPendingRelocs && s.directObjCtxActive then (patchPending env s).1 else s
      if s.directPendingRelocs && s.directObjCtxActive then return (s, 0)
      else
        let (j, addr) ← lrJitGetSymbol env.jit s.jit name
        return ({ s with jit := j }, addr)

def lrSessionSetModule (s : LrSession) (module : Nat) : LrSession × Bool :=
  if s.modules.length ≤ module then (s, false)
  else if s.compileActive || s.curFunc.isSome then (s, false)
  else ({ s with module := module }, true)

end Liric.Source.Session
