import Liric.Source.Session.Direct

/-!
# Functions and blocks in a session of any mode

Source: src/session.c:511-526 (`ensure_runtime_and_globals_ready`), 602-619
(`direct_mode_enabled`, `module_jit_deferred_until_lookup`), 863-949 (`begin_direct_compile`),
2129-2208 (`compile_current_function`), 2672-2761 and 2795-2842 (`lr_session_func_begin`,
`lr_session_func_begin_existing`, `lr_session_func_end`), 2895-2944 (`lr_session_adopt_block`,
`lr_session_bind_ir`).

Blocks, instructions and the end of a function are built as in a direct session. The mode
decides how a function begins and how its IR is compiled: `direct_llvm_stream` and
`ir_module_jit_ready`, which nothing here reads, are left out. A null pointer to a module, a
function or a block is one that does not exist.
-/
namespace Liric.Source.Session.Modes
open Ir Object
open Jit (LrJit)

/-- `cfg.mode` with the mode and the target of the JIT, as far as they decide. -/
inductive Policy where
  | ir
  | directLlvm (available : Bool)
  | direct (canCompile : Bool)
  deriving DecidableEq

structure ModeEnv where
  direct : SessionEnv
  policy : Policy
  /-- `preload_runtime_bc_into_jit`. -/
  preload : LrJit → LrJit × Bool
  /-- What `lr_func_finalize` leaves in each block, or none if it fails. -/
  finalize : LrFunc → Option (LrBlock → List LrInst)
  /-- `lr_jit_add_module`. -/
  addModule : LrJit → LrModule → LrJit × Bool
  /-- `lr_jit_get_function`. -/
  getFunction : LrJit → CStr → LrJit × Nat

def moduleJitDeferredUntilLookup : Policy → Bool
  | .ir | .directLlvm _ => true
  | .direct _ => false

def ensureRuntimeAndGlobalsReady (env : ModeEnv) (s : LrSession) : Option (LrSession × Bool) :=
  let (j, ok) := env.preload s.jit
  if !ok then some ({ s with jit := j }, false)
  else Session.ensureRuntimeAndGlobalsReady env.direct { s with jit := j }

def beginDirectCompile (env : ModeEnv) (s : LrSession) : LrSession × Bool :=
  if s.curFunc.isNone then (s, true)
  else
    match env.policy with
    | .ir => (s, true)
    | .directLlvm available => (s, available)
    | .direct canCompile => if canCompile then Session.beginDirectCompile s else (s, false)

/-- The part of the two beginnings behind the reset; `onError` is what the first of
them does to its new function. -/
def startCompile (env : ModeEnv) (s : LrSession) (onError : LrSession → LrSession) :
    Option (LrSession × Bool) := do
  let (s, ok) ← ensureRuntimeAndGlobalsReady env s
  if !ok then return (finishFunctionState (onError s), false)
  else
    let (s, ok) := beginDirectCompile env s
    if ok then return (s, true) else return (finishFunctionState (onError s), false)

def lrSessionFuncBegin (env : ModeEnv) (s : LrSession) (name : CStr) (ret : Option LrType)
    (params : List LrType) (vararg : Bool) : Option (LrSession × Bool) :=
  if name = [] then some (s, false)
  else if s.curFunc.isSome then some (s, false)
  else
    match s.modules[s.module]? with
    | none => some (s, false)
    | some m => do
      let (m', _) ← lrFuncCreate m name (ret.getD m.builtin.typeVoid) params vararg
      let r : FuncRef := ⟨s.module, m.funcs.length⟩
      let s := resetBuild { s with modules := s.modules.set s.module m' } r
      startCompile env s fun s => markDecl s r

/-- The module need not be the one that the function is in. -/
def lrSessionFuncBeginExisting (env : ModeEnv) (s : LrSession) (module : Nat) (r : FuncRef) :
    Option (LrSession × Bool) :=
  match s.modules[module]?, findFunc s.modules r with
  | some _, some _ =>
    if s.curFunc.isSome then some (s, false)
    else startCompile env (resetBuild { s with module := module } r) id
  | _, _ => some (s, false)

/-- The block at `block` is entered under `id`. -/
def enterAt (s : LrSession) (id : Nat) (b : BlockRef) : LrSession :=
  let s := ensureBlockCapacity s (id + 1)
  { s with
    blockCount := if s.blockCount ≤ id then id + 1 else s.blockCount
    blocks := s.blocks.set id (some b) }

def lrSessionAdoptBlock (s : LrSession) (blockId : Nat) (b : BlockRef) :
    Option (LrSession × Bool) :=
  match s.curFunc, findBlock s.modules b with
  | some _, some _ =>
    let s := { enterAt s blockId b with curBlock := some b }
    if s.compileActive && !s.compileDeferred then none else some (s, true)
  | _, _ => some (s, false)

def lrSessionBindIr (s : LrSession) (module : Nat) (r : FuncRef) (b : BlockRef) :
    LrSession × Bool :=
  match s.modules[module]?, findFunc s.modules r, findBlock s.modules b with
  | some _, some _, some blk =>
    if b.func ≠ r then (s, false)
    else
      ({ enterAt { s with module := module } blk.id b with
        curFunc := some r, curBlock := some b, compileActive := false }, true)
  | _, _, _ => (s, false)

def keepInsts (keep : LrBlock → List LrInst) (f : LrFunc) : LrFunc :=
  { f with blocks := f.blocks.map fun b => { b with insts := keep b }, blockArray := true }

/-- The functions of `s->module` that are defined, apart from the current one. -/
def otherDefined (s : LrSession) (r : FuncRef) (m : LrModule) : List Nat :=
  (List.range m.funcs.length).filter fun i =>
    decide (FuncRef.mk s.module i ≠ r) && (m.funcs[i]?).any fun f => !f.isDecl

def setDecls (s : LrSession) (places : List Nat) (isDecl : Bool) : LrSession :=
  updateModule s s.module fun m =>
    { m with funcs := m.funcs.mapIdx fun i f =>
      if i ∈ places then { f with isDecl := isDecl } else f }

/-- While the module is added, its other functions count as declared. -/
def compileCurrentFunction (env : ModeEnv) (s : LrSession) (outAddr : Bool) : LrSession × Bool :=
  match s.curFunc with
  | none => (s, false)
  | some r =>
    match s.modules[s.module]?, findFunc s.modules r with
    | some m, some f =>
      match env.finalize f with
      | none => (s, false)
      | some keep =>
        let s := updateFuncRef s r (keepInsts keep)
        if moduleJitDeferredUntilLookup env.policy && !outAddr then (s, true)
        else
          let toggled := otherDefined s r m
          let s := setDecls s toggled true
          let (j, ok) := env.addModule s.jit ((s.modules[s.module]?).getD m)
          let s := { s with jit := j }
          if !ok then (setDecls s toggled false, false)
          else
            let s :=
              if moduleJitDeferredUntilLookup env.policy then setDecls s toggled false
              else markDecl s r
            let (j, addr) := env.getFunction s.jit f.name
            ({ s with jit := j }, addr ≠ 0)
    | _, _ => (s, false)

/-- `outAddr` tells whether the address is asked for. A function without blocks stays
active where it is validated. -/
def lrSessionFuncEnd (env : ModeEnv) (s : LrSession) (outAddr : Bool) : LrSession × Bool :=
  if s.curFunc.isNone then (s, false)
  else if !s.compileActive && moduleJitDeferredUntilLookup env.policy && !outAddr then
    (finishFunctionState s, true)
  else
    let (s, ok) := validateBlockTermination s
    if !ok then (s, false)
    else
      let (s, ok) :=
        if s.compileActive then finishDirectCompile env.direct s
        else compileCurrentFunction env s outAddr
      (finishFunctionState s, ok)

end Liric.Source.Session.Modes
