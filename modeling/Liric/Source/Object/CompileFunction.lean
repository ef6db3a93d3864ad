import Liric.Source.Object.BuildData
import Liric.Source.Target.X8664Stream

/-!
# Compiling a function into an object

Source: src/objfile.c:58-65 (`obj_ensure_code_capacity`), 89-127 (`obj_compile_function`),
src/target_registry.c:263-298 (`lr_target_compile`), src/target_x86_64.c:3326-3331 (the result of
`x86_64_compile_end`).

`mod->obj_ctx` is the context of the object, as all callers set it; functions are finalized
and local collisions are resolved before, so `lr_target_compile` changes no IR. `realloc`
succeeds. The bytes that a target writes behind its buffer are kept apart as strays.
-/
namespace Liric.Source.Object
open Lib
open Lib.BoundedEmit (Buffer Machine)
open Ir (CStr LrFunc)
open X8664 (X86Selection compileFunction)

/-- `lr_obj_build_result_t` as far as code goes. The code buffer is the whole of its capacity. -/
structure ObjCodeResult where
  codeBuf : List UInt8
  ctx : ObjfileCtx
  /-- Places behind `code_buf` that were written. -/
  stray : List Nat := []
  deriving DecidableEq

def objEnsureCodeCapacity (buf : List UInt8) (need : Nat) : Option (List UInt8) :=
  (objGrowBuffer buf.length need).map fun cap => buf ++ List.replicate (cap - buf.length) 0

structure TargetResult where
  rc : Bool
  need : Nat
  window : List UInt8
  ctx : ObjfileCtx
  stray : List Nat
  deriving DecidableEq

/-- Symbols of references are not defined by them. -/
def ensureReference (remap : CStr → CStr) (oc : ObjfileCtx) (name : CStr) : ObjfileCtx × Nat :=
  lrObjEnsureSymbol remap oc name false 0 0

section Compile
variable {σ : Type} (x : X86Selection σ) (remap : CStr → CStr)

/-- On an error of the target `out_len` is not set. -/
def lrTargetCompile (f : LrFunc) (window : List UInt8) (ctx : ObjfileCtx) : TargetResult :=
  let r := (compileFunction x f).run (ensureReference remap)
    { buffer := { bytes := window }, env := ctx }
  let m := r.2
  let done : TargetResult :=
    { rc := true
      need := m.buffer.pos
      window := m.buffer.bytes
      ctx := { m.env with relocs := m.env.relocs ++ m.notes }
      stray := m.buffer.stray }
  match r.1 with
  | none => { done with rc := false, need := 0 }
  | some () => { done with rc := m.buffer.pos ≤ window.length }

/-- `none` is a loop that has run out of `fuel`; the second component of the result is `*out_len`
or an error. -/
def objCompileLoop (f : LrFunc) (codeOff savedRelocs : Nat) :
    (fuel : Nat) → ObjCodeResult → Option (ObjCodeResult × Option Nat)
  | 0, _ => none
  | fuel + 1, out =>
    match objEnsureCodeCapacity out.codeBuf (codeOff + 1) with
    | none => some (out, none)
    | some buf =>
      let r := lrTargetCompile x remap f (buf.drop codeOff) out.ctx
      let out : ObjCodeResult :=
        { codeBuf := buf.take codeOff ++ r.window
          ctx := r.ctx
          stray := out.stray ++ r.stray.map (codeOff + ·) }
      if r.rc then some (out, some r.need)
      else if r.need ≤ buf.length - codeOff then some (out, none)
      else
        let out := { out with ctx := { out.ctx with relocs := out.ctx.relocs.take savedRelocs } }
        match objEnsureCodeCapacity out.codeBuf (codeOff + r.need) with
        | none => some (out, none)
        | some buf => objCompileLoop f codeOff savedRelocs fuel { out with codeBuf := buf }

def objCompileFunction (fuel : Nat) (f : LrFunc) (codeOff : Nat) (out : ObjCodeResult) :
    Option (ObjCodeResult × Option Nat) :=
  objCompileLoop x remap f codeOff out.ctx.relocs.length fuel out

end Compile

end Liric.Source.Object
