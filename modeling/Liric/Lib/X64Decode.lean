import Mathlib.Data.BitVec
import Liric.Lib.Bytes

/-!
# X64 bytes

How the bytes of an x64 instruction with a ModRM byte are read: operand size prefix, REX,
opcode, ModRM, SIB and displacement. Behind it the instructions that put constants into
registers and add them up, as steps over the bytes of the code.
-/
namespace Liric.Lib.X64Decode
open Lib (leBytes leNat leNat_leBytes length_leBytes)

abbrev Reg := Fin 16

scoped instance reg_nonempty : NeZero 16 := ⟨by decide⟩

structure Rex where
  w : Bool := false
  r : Bool := false
  x : Bool := false
  b : Bool := false
  deriving DecidableEq

inductive Rm where
  | reg (r : Reg)
  | mem (base : Option Reg) (index : Option (Reg × Nat)) (disp : BitVec 32)
  /-- Relative to the next instruction. -/
  | rip (disp : BitVec 32)
  deriving DecidableEq

structure Insn where
  size : Nat
  opcode : UInt8
  reg : Reg
  rm : Rm
  deriving DecidableEq

def isRex (b : UInt8) : Bool := b &&& 0xF0 == 0x40

def rexOf (b : UInt8) : Rex := ⟨b &&& 8 != 0, b &&& 4 != 0, b &&& 2 != 0, b &&& 1 != 0⟩

/-- Three bits of a byte, and one of the REX prefix above them. -/
def field (b shift : UInt8) (high : Bool) : Reg :=
  Fin.ofNat 16 (((b >>> shift) &&& 7).toNat + if high then 8 else 0)

/-- The operand size and the REX prefix in front of an opcode. -/
def decodePrefix (bytes : List UInt8) : Nat × Rex × List UInt8 :=
  let narrow := bytes.head? == some 0x66
  let bytes := if narrow then bytes.tail else bytes
  let b := bytes.head?.getD 0
  let rex := if isRex b then rexOf b else {}
  (if rex.w then 8 else if narrow then 2 else 4, rex, if isRex b then bytes.tail else bytes)

/-- An immediate of `n` bytes. -/
def immediate (n w : Nat) (bytes : List UInt8) : Option (BitVec w × List UInt8) :=
  if bytes.length < n then none else some (BitVec.ofNat w (leNat (bytes.take n)), bytes.drop n)

def displacement (mod : UInt8) (bytes : List UInt8) : Option (BitVec 32 × List UInt8) :=
  if mod = 0 then some (0, bytes)
  else if mod = 1 then (immediate 1 8 bytes).map fun d => (d.1.signExtend 32, d.2)
  else immediate 4 32 bytes

def decodeRm (rex : Rex) : List UInt8 → Option (Reg × Rm × List UInt8)
  | [] => none
  | m :: rest =>
    let mod := m >>> 6
    let reg := field m 3 rex.r
    if mod = 3 then some (reg, .reg (field m 0 rex.b), rest)
    else if m &&& 7 = 4 then
      match rest with
      | [] => none
      | s :: rest =>
        let index := if field s 3 rex.x = 4 then none else some (field s 3 rex.x, 2 ^ (s >>> 6).toNat)
        if s &&& 7 = 5 ∧ mod = 0 then
          (immediate 4 32 rest).map fun d => (reg, .mem none index d.1, d.2)
        else
          (displacement mod rest).map fun d => (reg, .mem (some (field s 0 rex.b)) index d.1, d.2)
    else if m &&& 7 = 5 ∧ mod = 0 then
      (immediate 4 32 rest).map fun d => (reg, .rip d.1, d.2)
    else
      (displacement mod rest).map fun d => (reg, .mem (some (field m 0 rex.b)) none d.1, d.2)

def decode (bytes : List UInt8) : Option (Insn × List UInt8) :=
  match decodePrefix bytes with
  | (size, rex, opcode :: rest) =>
    (decodeRm rex rest).map fun r => (⟨size, opcode, r.1, r.2.1⟩, r.2.2)
  | _ => none

abbrev Regs := Reg → BitVec 64

/-- A write of 32 bits clears the upper half. -/
def write (σ : Regs) (size : Nat) (r : Reg) (v : BitVec 64) : Option Regs :=
  if size = 8 then some (Function.update σ r v)
  else if size = 4 then some (Function.update σ r ((v.setWidth 32).setWidth 64))
  else none

/-- MOV, ADD and SUB of an immediate, by opcode and the field of the register. -/
def immediateOp (opcode : UInt8) (n : Nat) : Option (BitVec 64 → BitVec 64 → BitVec 64) :=
  if opcode = 0xC7 ∧ n = 0 then some fun _ v => v
  else if opcode = 0x81 ∧ n = 0 then some (· + ·)
  else if opcode = 0x81 ∧ n = 5 then some (· - ·)
  else none

/-- ADD and XOR of registers. -/
def registerOp (opcode : UInt8) : Option (BitVec 64 → BitVec 64 → BitVec 64) :=
  if opcode = 0x01 then some (· + ·) else if opcode = 0x31 then some (· ^^^ ·) else none

/-- One instruction, and the bytes behind it. -/
def step (bytes : List UInt8) (σ : Regs) : Option (List UInt8 × Regs) :=
  match decodePrefix bytes with
  | (size, rex, opcode :: rest) =>
    if 0xB8 ≤ opcode ∧ opcode ≤ 0xBF ∧ size = 8 then
      (immediate 8 64 rest).map fun v => (v.2, Function.update σ (field opcode 0 rex.b) v.1)
    else
      match decodeRm rex rest with
      | some (reg, .reg r, rest) =>
        match registerOp opcode with
        | some f => (write σ size r (f (σ r) (σ reg))).map fun σ => (rest, σ)
        | none => do
          let f ← immediateOp opcode (reg.val % 8)
          let (v, rest) ← immediate 4 32 rest
          (write σ size r (f (σ r) (v.signExtend 64))).map fun σ => (rest, σ)
      | _ => none
  | _ => none

/-- The code to its end; each step takes at least one byte. -/
def runBytes : Nat → List UInt8 → Regs → Option Regs
  | _, [], σ => some σ
  | 0, _, _ => none
  | fuel + 1, bytes, σ => (step bytes σ).bind fun s => runBytes fuel s.1 s.2

def executed (bytes : List UInt8) (σ : Regs) : Option Regs := runBytes bytes.length bytes σ

theorem runBytes_nil (fuel : Nat) (σ : Regs) : runBytes fuel [] σ = some σ := by
  cases fuel <;> rfl

theorem runBytes_step {bytes rest : List UInt8} {σ τ : Regs} (fuel : Nat) (hne : bytes ≠ [])
    (h : step bytes σ = some (rest, τ)) : runBytes (fuel + 1) bytes σ = runBytes fuel rest τ := by
  rw [runBytes, h]
  · rfl
  · exact hne

/-- The bytes are run to their end, whatever stands behind them. -/
def Runs (bytes : List UInt8) (σ τ : Regs) : Prop :=
  ∃ steps ≤ bytes.length, ∀ fuel rest,
    runBytes (fuel + steps) (bytes ++ rest) σ = runBytes fuel rest τ

theorem Runs.of_step {bytes : List UInt8} {σ τ : Regs} (hne : bytes ≠ [])
    (h : ∀ rest, step (bytes ++ rest) σ = some (rest, τ)) : Runs bytes σ τ :=
  ⟨1, List.length_pos_of_ne_nil hne, fun fuel rest =>
    runBytes_step fuel (List.append_ne_nil_of_left_ne_nil hne rest) (h rest)⟩

theorem Runs.append {bytes bytes' : List UInt8} {σ τ υ : Regs} (h : Runs bytes σ τ)
    (h' : Runs bytes' τ υ) : Runs (bytes ++ bytes') σ υ := by
  obtain ⟨steps, hle, h⟩ := h
  obtain ⟨steps', hle', h'⟩ := h'
  refine ⟨steps' + steps, by simp; omega, fun fuel rest => ?_⟩
  rw [← Nat.add_assoc, List.append_assoc, h, h']

theorem Runs.executed {bytes : List UInt8} {σ τ : Regs} (h : Runs bytes σ τ) :
    executed bytes σ = some τ := by
  obtain ⟨steps, hle, h⟩ := h
  have hrun := h (bytes.length - steps) []
  rwa [Nat.sub_add_cancel hle, List.append_nil, runBytes_nil] at hrun

end Liric.Lib.X64Decode
