import Liric.Source.Ir.Module

/-!
# Running a function of the IR

Registers hold 64 bits, of which a value of a type uses the low ones. A block runs
to its terminator; on the way from one block to the next all phis of the next block
are assigned at once, from the registers as they were. A phi without an operand for
the block that is left keeps its register.
-/
namespace Liric.Guarantees.IrSemantics
open Source.Ir List

abbrev Regs := Nat → BitVec 64

/-- What a function is run in: the addresses of globals, and the instructions that are
not described here. -/
structure ExecEnv where
  globalAddr : Nat → BitVec 64
  other : LrInst → Regs → Regs

def setReg (ρ : Regs) (v : Nat) (x : BitVec 64) : Regs := fun u => if u = v then x else ρ u

@[simp] theorem setReg_self (ρ : Regs) (v : Nat) (x : BitVec 64) : setReg ρ v x v = x := by
  simp [setReg]

theorem setReg_of_ne (ρ : Regs) {u v : Nat} (x : BitVec 64) (h : u ≠ v) : setReg ρ v x u = ρ u := by
  simp [setReg, h]

def operandValue (env : ExecEnv) (ρ : Regs) (o : LrOperand) : BitVec 64 :=
  match o.value with
  | .vreg id => ρ id
  | .immI64 val => val
  | .immF64 bits => bits
  | .global id => env.globalAddr id + o.globalOffset
  | .block _ | .null | .undef => 0

/-- The low bits of a register that a value of the type uses. -/
def typeBits : Option LrType → Nat
  | some (.scalar _ .i1) => 1
  | some (.scalar _ .i8) => 8
  | some (.scalar _ .i16) => 16
  | some (.scalar _ .i32) => 32
  | _ => 64

/-- Two registers hold the same value of the type. -/
def SameValue (type : Option LrType) (x y : BitVec 64) : Prop :=
  x.setWidth (typeBits type) = y.setWidth (typeBits type)

instance (type : Option LrType) (x y : BitVec 64) : Decidable (SameValue type x y) :=
  inferInstanceAs (Decidable (x.setWidth (typeBits type) = y.setWidth (typeBits type)))

def icmpHolds (pred : IcmpPred) (type : Option LrType) (x y : BitVec 64) : Bool :=
  let a := x.setWidth (typeBits type)
  let b := y.setWidth (typeBits type)
  match pred with
  | .eq => a == b
  | .ne => a != b
  | .sgt => b.slt a
  | .sge => b.sle a
  | .slt => a.slt b
  | .sle => a.sle b
  | .ugt => b.ult a
  | .uge => b.ule a
  | .ult => a.ult b
  | .ule => a.ule b

/-- A comparison sets its register to 0 or 1. -/
def execInst (env : ExecEnv) (ρ : Regs) (inst : LrInst) : Regs :=
  match inst.op, inst.payload, inst.operands with
  | .icmp, .icmpPred pred, [a, b] =>
    setReg ρ inst.dest
      (if icmpHolds pred a.type (operandValue env ρ a) (operandValue env ρ b) then 1 else 0)
  | _, _, _ => env.other inst ρ

/-- The block that the terminator leads to, and the registers there; `none` without a
branch. -/
def execBlock (env : ExecEnv) : List LrInst → Regs → Option (Nat × Regs)
  | [], _ => none
  | inst :: rest, ρ =>
    match inst.op, inst.operands with
    | .br, [⟨.block target, _, _⟩] => some (target, ρ)
    | .condbr, [cond, ⟨.block yes, _, _⟩, ⟨.block no, _, _⟩] =>
      some (if (operandValue env ρ cond).getLsbD 0 then yes else no, ρ)
    | .br, _ | .condbr, _ | .ret, _ | .retVoid, _ | .unreachable, _ => none
    | _, _ => execBlock env rest (execInst env ρ inst)

/-- The operands of a phi, each with the block it is for. -/
def incoming : List LrOperand → List (LrOperand × Nat)
  | val :: ⟨.block id, _, _⟩ :: rest => (val, id) :: incoming rest
  | _ :: _ :: rest => incoming rest
  | _ => []

def phis (b : LrBlock) : List LrInst := b.insts.filter fun inst => inst.op = .phi

def operandFor (pred : Nat) (phi : LrInst) : Option LrOperand :=
  ((incoming phi.operands).find? fun p => p.2 = pred).map fun p => p.1

/-- The registers behind the phis of a block that is entered from `pred`. -/
def enterBlock (env : ExecEnv) (pred : Nat) (b : LrBlock) (ρ : Regs) : Regs := fun v =>
  match ((phis b).find? fun phi => phi.dest = v).bind (operandFor pred) with
  | some o => operandValue env ρ o
  | none => ρ v

/-- The phis of a block have their own registers, and a block that stands twice in a
phi stands there with one operand. -/
structure WellFormedPhis (b : LrBlock) : Prop where
  dests : ((phis b).map fun phi => phi.dest).Nodup
  consistent : ∀ phi ∈ phis b, ∀ o o' pred, (o, pred) ∈ incoming phi.operands →
    (o', pred) ∈ incoming phi.operands → o = o'

section Phis
variable {env : ExecEnv} {pred : Nat} {b : LrBlock} {ρ : Regs} {phi : LrInst} {o : LrOperand}

theorem find_dest {insts : List LrInst} (h : (insts.map fun inst => inst.dest).Nodup)
    (hphi : phi ∈ insts) : (insts.find? fun inst => inst.dest = phi.dest) = some phi := by
  induction insts with
  | nil => cases hphi
  | cons inst rest ih =>
    rw [map_cons, nodup_cons] at h
    obtain rfl | hphi := mem_cons.1 hphi
    · simp
    · have hne : inst.dest ≠ phi.dest := fun heq =>
        h.1 (heq ▸ mem_map.2 ⟨phi, hphi, rfl⟩)
      rw [find?_cons_of_neg (by simpa using hne)]
      exact ih h.2 hphi

/-- A phi with an operand for the block that is left gets its value. -/
theorem enterBlock_incoming (h : WellFormedPhis b) (hphi : phi ∈ phis b)
    (ho : (o, pred) ∈ incoming phi.operands) :
    enterBlock env pred b ρ phi.dest = operandValue env ρ o := by
  have hsome : ((incoming phi.operands).find? fun p => p.2 = pred).isSome := by
    rw [find?_isSome]
    exact ⟨(o, pred), ho, by simp⟩
  obtain ⟨p, hp⟩ := Option.isSome_iff_exists.1 hsome
  have hpred : p.2 = pred := by simpa using find?_some hp
  have heq : p.1 = o := by
    refine h.consistent phi hphi p.1 o pred ?_ ho
    rw [← hpred]
    exact mem_of_find?_eq_some hp
  have hfor : operandFor pred phi = some o := by
    rw [operandFor, hp, Option.map_some, heq]
  rw [enterBlock, find_dest h.dests hphi, Option.bind_some, hfor]

/-- A phi without one keeps its register. -/
theorem enterBlock_absent (h : WellFormedPhis b) (hphi : phi ∈ phis b)
    (hnone : ∀ o, (o, pred) ∉ incoming phi.operands) :
    enterBlock env pred b ρ phi.dest = ρ phi.dest := by
  have hfor : operandFor pred phi = none := by
    rw [operandFor, find?_eq_none.2, Option.map_none]
    rintro ⟨o, id⟩ hmem
    simpa using fun heq : id = pred => hnone o (heq ▸ hmem)
  rw [enterBlock, find_dest h.dests hphi, Option.bind_some, hfor]

end Phis

end Liric.Guarantees.IrSemantics
