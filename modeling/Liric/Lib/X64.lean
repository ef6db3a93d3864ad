import Liric.Lib.A64

/-!
# X64 code

The instructions of the x64 set that move values between registers and memory, what they do
to the registers, to ZF and to the memory, and straight runs of them. The bytes of memory
are those of `A64`. An address that is filled in by relocation is a parameter.
-/
namespace Liric.Lib.X64
open BitVec
open Lib.A64 (Mem load store)

abbrev Reg := Fin 16

/-- `S` names what a relocation fills in. All operations are 64 bits wide but `testByte`. -/
inductive Inst (S : Type) where
  | movImm (dst : Reg) (imm : BitVec 64)
  /-- `XOR dst, dst`. -/
  | clear (dst : Reg)
  | addImm (dst : Reg) (imm : BitVec 32)
  | subImm (dst : Reg) (imm : BitVec 32)
  | addReg (dst src : Reg)
  | movReg (dst src : Reg)
  | lea (dst base : Reg) (disp : BitVec 32)
  /-- Loads of `size` bytes fill the register with zeros. -/
  | load (size : Nat) (dst base : Reg) (disp : BitVec 32)
  | store (size : Nat) (src base : Reg) (disp : BitVec 32)
  | testByte (a b : Reg)
  | cmovne (dst src : Reg)
  | address (dst : Reg) (symbol : S)
  deriving DecidableEq

variable {S : Type}

def Inst.changesFlags : Inst S → Bool
  | .clear _ | .addImm _ _ | .subImm _ _ | .addReg _ _ | .testByte _ _ => true
  | _ => false

/-- Of the flags only ZF is read. -/
structure State where
  reg : Reg → BitVec 64
  zf : Bool
  mem : Mem

variable (σ : State)

def State.set (r : Reg) (v : BitVec 64) : State :=
  { σ with reg := Function.update σ.reg r v }

/-- The result of arithmetic, with its ZF. -/
def State.setResult (r : Reg) (v : BitVec 64) : State :=
  { σ.set r v with zf := v = 0 }

def place (base : Reg) (disp : BitVec 32) : BitVec 64 :=
  σ.reg base + disp.signExtend 64

def exec (address : S → BitVec 64) (σ : State) : Inst S → State
  | .movImm dst imm => σ.set dst imm
  | .clear dst => σ.setResult dst 0
  | .addImm dst imm => σ.setResult dst (σ.reg dst + imm.signExtend 64)
  | .subImm dst imm => σ.setResult dst (σ.reg dst - imm.signExtend 64)
  | .addReg dst src => σ.setResult dst (σ.reg dst + σ.reg src)
  | .movReg dst src => σ.set dst (σ.reg src)
  | .lea dst base disp => σ.set dst (place σ base disp)
  | .load size dst base disp => σ.set dst (load σ.mem (place σ base disp) size)
  | .store size src base disp =>
    { σ with mem := store σ.mem (place σ base disp) size (σ.reg src) }
  | .testByte a b => { σ with zf := (σ.reg a &&& σ.reg b).setWidth 8 = 0 }
  | .cmovne dst src => if σ.zf then σ else σ.set dst (σ.reg src)
  | .address dst symbol => σ.set dst (address symbol)

def run (address : S → BitVec 64) (code : List (Inst S)) (σ : State) : State :=
  code.foldl (exec address) σ

@[simp] theorem set_reg_self (r : Reg) (v : BitVec 64) : (σ.set r v).reg r = v := by
  simp [State.set]

theorem set_reg_of_ne {r r' : Reg} (v : BitVec 64) (h : r' ≠ r) :
    (σ.set r v).reg r' = σ.reg r' := by
  simp [State.set, h]

@[simp] theorem set_mem (r : Reg) (v : BitVec 64) : (σ.set r v).mem = σ.mem := rfl

theorem sub_toNat_ofNat (a b : BitVec 64) : a + BitVec.ofNat 64 (b - a).toNat = b := by
  rw [ofNat_toNat, setWidth_eq, BitVec.add_comm, sub_add_cancel]

theorem add_ofNat_add (a : BitVec 64) (k i : Nat) :
    a + BitVec.ofNat 64 k + BitVec.ofNat 64 i = a + BitVec.ofNat 64 (k + i) := by
  rw [ofNat_add, BitVec.add_assoc]

variable {a : BitVec 64} {i : Nat}

theorem add_ofNat_inj {j : Nat} (hi : i < 2 ^ 64) (hj : j < 2 ^ 64)
    (h : a + BitVec.ofNat 64 i = a + BitVec.ofNat 64 j) : i = j := by
  have hsame : (a + BitVec.ofNat 64 i - a).toNat = (a + BitVec.ofNat 64 j - a).toNat := by rw [h]
  rwa [Lib.A64.sub_add_ofNat a hi, Lib.A64.sub_add_ofNat a hj] at hsame

/-- A store leaves the bytes outside its interval. -/
theorem store_of_apart (mem : Mem) {b : BitVec 64} {n : Nat} (v : BitVec 64)
    (h : ∀ j < n, b ≠ a + BitVec.ofNat 64 j) : store mem a n v b = mem b := by
  refine if_neg fun hlt => ?_
  exact h _ hlt (sub_toNat_ofNat a b).symm

theorem store_byte (mem : Mem) (a v : BitVec 64) {n : Nat} (hn : n ≤ 8) (hi : i < n) :
    store mem a n v (a + BitVec.ofNat 64 i) = v.extractLsb' (8 * i) 8 := by
  have hoff := Lib.A64.sub_add_ofNat a (k := i) (by omega)
  rw [store, hoff, if_pos hi]

/-- A loaded word has the bytes of memory, with zeros above. -/
theorem load_byte (mem : Mem) (a : BitVec 64) {n : Nat} (hi : i < 8) :
    (load mem a n).extractLsb' (8 * i) 8 = if i < n then mem (a + BitVec.ofNat 64 i) else 0 := by
  apply eq_of_getLsbD_eq
  intro k hk
  have hbyte : (8 * i + k) / 8 = i := by omega
  have hbit : (8 * i + k) % 8 = k := by omega
  have hwide : 8 * i + k < 64 := by omega
  have hin : (8 * i + k < 8 * n) ↔ i < n := by omega
  rw [getLsbD_extractLsb', Lib.A64.getLsbD_load, hbyte, hbit]
  by_cases h : i < n
  · simp [h, hk, hwide, hin]
  · simp [h, hin]

/-- From `m` to `m'` the `n` bytes from `d` on have become `f`, and no other. -/
structure Wrote (m m' : Mem) (d : BitVec 64) (f : Nat → BitVec 8) (n : Nat) : Prop where
  bytes : ∀ i < n, m' (d + BitVec.ofNat 64 i) = f i
  frame : ∀ b, (∀ i < n, b ≠ d + BitVec.ofNat 64 i) → m' b = m b

namespace Wrote
variable {m m' m'' : Mem} {d : BitVec 64} {f g : Nat → BitVec 8} {n k : Nat}

theorem nothing (m : Mem) (d : BitVec 64) (f : Nat → BitVec 8) : Wrote m m d f 0 :=
  ⟨fun _ hi => absurd hi (Nat.not_lt_zero _), fun _ _ => rfl⟩

theorem congr (h : Wrote m m' d f n) (hf : ∀ i < n, f i = g i) : Wrote m m' d g n :=
  ⟨fun i hi => (h.bytes i hi).trans (hf i hi), h.frame⟩

theorem of_store (m : Mem) (d v : BitVec 64) (hn : n ≤ 8) :
    Wrote m (store m d n v) d (fun i => v.extractLsb' (8 * i) 8) n :=
  ⟨fun _ hi => store_byte m d v hn hi, fun _ hb => store_of_apart m v hb⟩

/-- Bytes behind those that have been written. -/
theorem append (h : Wrote m m' d f n)
    (h' : Wrote m' m'' (d + BitVec.ofNat 64 n) (fun i => f (n + i)) k) (hbound : n + k < 2 ^ 64) :
    Wrote m m'' d f (n + k) where
  bytes i hi := by
    by_cases hlow : i < n
    · rw [h'.frame, h.bytes i hlow]
      intro j hj heq
      rw [add_ofNat_add] at heq
      have hij := add_ofNat_inj (by omega) (by omega) heq
      omega
    · have hback : d + BitVec.ofNat 64 n + BitVec.ofNat 64 (i - n) = d + BitVec.ofNat 64 i := by
        rw [add_ofNat_add, show n + (i - n) = i by omega]
      have hbyte := h'.bytes (i - n) (by omega)
      rw [hback, show n + (i - n) = i by omega] at hbyte
      exact hbyte
  frame b hb := by
    rw [h'.frame, h.frame]
    · exact fun i hi => hb i (by omega)
    · intro i hi
      rw [add_ofNat_add]
      exact hb (n + i) (by omega)

/-- Bytes among those that have been written. -/
theorem overwrite {off : Nat} (h : Wrote m m' d f n)
    (h' : Wrote m' m'' (d + BitVec.ofNat 64 off) g k) (hle : off + k ≤ n) (hn : n < 2 ^ 64) :
    Wrote m m'' d (fun i => if off ≤ i ∧ i < off + k then g (i - off) else f i) n where
  bytes i hi := by
    split
    · next hin =>
      have hback : d + BitVec.ofNat 64 off + BitVec.ofNat 64 (i - off) = d + BitVec.ofNat 64 i := by
        rw [add_ofNat_add, show off + (i - off) = i by omega]
      rw [← hback, h'.bytes _ (by omega)]
    · next hout =>
      rw [h'.frame, h.bytes i hi]
      intro j hj heq
      rw [add_ofNat_add] at heq
      have hij := add_ofNat_inj (by omega) (by omega) heq
      omega
  frame b hb := by
    rw [h'.frame, h.frame b hb]
    intro j hj
    rw [add_ofNat_add]
    exact hb _ (by omega)

/-- A word elsewhere is as before. -/
theorem load_eq (h : Wrote m m' d f n) {w : Nat}
    (hapart : ∀ i < w, ∀ j < n, a + BitVec.ofNat 64 i ≠ d + BitVec.ofNat 64 j) :
    load m' a w = load m a w := by
  apply eq_of_getLsbD_eq
  intro i hi
  rw [Lib.A64.getLsbD_load, Lib.A64.getLsbD_load]
  by_cases hin : i < 8 * w
  · rw [h.frame _ (hapart (i / 8) (by omega))]
  · simp [hin]

end Wrote
end Liric.Lib.X64
