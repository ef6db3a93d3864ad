import Mathlib.Data.BitVec

/-!
# IR types and their layout

Source: src/ir.h:10-32 (`lr_type_t`), src/ir.c:42-133 (module and constructors), 1515-1586
(`lr_type_size`, `lr_type_align`), 1609-1674 (`lr_struct_field_offset`,
`lr_aggregate_index_path`).

A `lr_type_t *` is a tree whose nodes carry the address they were allocated at.
The source compares types by pointer, so equality of two trees (addresses
included) is the source's `==` on pointers; two separately built copies of one
type have different addresses and differ. `size_t` is 64 bits and wraps.
Null element and field pointers are never stored by the constructors' callers
and have no value here; the pointee of a pointer type may be absent.
-/
namespace Liric.Source.Ir

/-- A C string: its bytes without the terminating NUL. -/
abbrev CStr := List UInt8

/-- `size_t`. -/
abbrev SizeT := BitVec 64

/-- The kinds without a payload, `LR_TYPE_VOID` to `LR_TYPE_FP128`. -/
inductive ScalarKind where
  | void | i1 | i8 | i16 | i32 | i64 | float | double | x86Fp80 | fp128
  deriving DecidableEq

inductive LrType where
  | scalar (addr : Nat) (kind : ScalarKind)
  | ptr (addr : Nat) (elem : Option LrType)
  | array (addr : Nat) (elem : LrType) (count : BitVec 64)
  | vector (addr : Nat) (elem : LrType) (count : BitVec 64)
  | struct (addr : Nat) (fields : List LrType) (packed : Bool) (name : Option CStr)
  | func (addr : Nat) (ret : LrType) (params : List LrType) (vararg : Bool)

namespace LrType

mutual
/-- Pointer equality is decidable; the nested lists keep the derive handler from
finding this. -/
def decEq : (a b : LrType) → Decidable (a = b)
  | .scalar a k, .scalar b l =>
    if h : a = b ∧ k = l then isTrue (by rw [h.1, h.2])
    else isFalse (by intro e; cases e; exact h ⟨rfl, rfl⟩)
  | .ptr a e, .ptr b f =>
    match decEqOption e f with
    | isTrue h =>
      if h' : a = b then isTrue (by rw [h, h'])
      else isFalse (by intro e; cases e; exact h' rfl)
    | isFalse h => isFalse (by intro e; cases e; exact h rfl)
  | .array a e c, .array b f d =>
    match decEq e f with
    | isTrue h =>
      if h' : a = b ∧ c = d then isTrue (by rw [h, h'.1, h'.2])
      else isFalse (by intro e; cases e; exact h' ⟨rfl, rfl⟩)
    | isFalse h => isFalse (by intro e; cases e; exact h rfl)
  | .vector a e c, .vector b f d =>
    match decEq e f with
    | isTrue h =>
      if h' : a = b ∧ c = d then isTrue (by rw [h, h'.1, h'.2])
      else isFalse (by intro e; cases e; exact h' ⟨rfl, rfl⟩)
    | isFalse h => isFalse (by intro e; cases e; exact h rfl)
  | .struct a fs p n, .struct b gs q m =>
    match decEqList fs gs with
    | isTrue h =>
      if h' : a = b ∧ p = q ∧ n = m then isTrue (by rw [h, h'.1, h'.2.1, h'.2.2])
      else isFalse (by intro e; cases e; exact h' ⟨rfl, rfl, rfl⟩)
    | isFalse h => isFalse (by intro e; cases e; exact h rfl)
  | .func a r ps v, .func b s qs w =>
    match decEq r s, decEqList ps qs with
    | isTrue h, isTrue h' =>
      if h'' : a = b ∧ v = w then isTrue (by rw [h, h', h''.1, h''.2])
      else isFalse (by intro e; cases e; exact h'' ⟨rfl, rfl⟩)
    | isFalse h, _ => isFalse (by intro e; cases e; exact h rfl)
    | _, isFalse h => isFalse (by intro e; cases e; exact h rfl)
  | .scalar .., .ptr .. | .scalar .., .array .. | .scalar .., .vector ..
  | .scalar .., .struct .. | .scalar .., .func ..
  | .ptr .., .scalar .. | .ptr .., .array .. | .ptr .., .vector ..
  | .ptr .., .struct .. | .ptr .., .func ..
  | .array .., .scalar .. | .array .., .ptr .. | .array .., .vector ..
  | .array .., .struct .. | .array .., .func ..
  | .vector .., .scalar .. | .vector .., .ptr .. | .vector .., .array ..
  | .vector .., .struct .. | .vector .., .func ..
  | .struct .., .scalar .. | .struct .., .ptr .. | .struct .., .array ..
  | .struct .., .vector .. | .struct .., .func ..
  | .func .., .scalar .. | .func .., .ptr .. | .func .., .array ..
  | .func .., .vector .. | .func .., .struct .. => isFalse (by intro e; cases e)

def decEqOption : (a b : Option LrType) → Decidable (a = b)
  | none, none => isTrue rfl
  | some a, some b =>
    match decEq a b with
    | isTrue h => isTrue (by rw [h])
    | isFalse h => isFalse (by intro e; cases e; exact h rfl)
  | none, some _ | some _, none => isFalse (by intro e; cases e)

def decEqList : (a b : List LrType) → Decidable (a = b)
  | [], [] => isTrue rfl
  | a :: as, b :: bs =>
    match decEq a b, decEqList as bs with
    | isTrue h, isTrue h' => isTrue (by rw [h, h'])
    | isFalse h, _ => isFalse (by intro e; cases e; exact h rfl)
    | _, isFalse h => isFalse (by intro e; cases e; exact h rfl)
  | [], _ :: _ | _ :: _, [] => isFalse (by intro e; cases e)
end

instance : DecidableEq LrType := decEq

/-- Structs, arrays and vectors are what an index path can enter. -/
def isAggregate : LrType → Bool
  | .array .. | .vector .. | .struct .. => true
  | .scalar .. | .ptr .. | .func .. => false

end LrType

/-- The types `lr_module_create` allocates for a module. -/
structure BuiltinTypes where
  typeVoid : LrType
  typeI1 : LrType
  typeI8 : LrType
  typeI16 : LrType
  typeI32 : LrType
  typeI64 : LrType
  typeFloat : LrType
  typeDouble : LrType
  typeX86Fp80 : LrType
  typeFp128 : LrType
  typePtr : LrType
  deriving DecidableEq

/-- The allocations of `lr_module_create`, one after the other. -/
def lrModuleCreateTypes (addr : Nat) : BuiltinTypes where
  typeVoid := .scalar addr .void
  typeI1 := .scalar (addr + 1) .i1
  typeI8 := .scalar (addr + 2) .i8
  typeI16 := .scalar (addr + 3) .i16
  typeI32 := .scalar (addr + 4) .i32
  typeI64 := .scalar (addr + 5) .i64
  typeFloat := .scalar (addr + 6) .float
  typeDouble := .scalar (addr + 7) .double
  typeX86Fp80 := .scalar (addr + 8) .x86Fp80
  typeFp128 := .scalar (addr + 9) .fp128
  typePtr := .ptr (addr + 10) none

def scalarSize : ScalarKind → SizeT
  | .void => 0
  | .i1 | .i8 => 1
  | .i16 => 2
  | .i32 | .float => 4
  | .i64 | .double => 8
  | .x86Fp80 | .fp128 => 16

def scalarAlign : ScalarKind → SizeT
  | .void | .i1 | .i8 => 1
  | .i16 => 2
  | .i32 | .float => 4
  | .i64 | .double => 8
  | .x86Fp80 | .fp128 => 16

/-- The source's padding expression `(v + a - 1) & ~(a - 1)`. Vector alignments
need not be powers of two, and then this is not a rounding to a multiple. -/
def alignUp (v a : SizeT) : SizeT := (v + a - 1) &&& ~~~(a - 1)

mutual
def lrTypeSize : LrType → SizeT
  | .scalar _ kind => scalarSize kind
  | .ptr _ _ => 8
  | .array _ elem count => lrTypeSize elem * count
  | .vector _ elem count => lrTypeSize elem * count
  | .struct _ fields packed _ =>
    let sz := structSizeLoop packed fields 0
    -- `lr_type_align(t)` of an unpacked struct is the maximum over its fields
    if !packed && !fields.isEmpty then alignUp sz (structAlignLoop fields 1) else sz
  | .func .. => 0

/-- The field loop of the struct case, with its accumulator `sz`. -/
def structSizeLoop (packed : Bool) : List LrType → SizeT → SizeT
  | [], sz => sz
  | field :: rest, sz =>
    let sz := if !packed then alignUp sz (lrTypeAlign field) else sz
    structSizeLoop packed rest (sz + lrTypeSize field)

def lrTypeAlign : LrType → SizeT
  | .scalar _ kind => scalarAlign kind
  | .ptr _ _ => 8
  | .array _ elem _ => lrTypeAlign elem
  | .vector _ elem count =>
    let sz := lrTypeSize elem * count
    let ea := lrTypeAlign elem
    let sz := if sz < ea then ea else sz
    if sz > 0 then sz else 1
  | .struct _ fields packed _ => if packed then 1 else structAlignLoop fields 1
  | .func .. => 1

/-- The maximum loop of the struct case, with its accumulator `maxA`. -/
def structAlignLoop : List LrType → SizeT → SizeT
  | [], maxA => maxA
  | field :: rest, maxA =>
    let fa := lrTypeAlign field
    structAlignLoop rest (if fa > maxA then fa else maxA)
end

/-- `lr_struct_field_offset` from its loop accumulator `off`: the fields before
the index are placed one after the other, then the indexed field is aligned. -/
def fieldOffsetLoop (packed : Bool) : List LrType → Nat → SizeT → SizeT
  | [], _, off => off
  | field :: _, 0, off => if !packed then alignUp off (lrTypeAlign field) else off
  | field :: rest, i + 1, off =>
    let off := if !packed then alignUp off (lrTypeAlign field) else off
    fieldOffsetLoop packed rest i (off + lrTypeSize field)

def lrStructFieldOffset (st : LrType) (fieldIdx : Nat) : SizeT :=
  match st with
  | .struct _ fields packed _ => fieldOffsetLoop packed fields fieldIdx 0
  | _ => 0

/-- The walk of `lr_aggregate_index_path` from the accumulated offset `off` and
the current type; the result is `*byte_offset_out` and `*leaf_type_out`. -/
def indexPathLoop : LrType → List (BitVec 32) → SizeT → Option (SizeT × LrType)
  | cur, [], off => some (off, cur)
  | .struct addr fields packed name, idx :: rest, off =>
    match fields[idx.toNat]? with
    | none => none
    | some field =>
      let st := LrType.struct addr fields packed name
      indexPathLoop field rest (off + lrStructFieldOffset st idx.toNat)
  | .array _ elem count, idx :: rest, off =>
    if idx.setWidth 64 ≥ count then none
    else indexPathLoop elem rest (off + idx.setWidth 64 * lrTypeSize elem)
  | .vector _ elem count, idx :: rest, off =>
    if idx.setWidth 64 ≥ count then none
    else indexPathLoop elem rest (off + idx.setWidth 64 * lrTypeSize elem)
  | .scalar .., _ :: _, _ | .ptr .., _ :: _, _ | .func .., _ :: _, _ => none

def lrAggregateIndexPath (base : LrType) (indices : List (BitVec 32)) : Option (SizeT × LrType) :=
  indexPathLoop base indices 0

end Liric.Source.Ir
