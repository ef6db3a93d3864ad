import Liric.Source.Jit.Signature

/-!
# What a signature says about a function

Source: src/jit.c:353-643 (the signatures), 654-857 (the cache), src/target_registry.c:261-298
(`lr_target_compile`), src/target_x86_64.c:545-600 and 1793-1868, src/target_aarch64.c:523-680
(how a call finds its callee), src/ir.c:619-793 (`run_func_peephole_passes`).

The code generators are functions of a `Reading`: the function itself, the heads
of all functions of its module, the names of its symbols and globals, every type
these lead to, which of the type pointers are one pointer, and the compile mode.
Two functions with one signature have the same reading exactly if they agree on
what no signature mentions, the `Omitted` part.
-/
namespace Liric.Guarantees.MaterializeCache
open Source.Ir Source.Jit List
open Lib (leBytes leNat leNat_leBytes leBytes_append_inj word_inj Readable Completes counted
  map_pair_eq map_eq_of_part)

variable {v w : Nat} {c : MatCache} {e : MatCacheEntry} {updateStats : Bool}

/-- A type as the code generators walk it: the pointee of a pointer and the name
of a struct are never looked at. -/
inductive TypeReading where
  | scalar (kind : ScalarKind)
  | ptr
  | array (elem : TypeReading) (count : BitVec 64)
  | vector (elem : TypeReading) (count : BitVec 64)
  | struct (fields : List TypeReading) (packed : Bool)
  | func (ret : TypeReading) (params : List TypeReading) (vararg : Bool)

mutual
def typeReading : LrType → TypeReading
  | .scalar _ kind => .scalar kind
  | .ptr _ _ => .ptr
  | .array _ elem count => .array (typeReading elem) count
  | .vector _ elem count => .vector (typeReading elem) count
  | .struct _ fields packed _ => .struct (typeReadings fields) packed
  | .func _ ret params vararg => .func (typeReading ret) (typeReadings params) vararg

def typeReadings : List LrType → List TypeReading
  | [] => []
  | t :: rest => typeReading t :: typeReadings rest
end

mutual
/-- The type without the element types and lengths of its vectors. -/
def TypeReading.bare : TypeReading → TypeReading
  | .scalar kind => .scalar kind
  | .ptr => .ptr
  | .array elem count => .array elem.bare count
  | .vector _ _ => .vector .ptr 0
  | .struct fields packed => .struct (bareList fields) packed
  | .func ret params vararg => .func ret.bare (bareList params) vararg

def TypeReading.bareList : List TypeReading → List TypeReading
  | [] => []
  | t :: rest => t.bare :: bareList rest
end

mutual
/-- The element types and lengths of the outermost vectors, in order. -/
def TypeReading.vectors : TypeReading → List (TypeReading × BitVec 64)
  | .scalar _ | .ptr => []
  | .array elem _ => elem.vectors
  | .vector elem count => [(elem, count)]
  | .struct fields _ => vectorsList fields
  | .func ret params _ => ret.vectors ++ vectorsList params

def TypeReading.vectorsList : List TypeReading → List (TypeReading × BitVec 64)
  | [] => []
  | t :: rest => t.vectors ++ vectorsList rest
end

open TypeReading (bare vectors bareList vectorsList)

mutual
theorem bare_completes : Completes id bare vectors
  | .scalar kind, u, h => by
    cases u <;> simp [bare, vectors] at h ⊢
    exact h
  | .ptr, u, h => by
    cases u <;> simp [bare, vectors] at h ⊢
  | .array elem count, u, h => by
    cases u with
    | array elem' count' =>
      simp only [bare, TypeReading.array.injEq] at h
      obtain ⟨hlen, hwhole⟩ := bare_completes elem elem' h.1
      refine ⟨hlen, fun hvec => ?_⟩
      rw [id, id, TypeReading.array.injEq]
      exact ⟨hwhole hvec, h.2⟩
    | scalar | ptr | vector | struct | func => simp [bare] at h
  | .vector elem count, u, h => by
    cases u <;> simp [bare, vectors] at h ⊢
  | .struct fields packed, u, h => by
    cases u with
    | struct fields' packed' =>
      simp only [bare, TypeReading.struct.injEq] at h
      obtain ⟨hlen, hwhole⟩ := bareList_completes fields fields' h.1
      refine ⟨hlen, fun hvec => ?_⟩
      rw [id, id, TypeReading.struct.injEq]
      exact ⟨hwhole hvec, h.2⟩
    | scalar | ptr | vector | array | func => simp [bare] at h
  | .func ret params vararg, u, h => by
    cases u with
    | func ret' params' vararg' =>
      simp only [bare, TypeReading.func.injEq] at h
      obtain ⟨hlen, hwhole⟩ := bare_completes ret ret' h.1
      obtain ⟨hlens, hwholes⟩ := bareList_completes params params' h.2.1
      refine ⟨by simp only [vectors, length_append, hlen, hlens], fun hvec => ?_⟩
      rw [vectors, vectors] at hvec
      obtain ⟨hhead, htail⟩ := append_inj hvec hlen
      rw [id, id, TypeReading.func.injEq]
      exact ⟨hwhole hhead, hwholes htail, h.2.2⟩
    | scalar | ptr | vector | array | struct => simp [bare] at h

theorem bareList_completes : Completes id bareList vectorsList
  | [], us, h => by
    cases us <;> simp [bareList, vectorsList] at h ⊢
  | t :: rest, us, h => by
    cases us with
    | nil => simp [bareList] at h
    | cons u us =>
      simp only [bareList, cons.injEq] at h
      obtain ⟨hlen, hwhole⟩ := bare_completes t u h.1
      obtain ⟨hlens, hwholes⟩ := bareList_completes rest us h.2
      refine ⟨by simp only [vectorsList, length_append, hlen, hlens], fun hvec => ?_⟩
      rw [vectorsList, vectorsList] at hvec
      obtain ⟨hhead, htail⟩ := append_inj hvec hlen
      rw [id, id, cons.injEq]
      exact ⟨hwhole hhead, hwholes htail⟩
end

/-! ## Values the source can hold

Counts and ids are `uint32_t` in the source, and the loops that count a list
count it in one. -/

mutual
def TypeFits : LrType → Prop
  | .scalar _ _ | .ptr _ _ => True
  | .array _ elem _ | .vector _ elem _ => TypeFits elem
  | .struct _ fields _ _ => fields.length < 2 ^ 32 ∧ TypesFit fields
  | .func _ ret params _ => TypeFits ret ∧ params.length < 2 ^ 32 ∧ TypesFit params

def TypesFit : List LrType → Prop
  | [] => True
  | t :: rest => TypeFits t ∧ TypesFit rest
end

def ValueFits : OperandValue → Prop
  | .vreg id | .block id | .global id => id < 2 ^ 32
  | .immI64 _ | .immF64 _ | .null | .undef => True

structure OperandFits (op : LrOperand) : Prop where
  value : ValueFits op.value
  type : ∀ t ∈ op.type, TypeFits t

structure InstFits (inst : LrInst) : Prop where
  type : ∀ t ∈ inst.type, TypeFits t
  dest : inst.dest < 2 ^ 32
  align : inst.align < 2 ^ 32
  callFixedArgs : inst.callFixedArgs < 2 ^ 32
  numOperands : inst.operands.length < 2 ^ 32
  numIndices : (payloadIndices inst.payload).length < 2 ^ 32
  operands : ∀ op ∈ inst.operands, OperandFits op

structure BlockFits (b : LrBlock) : Prop where
  id : b.id < 2 ^ 32
  numInsts : b.insts.length < 2 ^ 32
  insts : ∀ inst ∈ b.insts, InstFits inst

structure FuncFits (f : LrFunc) : Prop where
  nextVreg : f.nextVreg < 2 ^ 32
  numParams : f.paramTypes.length < 2 ^ 32
  type : TypeFits f.type
  retType : TypeFits f.retType
  paramTypes : ∀ t ∈ f.paramTypes, TypeFits t
  paramVregs : ∀ vregs ∈ f.paramVregs, vregs.length = f.paramTypes.length
  vregs : ∀ vregs ∈ f.paramVregs, ∀ r ∈ vregs, r < 2 ^ 32
  numBlocks : f.blocks.length < 2 ^ 32
  blocks : ∀ b ∈ f.blocks, BlockFits b

structure GlobalFits (g : LrGlobal) : Prop where
  id : g.id < 2 ^ 32
  type : ∀ t ∈ g.type, TypeFits t
  initSize : g.initSize < 2 ^ 64
  initData : g.initSize ≤ (g.initData.getD []).length
  numRelocs : g.relocs.length < 2 ^ 32
  relocs : ∀ r ∈ g.relocs, r.offset < 2 ^ 64

structure ModuleFits (m : LrModule) : Prop where
  numSymbols : m.symbols.symbolNames.length < 2 ^ 32
  numFuncs : m.funcs.length < 2 ^ 32
  funcs : ∀ f ∈ m.funcs, FuncFits f
  numGlobals : m.globals.length < 2 ^ 32
  globals : ∀ g ∈ m.globals, GlobalFits g

variable {x y : List UInt8}

theorem u8_inj (hv : v < 256) (hw : w < 256) (h : sigBufU8 v ++ x = sigBufU8 w ++ y) :
    v = w ∧ x = y :=
  word_inj (by omega) (by omega) h

theorem u32_inj (hv : v < 2 ^ 32) (hw : w < 2 ^ 32) (h : sigBufU32 v ++ x = sigBufU32 w ++ y) :
    v = w ∧ x = y :=
  word_inj (by omega) (by omega) h

theorem u64_inj (hv : v < 2 ^ 64) (hw : w < 2 ^ 64) (h : sigBufU64 v ++ x = sigBufU64 w ++ y) :
    v = w ∧ x = y :=
  word_inj (by omega) (by omega) h

theorem bits64_inj {v w : BitVec 64}
    (h : sigBufU64 v.toNat ++ x = sigBufU64 w.toNat ++ y) : v = w ∧ x = y := by
  obtain ⟨hword, hrest⟩ := u64_inj v.isLt w.isLt h
  exact ⟨BitVec.eq_of_toNat_eq hword, hrest⟩

theorem bits32_inj {v w : BitVec 32}
    (h : sigBufU32 v.toNat ++ x = sigBufU32 w.toNat ++ y) : v = w ∧ x = y := by
  obtain ⟨hword, hrest⟩ := u32_inj v.isLt w.isLt h
  exact ⟨BitVec.eq_of_toNat_eq hword, hrest⟩

theorem bool_inj {a b : Bool} (h : sigBufBool a ++ x = sigBufBool b ++ y) : a = b ∧ x = y := by
  have hbound : ∀ c : Bool, (if c then 1 else 0) < 256 := by decide
  obtain ⟨hword, hrest⟩ := u8_inj (hbound a) (hbound b) h
  exact ⟨by revert hword; cases a <;> cases b <;> simp, hrest⟩

/-- The bytes of a name that a signature holds, and those it does not. -/
def nameHead (name : CStr) : CStr := name.take (name.length % 2 ^ 32)
def nameTail (name : CStr) : CStr := name.drop (name.length % 2 ^ 32)

theorem name_eq {a b : CStr} (hhead : nameHead a = nameHead b) (htail : nameTail a = nameTail b) :
    a = b := by
  rw [← take_append_drop (a.length % 2 ^ 32) a, ← take_append_drop (b.length % 2 ^ 32) b]
  exact congrArg₂ (· ++ ·) hhead htail

/-- A truncated length still ends the name it is written for. -/
theorem str_inj {s t : Option CStr} (h : sigBufStr s ++ x = sigBufStr t ++ y) :
    nameHead (s.getD []) = nameHead (t.getD []) ∧ x = y := by
  simp only [sigBufStr, sigBufU32, append_assoc] at h
  obtain ⟨hword, hrest⟩ := leBytes_append_inj h
  have hlen := congrArg leNat hword
  rw [leNat_leBytes, leNat_leBytes] at hlen
  refine append_inj hrest ?_
  rw [nameHead, nameHead, length_take, length_take, min_eq_left (Nat.mod_le _ _),
    min_eq_left (Nat.mod_le _ _)]
  exact hlen

/-- The tag of a type, and what follows it. -/
def kindCode : LrType → Nat
  | .scalar _ kind => scalarKindCode kind
  | .ptr _ _ => 10
  | .array _ _ _ => 11
  | .vector _ _ _ => 12
  | .struct _ _ _ _ => 13
  | .func _ _ _ _ => 14

theorem scalarKindCode_lt (kind : ScalarKind) : scalarKindCode kind < 10 := by
  cases kind <;> decide

theorem kindCode_lt (t : LrType) : kindCode t < 15 := by
  cases t with
  | scalar _ kind => exact lt_of_lt_of_le (scalarKindCode_lt kind) (by decide)
  | ptr | array | vector | struct | func => simp [kindCode]

def typeTail : LrType → List UInt8
  | .scalar _ _ | .ptr _ _ | .vector _ _ _ => []
  | .array _ elem count => sigBufU64 count.toNat ++ sigSerializeType elem
  | .struct _ fields packed name =>
    sigBufBool packed ++ (sigBufStr name ++ (sigBufU32 fields.length ++ sigSerializeTypes fields))
  | .func _ ret params vararg =>
    sigSerializeType ret ++ (sigBufU32 params.length ++
      (sigBufBool vararg ++ sigSerializeTypes params))

theorem sigSerializeType_eq (t : LrType) :
    sigSerializeType t = sigBufU8 (kindCode t) ++ typeTail t := by
  cases t <;> simp [sigSerializeType, kindCode, typeTail]

theorem kind_inj {t u : LrType} (h : sigSerializeType t ++ x = sigSerializeType u ++ y) :
    kindCode t = kindCode u ∧ typeTail t ++ x = typeTail u ++ y := by
  rw [sigSerializeType_eq, sigSerializeType_eq, append_assoc, append_assoc] at h
  exact u8_inj (lt_trans (kindCode_lt t) (by decide)) (lt_trans (kindCode_lt u) (by decide)) h

theorem scalarKindCode_inj {k l : ScalarKind} (h : scalarKindCode k = scalarKindCode l) :
    k = l := by
  revert h
  cases k <;> cases l <;> decide

variable {kind : ScalarKind}

/-- The tags of the other types are not those of a scalar. -/
theorem kindCode_scalar {t : LrType} (h : scalarKindCode kind = kindCode t) :
    ∃ addr, t = .scalar addr kind := by
  have hlt := scalarKindCode_lt kind
  cases t with
  | scalar addr kind' => exact ⟨addr, by rw [scalarKindCode_inj h]⟩
  | ptr | array | vector | struct | func =>
    rw [kindCode] at h
    omega

theorem not_scalarKindCode {n : Nat} (hn : 10 ≤ n) (h : n = scalarKindCode kind) : False :=
  absurd (scalarKindCode_lt kind) (by omega)

mutual
theorem type_inj : ∀ {t u : LrType} {x y : List UInt8}, TypeFits t → TypeFits u →
    sigSerializeType t ++ x = sigSerializeType u ++ y →
    (typeReading t).bare = (typeReading u).bare ∧ x = y
  | .scalar _ kind, u, x, y, _, _, h => by
    obtain ⟨hkind, hrest⟩ := kind_inj h
    obtain ⟨addr, rfl⟩ := kindCode_scalar hkind
    exact ⟨rfl, hrest⟩
  | .ptr _ _, u, x, y, _, _, h => by
    obtain ⟨hkind, hrest⟩ := kind_inj h
    cases u with
    | ptr => exact ⟨rfl, hrest⟩
    | scalar => exact (not_scalarKindCode (by simp [kindCode]) hkind).elim
    | array | vector | struct | func => simp [kindCode] at hkind
  | .array _ elem count, u, x, y, ht, hu, h => by
    obtain ⟨hkind, hrest⟩ := kind_inj h
    cases u with
    | array _ elem' count' =>
      simp only [typeTail, append_assoc] at hrest
      obtain ⟨hcount, hrest⟩ := bits64_inj hrest
      obtain ⟨helem, hrest⟩ := type_inj (t := elem) (u := elem') ht hu hrest
      exact ⟨by rw [typeReading, typeReading, bare, bare, hcount, helem], hrest⟩
    | scalar => exact (not_scalarKindCode (by simp [kindCode]) hkind).elim
    | ptr | vector | struct | func => simp [kindCode] at hkind
  | .vector _ _ _, u, x, y, _, _, h => by
    obtain ⟨hkind, hrest⟩ := kind_inj h
    cases u with
    | vector => exact ⟨rfl, hrest⟩
    | scalar => exact (not_scalarKindCode (by simp [kindCode]) hkind).elim
    | ptr | array | struct | func => simp [kindCode] at hkind
  | .struct _ fields packed name, u, x, y, ht, hu, h => by
    obtain ⟨hkind, hrest⟩ := kind_inj h
    cases u with
    | struct _ fields' packed' name' =>
      simp only [typeTail, append_assoc] at hrest
      obtain ⟨hpacked, hrest⟩ := bool_inj hrest
      obtain ⟨_, hrest⟩ := str_inj hrest
      obtain ⟨hlen, hrest⟩ := u32_inj ht.1 hu.1 hrest
      obtain ⟨hfields, hrest⟩ := types_inj hlen ht.2 hu.2 hrest
      exact ⟨by rw [typeReading, typeReading, bare, bare, hpacked, hfields], hrest⟩
    | scalar => exact (not_scalarKindCode (by simp [kindCode]) hkind).elim
    | ptr | array | vector | func => simp [kindCode] at hkind
  | .func _ ret params vararg, u, x, y, ht, hu, h => by
    obtain ⟨hkind, hrest⟩ := kind_inj h
    cases u with
    | func _ ret' params' vararg' =>
      simp only [typeTail, append_assoc] at hrest
      obtain ⟨hret, hrest⟩ := type_inj ht.1 hu.1 hrest
      obtain ⟨hlen, hrest⟩ := u32_inj ht.2.1 hu.2.1 hrest
      obtain ⟨hvararg, hrest⟩ := bool_inj hrest
      obtain ⟨hparams, hrest⟩ := types_inj hlen ht.2.2 hu.2.2 hrest
      exact ⟨by rw [typeReading, typeReading, bare, bare, hret, hvararg, hparams], hrest⟩
    | scalar => exact (not_scalarKindCode (by simp [kindCode]) hkind).elim
    | ptr | array | vector | struct => simp [kindCode] at hkind

theorem types_inj : ∀ {ts us : List LrType} {x y : List UInt8}, ts.length = us.length →
    TypesFit ts → TypesFit us → sigSerializeTypes ts ++ x = sigSerializeTypes us ++ y →
    bareList (typeReadings ts) = bareList (typeReadings us) ∧ x = y
  | [], us, x, y, hlen, _, _, h => by
    have hnil : us = [] := length_eq_zero_iff.mp hlen.symm
    subst hnil
    exact ⟨rfl, h⟩
  | t :: ts, us, x, y, hlen, hts, hus, h => by
    cases us with
    | nil => simp at hlen
    | cons u us =>
      simp only [sigSerializeTypes, append_assoc] at h
      obtain ⟨htype, hrest⟩ := type_inj hts.1 hus.1 h
      obtain ⟨htypes, hrest⟩ := types_inj (by simpa using hlen) hts.2 hus.2 hrest
      exact ⟨by rw [typeReadings, typeReadings, bareList, bareList, htype, htypes], hrest⟩
end

/-- What a signature holds of a type. -/
def bareType (t : LrType) : TypeReading := (typeReading t).bare

theorem typePtr_inj {t u : Option LrType} (ht : ∀ v ∈ t, TypeFits v) (hu : ∀ v ∈ u, TypeFits v)
    (h : sigSerializeTypePtr t ++ x = sigSerializeTypePtr u ++ y) :
    t.map bareType = u.map bareType ∧ x = y := by
  have hnull : ∀ {v : LrType} {x y : List UInt8},
      sigBufU8 0xFF ++ x = sigSerializeType v ++ y → False := by
    intro v x y h
    rw [sigSerializeType_eq, append_assoc] at h
    have hlt := kindCode_lt v
    obtain ⟨hcode, _⟩ := u8_inj (by decide) (by omega) h
    omega
  cases t with
  | none =>
    cases u with
    | none => exact ⟨rfl, append_cancel_left h⟩
    | some v => exact (hnull h).elim
  | some t =>
    cases u with
    | none => exact (hnull h.symm).elim
    | some u =>
      obtain ⟨htype, hrest⟩ := type_inj (ht t rfl) (hu u rfl) h
      exact ⟨congrArg some htype, hrest⟩

theorem value_inj {m n : LrModule} {v w : OperandValue} (hv : ValueFits v) (hw : ValueFits w)
    (hcode : operandKindCode v = operandKindCode w)
    (h : sigSerializeOperandValue m v ++ x = sigSerializeOperandValue n w ++ y) :
    v = w ∧ x = y := by
  cases v with
  | vreg id =>
    cases w with
    | vreg id' =>
      obtain ⟨hid, hrest⟩ := u32_inj hv hw h
      exact ⟨by rw [hid], hrest⟩
    | _ => simp [operandKindCode] at hcode
  | immI64 bits =>
    cases w with
    | immI64 bits' =>
      obtain ⟨hbits, hrest⟩ := bits64_inj h
      exact ⟨by rw [hbits], hrest⟩
    | _ => simp [operandKindCode] at hcode
  | immF64 bits =>
    cases w with
    | immF64 bits' =>
      obtain ⟨hbits, hrest⟩ := bits64_inj h
      exact ⟨by rw [hbits], hrest⟩
    | _ => simp [operandKindCode] at hcode
  | block id =>
    cases w with
    | block id' =>
      obtain ⟨hid, hrest⟩ := u32_inj hv hw h
      exact ⟨by rw [hid], hrest⟩
    | _ => simp [operandKindCode] at hcode
  | global id =>
    cases w with
    | global id' =>
      rw [sigSerializeOperandValue, sigSerializeOperandValue, append_assoc, append_assoc] at h
      obtain ⟨hid, hrest⟩ := u32_inj hv hw h
      obtain ⟨_, hrest⟩ := str_inj hrest
      exact ⟨by rw [hid], hrest⟩
    | _ => simp [operandKindCode] at hcode
  | null =>
    cases w with
    | null => exact ⟨rfl, h⟩
    | _ => simp [operandKindCode] at hcode
  | undef =>
    cases w with
    | undef => exact ⟨rfl, h⟩
    | _ => simp [operandKindCode] at hcode

/-- The value and the offset of an operand, and its type as far as it is signed. -/
def operandPart (op : LrOperand) : (OperandValue × BitVec 64) × Option TypeReading :=
  ((op.value, op.globalOffset), op.type.map bareType)

theorem operandKindCode_lt (v : OperandValue) : operandKindCode v < 256 := by
  cases v <;> simp [operandKindCode]

theorem operand_readable (m n : LrModule) :
    Readable (sigSerializeOperand m) (sigSerializeOperand n) operandPart OperandFits := by
  intro a b x y ha hb h
  simp only [sigSerializeOperand, append_assoc] at h
  obtain ⟨hcode, h⟩ := u8_inj (operandKindCode_lt _) (operandKindCode_lt _) h
  obtain ⟨htype, h⟩ := typePtr_inj ha.type hb.type h
  obtain ⟨hoffset, h⟩ := bits64_inj h
  obtain ⟨hvalue, h⟩ := value_inj ha.value hb.value hcode h
  exact ⟨by rw [operandPart, operandPart, hvalue, hoffset, htype], h⟩

/-- An instruction without its types. The predicate is the low half of the union
where there are no indices; no code generator reads it where there are. -/
structure InstReading where
  op : Opcode
  dest : Nat
  operands : List (OperandValue × BitVec 64)
  pred : BitVec 32
  indices : List (BitVec 32)
  align : Nat
  callExternalAbi : Bool
  callVararg : Bool
  callFixedArgs : Nat
  deriving DecidableEq

def instReading (inst : LrInst) : InstReading where
  op := inst.op
  dest := inst.dest
  operands := inst.operands.map (fun op => (op.value, op.globalOffset))
  pred := payloadLow32 0 inst.payload
  indices := payloadIndices inst.payload
  align := inst.align
  callExternalAbi := inst.callExternalAbi
  callVararg := inst.callVararg
  callFixedArgs := inst.callFixedArgs

/-- The type pointers of an instruction. -/
def instTypes (inst : LrInst) : List (Option LrType) :=
  inst.type :: inst.operands.map (fun op => op.type)

def bareTypes (types : List (Option LrType)) : List (Option TypeReading) :=
  types.map (Option.map bareType)

def instPart (inst : LrInst) : InstReading × List (Option TypeReading) :=
  (instReading inst, bareTypes (instTypes inst))

/-- The address of an index array is of no account. -/
theorem pred_eq {p q : InstPayload} {place place' : BitVec 32}
    (hindices : payloadIndices p = payloadIndices q)
    (h : payloadLow32 place p = payloadLow32 place' q) : payloadLow32 0 p = payloadLow32 0 q := by
  have hempty : ∀ (r : InstPayload) (place : BitVec 32), payloadIndices r = [] →
      payloadLow32 place r = payloadLow32 0 r := by
    intro r place hr
    cases r with
    | icmpPred | fcmpPred => rfl
    | indices indices =>
      rw [payloadIndices] at hr
      subst hr
      rfl
  have hfull : ∀ (r : InstPayload), payloadIndices r ≠ [] → payloadLow32 0 r = 0 := by
    intro r hr
    cases r with
    | icmpPred | fcmpPred => exact (hr rfl).elim
    | indices indices =>
      cases indices with
      | nil => exact (hr rfl).elim
      | cons => rfl
  by_cases hp : payloadIndices p = []
  · rw [hempty p place hp, hempty q place' (hindices ▸ hp)] at h
    exact h
  · rw [hfull p hp, hfull q (hindices ▸ hp)]

theorem opcode_lt (op : Opcode) : op.ctorIdx < 256 := by
  cases op <;> decide

theorem opcode_inj {a b : Opcode} (h : a.ctorIdx = b.ctorIdx) : a = b := by
  rw [← Opcode.ofNat_ctorIdx a, h, Opcode.ofNat_ctorIdx]

theorem operands_part {as bs : List LrOperand} (h : as.map operandPart = bs.map operandPart) :
    as.map (fun op => (op.value, op.globalOffset)) = bs.map (fun op => (op.value, op.globalOffset)) ∧
      bareTypes (as.map (fun op => op.type)) = bareTypes (bs.map (fun op => op.type)) := by
  have hvalues := congrArg (List.map Prod.fst) h
  have htypes := congrArg (List.map Prod.snd) h
  rw [map_map, map_map] at hvalues htypes
  refine ⟨hvalues, ?_⟩
  rw [bareTypes, bareTypes, map_map, map_map]
  exact htypes

theorem inst_readable (m n : LrModule) :
    Readable (sigSerializeInst m) (sigSerializeInst n) (fun p => instPart p.1)
      (fun p => InstFits p.1) := by
  rintro ⟨a, place⟩ ⟨b, place'⟩ x y ha hb h
  simp only [sigSerializeInst, append_assoc] at h
  obtain ⟨hop, h⟩ := u8_inj (opcode_lt _) (opcode_lt _) h
  obtain ⟨htype, h⟩ := typePtr_inj ha.type hb.type h
  obtain ⟨hdest, h⟩ := u32_inj ha.dest hb.dest h
  obtain ⟨hnumOperands, h⟩ := u32_inj ha.numOperands hb.numOperands h
  obtain ⟨hnumIndices, h⟩ := u32_inj ha.numIndices hb.numIndices h
  obtain ⟨halign, h⟩ := u32_inj ha.align hb.align h
  obtain ⟨hexternal, h⟩ := bool_inj h
  obtain ⟨hvararg, h⟩ := bool_inj h
  obtain ⟨hfixed, h⟩ := u32_inj ha.callFixedArgs hb.callFixedArgs h
  obtain ⟨hpred, h⟩ := bits32_inj h
  obtain ⟨_, h⟩ := bits32_inj h
  obtain ⟨hoperands, h⟩ := (operand_readable m n).items ha.operands hb.operands hnumOperands h
  have hindex : Readable (fun i : BitVec 32 => sigBufU32 i.toNat) (fun i => sigBufU32 i.toNat) id
      (fun _ => True) := fun _ _ _ _ _ _ h => bits32_inj h
  obtain ⟨hindices, h⟩ := hindex.items (fun _ _ => trivial) (fun _ _ => trivial) hnumIndices h
  rw [map_id, map_id] at hindices
  obtain ⟨hvalues, htypes⟩ := operands_part hoperands
  refine ⟨?_, h⟩
  have htypes' : bareTypes (instTypes a) = bareTypes (instTypes b) := by
    rw [instTypes, instTypes, bareTypes, bareTypes, map_cons, map_cons, htype]
    exact congrArg (cons _) htypes
  show instPart a = instPart b
  rw [instPart, instPart, htypes', instReading, instReading, opcode_inj hop, hdest, hvalues,
    pred_eq hindices hpred, hindices, halign, hexternal, hvararg, hfixed]

section Placed
variable {ε τ : Type} {place place' : Nat → τ}

@[simp] theorem length_placed (items : List ε) : (placed place items).length = items.length :=
  length_mapIdx

theorem mem_placed {items : List ε} {p : ε × τ} (h : p ∈ placed place items) : p.1 ∈ items := by
  obtain ⟨i, hi, rfl⟩ := mem_mapIdx.mp h
  exact getElem_mem hi

theorem map_fst_placed {β : Type} (part : ε → β) (items : List ε) :
    (placed place items).map (fun p => part p.1) = items.map part := by
  apply ext_getElem
  · simp
  · intro i hi hi'
    simp [placed]

end Placed

/-- The instructions of a block with their signed types. -/
def blockPart (b : LrBlock) : Nat × List (InstReading × List (Option TypeReading)) :=
  (b.id, b.insts.map instPart)

theorem block_readable (m n : LrModule) :
    Readable (sigSerializeBlock m) (sigSerializeBlock n) (fun p => blockPart p.1)
      (fun p => BlockFits p.1) := by
  rintro ⟨a, place⟩ ⟨b, place'⟩ x y ha hb h
  simp only [sigSerializeBlock, append_assoc] at h
  obtain ⟨hid, h⟩ := u32_inj ha.id hb.id h
  obtain ⟨_, h⟩ := str_inj h
  obtain ⟨hinsts, h⟩ := (inst_readable m n).counted
    (fun p hp => ha.insts _ (mem_placed hp)) (fun p hp => hb.insts _ (mem_placed hp))
    (by rw [length_placed]; exact ha.numInsts) (by rw [length_placed]; exact hb.numInsts) h
  rw [map_fst_placed, map_fst_placed] at hinsts
  refine ⟨?_, h⟩
  show blockPart a = blockPart b
  rw [blockPart, blockPart, hid, hinsts]

/-- What a signature holds of a function. -/
structure SignedFunc where
  name : CStr
  isDecl : Bool
  vararg : Bool
  nextVreg : Nat
  retType : TypeReading
  paramTypes : List TypeReading
  paramVregs : List Nat
  blocks : List (Nat × List (InstReading × List (Option TypeReading)))

def signedFunc (f : LrFunc) : SignedFunc where
  name := nameHead f.name
  isDecl := f.isDecl
  vararg := f.vararg
  nextVreg := f.nextVreg
  retType := bareType f.retType
  paramTypes := f.paramTypes.map bareType
  paramVregs := signedParamVregs f
  blocks := f.blocks.map blockPart

theorem signedParamVregs_lt {f : LrFunc} (hf : FuncFits f) :
    ∀ r ∈ signedParamVregs f, r < 2 ^ 32 := by
  intro r hr
  obtain ⟨i, _, rfl⟩ := mem_map.mp hr
  cases hvregs : f.paramVregs with
  | none => simp
  | some vregs =>
    rw [Option.getD_some, getD_eq_getElem?_getD]
    cases hget : vregs[i]? with
    | none => simp
    | some v => exact hf.vregs vregs hvregs v (mem_of_getElem? hget)

theorem func_readable (m n : LrModule) :
    Readable (sigSerializeFunction m) (sigSerializeFunction n) (fun p => signedFunc p.1)
      (fun p => FuncFits p.1) := by
  rintro ⟨a, place⟩ ⟨b, place'⟩ x y ha hb h
  simp only [sigSerializeFunction, append_assoc] at h
  obtain ⟨hname, h⟩ := str_inj h
  obtain ⟨hdecl, h⟩ := bool_inj h
  obtain ⟨hvararg, h⟩ := bool_inj h
  obtain ⟨hnumParams, h⟩ := u32_inj ha.numParams hb.numParams h
  obtain ⟨hvreg, h⟩ := u32_inj ha.nextVreg hb.nextVreg h
  obtain ⟨hret, h⟩ := type_inj ha.retType hb.retType h
  obtain ⟨_, h⟩ := type_inj ha.type hb.type h
  have htype : Readable sigSerializeType sigSerializeType bareType TypeFits :=
    fun _ _ _ _ => type_inj
  obtain ⟨hparams, h⟩ := htype.items ha.paramTypes hb.paramTypes hnumParams h
  have hword : Readable sigBufU32 sigBufU32 id (fun v => v < 2 ^ 32) := fun _ _ _ _ => u32_inj
  obtain ⟨hvregs, h⟩ := hword.items (signedParamVregs_lt ha) (signedParamVregs_lt hb)
    (by simpa [signedParamVregs] using hnumParams) h
  rw [map_id, map_id] at hvregs
  obtain ⟨hblocks, h⟩ := (block_readable m n).counted
    (fun p hp => ha.blocks _ (mem_placed hp)) (fun p hp => hb.blocks _ (mem_placed hp))
    (by rw [length_placed]; exact ha.numBlocks) (by rw [length_placed]; exact hb.numBlocks) h
  rw [map_fst_placed, map_fst_placed] at hblocks
  refine ⟨?_, h⟩
  show signedFunc a = signedFunc b
  rw [signedFunc, signedFunc, hdecl, hvararg, hvreg, hparams, hvregs, hblocks]
  congr 1

/-- What the code generators read of a global. -/
def globalPart (g : LrGlobal) : CStr × Bool := (nameHead g.name, g.isExternal)

theorem reloc_readable : Readable sigSerializeReloc sigSerializeReloc (fun _ => ())
    (fun r => r.offset < 2 ^ 64) := by
  intro a b x y ha hb h
  simp only [sigSerializeReloc, append_assoc] at h
  obtain ⟨_, h⟩ := u64_inj ha hb h
  obtain ⟨_, h⟩ := bits64_inj h
  obtain ⟨_, h⟩ := str_inj h
  exact ⟨rfl, h⟩

theorem global_readable : Readable sigSerializeGlobal sigSerializeGlobal globalPart GlobalFits := by
  intro a b x y ha hb h
  simp only [sigSerializeGlobal, append_assoc] at h
  obtain ⟨hname, h⟩ := str_inj h
  obtain ⟨_, h⟩ := typePtr_inj ha.type hb.type h
  obtain ⟨_, h⟩ := bool_inj h
  obtain ⟨hexternal, h⟩ := bool_inj h
  obtain ⟨_, h⟩ := u32_inj ha.id hb.id h
  obtain ⟨hsize, h⟩ := u64_inj ha.initSize hb.initSize h
  have hlen : ((a.initData.getD []).take a.initSize).length =
      ((b.initData.getD []).take b.initSize).length := by
    rw [length_take, length_take, min_eq_left ha.initData, min_eq_left hb.initData, hsize]
  obtain ⟨_, h⟩ := append_inj h hlen
  obtain ⟨_, h⟩ := reloc_readable.counted ha.relocs hb.relocs ha.numRelocs hb.numRelocs h
  refine ⟨?_, h⟩
  rw [globalPart, globalPart, hexternal]
  exact congrArg (fun name => (name, b.isExternal)) hname

theorem symbol_readable (m n : LrModule) :
    Readable (sigSerializeSymbol m) (sigSerializeSymbol n) (fun p => nameHead p.1)
      (fun _ => True) := by
  rintro ⟨a, i⟩ ⟨b, j⟩ x y - - h
  simp only [sigSerializeSymbol, append_assoc] at h
  obtain ⟨_, h⟩ := bits32_inj h
  exact str_inj h

/-- The signature of a module holds its names and its functions as signed. -/
theorem module_inj {m n : LrModule} {place place' : Places} (hm : ModuleFits m) (hn : ModuleFits n)
    (h : buildModuleSignature place m = buildModuleSignature place' n) :
    m.symbols.symbolNames.map nameHead = n.symbols.symbolNames.map nameHead ∧
      m.funcs.map signedFunc = n.funcs.map signedFunc ∧
      m.globals.map globalPart = n.globals.map globalPart := by
  have hzip : ∀ names : List CStr, names.zipIdx.map (fun p => nameHead p.1) = names.map nameHead := by
    intro names
    have hfst := congrArg (List.map nameHead) (zipIdx_map_fst 0 names)
    rwa [map_map] at hfst
  rw [buildModuleSignature, buildModuleSignature] at h
  obtain ⟨hsymbols, h⟩ := (symbol_readable m n).counted (fun _ _ => trivial) (fun _ _ => trivial)
    (by simpa using hm.numSymbols) (by simpa using hn.numSymbols) h
  rw [hzip, hzip] at hsymbols
  obtain ⟨hfuncs, h⟩ := (func_readable m n).counted
    (fun p hp => hm.funcs _ (mem_placed hp)) (fun p hp => hn.funcs _ (mem_placed hp))
    (by rw [length_placed]; exact hm.numFuncs) (by rw [length_placed]; exact hn.numFuncs) h
  rw [map_fst_placed, map_fst_placed] at hfuncs
  rw [← append_nil (counted _ m.globals), ← append_nil (counted _ n.globals)] at h
  obtain ⟨hglobals, _⟩ :=
    global_readable.counted hm.globals hn.globals hm.numGlobals hn.numGlobals h
  exact ⟨hsymbols, hfuncs, hglobals⟩

theorem function_inj {m n : LrModule} {f g : LrFunc} {place place' : Nat → Nat → BitVec 32}
    (hf : FuncFits f) (hg : FuncFits g)
    (h : buildFunctionSignature place m f = buildFunctionSignature place' n g) :
    signedFunc f = signedFunc g :=
  (func_readable m n (f, place) (g, place') [] [] hf hg (congrArg (· ++ []) h)).1

/-- What a call reads of the functions that may be its callee. -/
structure HeadReading where
  name : CStr
  isDecl : Bool
  vararg : Bool
  usesLlvmAbi : Bool
  numParams : Nat
  hasBody : Bool
  deriving DecidableEq

def headReading (f : LrFunc) : HeadReading where
  name := f.name
  isDecl := f.isDecl
  vararg := f.vararg
  usesLlvmAbi := f.usesLlvmAbi
  numParams := f.paramTypes.length
  hasBody := !f.blocks.isEmpty

/-- Parameters without stored registers are in the registers 1, 2, … -/
def readParamVregs (f : LrFunc) : List Nat :=
  f.paramVregs.getD ((range f.paramTypes.length).map (· + 1))

def blockReading (b : LrBlock) : Nat × List InstReading := (b.id, b.insts.map instReading)

def headTypes (f : LrFunc) : List (Option LrType) := some f.retType :: f.paramTypes.map some

def bodyTypes (f : LrFunc) : List (Option LrType) :=
  f.blocks.flatMap (fun b => b.insts.flatMap instTypes)

/-- The type pointers the code generators meet: those of the function, of its
instructions and operands, and of the heads of all functions. -/
def typePointers (m : LrModule) (f : LrFunc) : List (Option LrType) :=
  headTypes f ++ (bodyTypes f ++ m.funcs.flatMap headTypes)

/-- The comparisons of pointers by which a call is matched to a callee and a load
to an earlier one. -/
def sameTypes (pointers : List (Option LrType)) : List (List Bool) :=
  pointers.map fun a => pointers.map fun b => a == b

structure Reading where
  mode : CompileMode
  head : HeadReading
  paramVregs : List Nat
  nextVreg : Nat
  numBlocks : Nat
  blockArray : Bool
  blocks : List (Nat × List InstReading)
  funcs : List HeadReading
  globals : List (CStr × Bool)
  symbols : List CStr
  types : List (Option TypeReading)
  sameType : List (List Bool)

def reading (mode : CompileMode) (m : LrModule) (f : LrFunc) : Reading where
  mode := mode
  head := headReading f
  paramVregs := readParamVregs f
  nextVreg := f.nextVreg
  numBlocks := f.numBlocks
  blockArray := f.blockArray
  blocks := f.blocks.map blockReading
  funcs := m.funcs.map headReading
  globals := m.globals.map (fun g => (g.name, g.isExternal))
  symbols := m.symbols.symbolNames
  types := (typePointers m f).map (Option.map typeReading)
  sameType := sameTypes (typePointers m f)

/-- What the code generators read and no signature holds. -/
structure Omitted where
  mode : CompileMode
  /-- The element types and lengths of the vectors among the types. -/
  vectors : List (TypeReading × BitVec 64)
  /-- The calling convention of the function and of all functions. -/
  usesLlvmAbi : List Bool
  /-- The bytes of names that a 32-bit length cuts off. -/
  nameTails : List CStr
  /-- There are parameters and their registers are not stored. -/
  defaultVregs : Bool
  numBlocks : Nat
  blockArray : Bool
  sameType : List (List Bool)

def optionVectors (t : Option TypeReading) : List (TypeReading × BitVec 64) :=
  t.elim [] vectors

def moduleNames (m : LrModule) : List CStr :=
  m.funcs.map (fun f => f.name) ++ (m.globals.map (fun g => g.name) ++ m.symbols.symbolNames)

def omitted (mode : CompileMode) (m : LrModule) (f : LrFunc) : Omitted where
  mode := mode
  vectors := ((typePointers m f).map (Option.map typeReading)).flatMap optionVectors
  usesLlvmAbi := f.usesLlvmAbi :: m.funcs.map (fun f => f.usesLlvmAbi)
  nameTails := (f.name :: moduleNames m).map nameTail
  defaultVregs := f.paramVregs.isNone && !f.paramTypes.isEmpty
  numBlocks := f.numBlocks
  blockArray := f.blockArray
  sameType := sameTypes (typePointers m f)

theorem option_completes :
    Completes (Option.map typeReading) (Option.map bareType)
      (fun t => optionVectors (t.map typeReading)) := by
  intro t u hbase
  cases t with
  | none =>
    have hnone : u = none := by simpa using hbase.symm
    subst hnone
    exact ⟨rfl, fun _ => rfl⟩
  | some t =>
    cases u with
    | none => simp at hbase
    | some u =>
      rw [Option.map_some, Option.map_some, Option.some.injEq] at hbase
      obtain ⟨hlen, hwhole⟩ := bare_completes (typeReading t) (typeReading u) hbase
      exact ⟨hlen, fun hvec => congrArg some (hwhole hvec)⟩

def SignedFunc.headTypes (s : SignedFunc) : List (Option TypeReading) :=
  some s.retType :: s.paramTypes.map some

def SignedFunc.bodyTypes (s : SignedFunc) : List (Option TypeReading) :=
  s.blocks.flatMap (fun b => b.2.flatMap Prod.snd)

theorem bareTypes_headTypes (f : LrFunc) : bareTypes (headTypes f) = (signedFunc f).headTypes := by
  simp [bareTypes, headTypes, SignedFunc.headTypes, signedFunc, Function.comp_def]

theorem bareTypes_bodyTypes (f : LrFunc) : bareTypes (bodyTypes f) = (signedFunc f).bodyTypes := by
  simp [bareTypes, bodyTypes, SignedFunc.bodyTypes, signedFunc, blockPart, instPart,
    map_flatMap, flatMap_map]

theorem bareTypes_typePointers (m : LrModule) (f : LrFunc) :
    bareTypes (typePointers m f) = (signedFunc f).headTypes ++ ((signedFunc f).bodyTypes ++
      (m.funcs.map signedFunc).flatMap SignedFunc.headTypes) := by
  have happend : ∀ as bs, bareTypes (as ++ bs) = bareTypes as ++ bareTypes bs :=
    fun as bs => map_append
  have hheads : bareTypes (m.funcs.flatMap headTypes) =
      (m.funcs.map signedFunc).flatMap SignedFunc.headTypes := by
    rw [bareTypes, map_flatMap, flatMap_map]
    exact flatMap_congr (fun g _ => bareTypes_headTypes g)
  rw [typePointers, happend, happend, bareTypes_headTypes, bareTypes_bodyTypes, hheads]

theorem headReading_eq {f g : LrFunc} (hsigned : signedFunc f = signedFunc g)
    (habi : f.usesLlvmAbi = g.usesLlvmAbi) (htail : nameTail f.name = nameTail g.name) :
    headReading f = headReading g := by
  have hname : f.name = g.name := name_eq (congrArg SignedFunc.name hsigned) htail
  have hdecl : f.isDecl = g.isDecl := congrArg SignedFunc.isDecl hsigned
  have hvararg : f.vararg = g.vararg := congrArg SignedFunc.vararg hsigned
  have hparams := congrArg (fun s => s.paramTypes.length) hsigned
  have hbody := congrArg (fun s => !s.blocks.isEmpty) hsigned
  simp only [signedFunc, length_map, isEmpty_map] at hparams hbody
  rw [headReading, headReading, hname, hdecl, hvararg, habi, hparams, hbody]

theorem blocks_eq {f g : LrFunc} (hsigned : signedFunc f = signedFunc g) :
    f.blocks.map blockReading = g.blocks.map blockReading := by
  refine map_eq_of_part ?_ (congrArg SignedFunc.blocks hsigned)
  intro a b hpart
  rw [blockPart, blockPart, Prod.mk.injEq] at hpart
  rw [blockReading, blockReading, hpart.1]
  exact congrArg (Prod.mk b.id)
    (map_eq_of_part (fun _ _ h => congrArg Prod.fst h) hpart.2)

/-- Stored registers are signed as they are, missing ones as zeros. -/
theorem signedParamVregs_some {f : LrFunc} {vregs : List Nat} (hf : FuncFits f)
    (h : f.paramVregs = some vregs) : signedParamVregs f = vregs := by
  have hlen := hf.paramVregs vregs h
  rw [signedParamVregs, h, Option.getD_some]
  apply ext_getElem
  · simp [hlen]
  · intro i hi hi'
    simp [hi']

theorem signedParamVregs_none {f : LrFunc} (h : f.paramVregs = none) :
    signedParamVregs f = replicate f.paramTypes.length 0 := by
  rw [signedParamVregs, h]
  apply ext_getElem <;> simp

def defaultVregs (f : LrFunc) : Bool := f.paramVregs.isNone && !f.paramTypes.isEmpty

theorem readParamVregs_missing {f g : LrFunc} {vregs : List Nat} (hg : FuncFits g)
    (hnone : f.paramVregs = none) (hsome : g.paramVregs = some vregs)
    (hsigned : signedParamVregs f = signedParamVregs g) :
    readParamVregs f = readParamVregs g ↔ defaultVregs f = defaultVregs g := by
  rw [signedParamVregs_none hnone, signedParamVregs_some hg hsome] at hsigned
  rw [readParamVregs, readParamVregs, hnone, hsome, Option.getD_none, Option.getD_some, ← hsigned,
    defaultVregs, defaultVregs, hnone, hsome]
  cases f.paramTypes with
  | nil => simp
  | cons t rest => simp [replicate_succ, range_succ_eq_map]

theorem readParamVregs_eq_iff {f g : LrFunc} (hf : FuncFits f) (hg : FuncFits g)
    (hsigned : signedFunc f = signedFunc g) :
    readParamVregs f = readParamVregs g ↔ defaultVregs f = defaultVregs g := by
  have hvregs : signedParamVregs f = signedParamVregs g := congrArg SignedFunc.paramVregs hsigned
  have hlen := congrArg (fun s => s.paramTypes.length) hsigned
  simp only [signedFunc, length_map] at hlen
  cases hfv : f.paramVregs with
  | none =>
    cases hgv : g.paramVregs with
    | none =>
      have hempty : f.paramTypes.isEmpty = g.paramTypes.isEmpty := by
        rw [Bool.eq_iff_iff, isEmpty_iff_length_eq_zero, isEmpty_iff_length_eq_zero, hlen]
      simp [readParamVregs, defaultVregs, hfv, hgv, hlen, hempty]
    | some vregs => exact readParamVregs_missing hg hfv hgv hvregs
  | some vregs =>
    cases hgv : g.paramVregs with
    | none =>
      rw [eq_comm, eq_comm (b := defaultVregs g)]
      exact readParamVregs_missing hf hgv hfv hvregs.symm
    | some vregs' =>
      rw [signedParamVregs_some hf hfv, signedParamVregs_some hg hgv] at hvregs
      simp [readParamVregs, defaultVregs, hfv, hgv, hvregs]

section SameSignature
variable {m n : LrModule} {f g : LrFunc} {mode mode' : CompileMode}

/-- A signature and the omitted part complete the reading. -/
theorem reading_eq_of_omitted_eq (hf : FuncFits f) (hg : FuncFits g)
    (hsigned : signedFunc f = signedFunc g)
    (hfuncs : m.funcs.map signedFunc = n.funcs.map signedFunc)
    (hglobals : m.globals.map globalPart = n.globals.map globalPart)
    (hsymbols : m.symbols.symbolNames.map nameHead = n.symbols.symbolNames.map nameHead)
    (homitted : omitted mode m f = omitted mode' n g) :
    reading mode m f = reading mode' n g := by
  simp only [omitted, moduleNames, map_cons, map_append, Omitted.mk.injEq,
    cons.injEq] at homitted
  obtain ⟨hmode, hvectors, ⟨habi, habis⟩, ⟨htail, htails⟩, hvregs, hnum, harray, hsame⟩ := homitted
  -- the tails come in the order of the signed lists, which fix how many there are of each kind
  have hlenFuncs := congrArg List.length hfuncs
  have hlenGlobals := congrArg List.length hglobals
  rw [length_map, length_map] at hlenFuncs hlenGlobals
  obtain ⟨htailFuncs, htails⟩ := append_inj htails (by simpa using hlenFuncs)
  obtain ⟨htailGlobals, htailSymbols⟩ := append_inj htails (by simpa using hlenGlobals)
  rw [map_map, map_map] at htailFuncs htailGlobals
  have hheads : m.funcs.map headReading = n.funcs.map headReading := by
    refine map_eq_of_part ?_ (map_pair_eq hfuncs (map_pair_eq habis htailFuncs))
    intro a b hpart
    rw [Prod.mk.injEq, Prod.mk.injEq] at hpart
    exact headReading_eq hpart.1 hpart.2.1 hpart.2.2
  have hglobals' : m.globals.map (fun g => (g.name, g.isExternal)) =
      n.globals.map (fun g => (g.name, g.isExternal)) := by
    refine map_eq_of_part ?_ (map_pair_eq hglobals htailGlobals)
    intro a b hpart
    rw [Prod.mk.injEq, globalPart, globalPart, Prod.mk.injEq] at hpart
    rw [name_eq hpart.1.1 hpart.2, hpart.1.2]
  have hsymbols' : m.symbols.symbolNames = n.symbols.symbolNames := by
    have hnames : m.symbols.symbolNames.map id = n.symbols.symbolNames.map id := by
      refine map_eq_of_part ?_ (map_pair_eq hsymbols htailSymbols)
      intro a b hpart
      rw [Prod.mk.injEq] at hpart
      exact name_eq hpart.1 hpart.2
    rwa [map_id, map_id] at hnames
  have htypes : (typePointers m f).map (Option.map typeReading) =
      (typePointers n g).map (Option.map typeReading) := by
    have hbare : bareTypes (typePointers m f) = bareTypes (typePointers n g) := by
      rw [bareTypes_typePointers, bareTypes_typePointers, hsigned, hfuncs]
    rw [flatMap_map, flatMap_map] at hvectors
    exact (option_completes.list _ _ hbare).2 hvectors
  have hvreg : f.nextVreg = g.nextVreg := congrArg SignedFunc.nextVreg hsigned
  rw [reading, reading, hmode, headReading_eq hsigned habi htail,
    (readParamVregs_eq_iff hf hg hsigned).mpr hvregs, hvreg, hnum, harray, blocks_eq hsigned,
    hheads, hglobals', hsymbols', htypes, hsame]

theorem omitted_eq_of_reading_eq (hf : FuncFits f) (hg : FuncFits g)
    (hsigned : signedFunc f = signedFunc g) (hreading : reading mode m f = reading mode' n g) :
    omitted mode m f = omitted mode' n g := by
  simp only [reading, Reading.mk.injEq] at hreading
  obtain ⟨hmode, hhead, hvregs, _, hnum, harray, _, hheads, hglobals, hsymbols, htypes, hsame⟩ :=
    hreading
  have habi : f.usesLlvmAbi = g.usesLlvmAbi := congrArg HeadReading.usesLlvmAbi hhead
  have hname : f.name = g.name := congrArg HeadReading.name hhead
  have habis : m.funcs.map (fun f => f.usesLlvmAbi) = n.funcs.map (fun f => f.usesLlvmAbi) :=
    map_eq_of_part (fun _ _ h => congrArg HeadReading.usesLlvmAbi h) hheads
  have hnames : m.funcs.map (fun f => f.name) = n.funcs.map (fun f => f.name) :=
    map_eq_of_part (fun _ _ h => congrArg HeadReading.name h) hheads
  have hglobalNames : m.globals.map (fun g => g.name) = n.globals.map (fun g => g.name) :=
    map_eq_of_part (fun _ _ h => congrArg Prod.fst h) hglobals
  have hdefault : defaultVregs f = defaultVregs g := (readParamVregs_eq_iff hf hg hsigned).mp hvregs
  rw [defaultVregs, defaultVregs] at hdefault
  rw [omitted, omitted, moduleNames, moduleNames, hmode, htypes, habi, habis, hname, hnames,
    hglobalNames, hsymbols, hdefault, hnum, harray, hsame]

end SameSignature

/-- A function of a module that is compiled for a target, both of a size the
source can hold. -/
structure Request where
  target : Target
  mode : CompileMode
  m : LrModule
  f : LrFunc
  place : Places
  funcPlace : Nat → Nat → BitVec 32
  moduleFits : ModuleFits m
  funcFits : FuncFits f

variable {q r : Request}

namespace Request

def moduleSig (r : Request) : List UInt8 := buildModuleSignature r.place r.m
def funcSig (r : Request) : List UInt8 := buildFunctionSignature r.funcPlace r.m r.f
def reading (r : Request) : Reading := MaterializeCache.reading r.mode r.m r.f
def omitted (r : Request) : Omitted := MaterializeCache.omitted r.mode r.m r.f

/-- The two requests have one key. -/
structure SameKey (q r : Request) : Prop where
  target : q.target = r.target
  moduleSig : q.moduleSig = r.moduleSig
  funcSig : q.funcSig = r.funcSig

/-- Under one signature, the reading is the same exactly if the omitted part is. -/
theorem reading_eq_iff (hmodule : q.moduleSig = r.moduleSig)
    (hfunc : q.funcSig = r.funcSig) : q.reading = r.reading ↔ q.omitted = r.omitted := by
  obtain ⟨hsymbols, hfuncs, hglobals⟩ := module_inj q.moduleFits r.moduleFits hmodule
  have hsigned := function_inj q.funcFits r.funcFits hfunc
  exact ⟨omitted_eq_of_reading_eq q.funcFits r.funcFits hsigned,
    reading_eq_of_omitted_eq q.funcFits r.funcFits hsigned hfuncs hglobals hsymbols⟩

theorem moduleSig_ne_nil (r : Request) : r.moduleSig ≠ [] := by
  intro h
  have hlen := congrArg List.length h
  simp only [moduleSig, buildModuleSignature, counted, length_append,
    Lib.length_leBytes, length_nil] at hlen
  omega

theorem funcSig_ne_nil (r : Request) : r.funcSig ≠ [] := by
  intro h
  have hlen := congrArg List.length h
  simp only [funcSig, buildFunctionSignature, sigSerializeFunction, sigBufStr, sigBufU32,
    length_append, Lib.length_leBytes, length_nil] at hlen
  omega

end Request

/-- A code generator: code before relocation and its relocations, or a failure. -/
abbrev Codegen := Target → Reading → Option (List UInt8 × List CachedReloc)

inductive CacheOp where
  | lookup (r : Request) (updateStats : Bool)
  /-- The function is compiled and the result is put into the cache. -/
  | insert (r : Request)
  | invalidateAll

def lookup (c : MatCache) (r : Request) (updateStats : Bool) : MatCache × Option MatCacheEntry :=
  materializeCacheLookup c r.target r.moduleSig r.funcSig updateStats

def cacheStep (compile : Codegen) (c : MatCache) : CacheOp → MatCache
  | .lookup r updateStats => (lookup c r updateStats).1
  | .insert r =>
    match compile r.target r.reading with
    | none => c
    | some (code, relocs) =>
      (materializeCacheInsert c r.target r.moduleSig r.funcSig code relocs).1
  | .invalidateAll => lrJitMaterializeCacheInvalidateAll c

def cacheRun (compile : Codegen) (ops : List CacheOp) : MatCache :=
  ops.foldl (cacheStep compile) .initial

/-- The entry was made for this request. -/
structure MadeFor (compile : Codegen) (e : MatCacheEntry) (r : Request) : Prop where
  targetPtrSize : e.targetPtrSize = r.target.ptrSize
  targetName : e.targetName = r.target.name
  moduleSig : e.moduleSig = r.moduleSig
  funcSig : e.funcSig = r.funcSig
  compiled : compile r.target r.reading = some (e.code, e.relocs)

/-- Every entry was made for a request that was inserted. -/
def EntriesMade (compile : Codegen) (ops : List CacheOp) (c : MatCache) : Prop :=
  ∀ b, ∀ e ∈ c.buckets b, ∃ r, CacheOp.insert r ∈ ops ∧ MadeFor compile e r

theorem lookup_buckets (c : MatCache) (r : Request) (updateStats : Bool) :
    (lookup c r updateStats).1.buckets = c.buckets := by
  rw [lookup, materializeCacheLookup]
  split
  · cases updateStats <;> rfl
  · split <;> cases updateStats <;> rfl

variable {compile : Codegen} {relocs : List CachedReloc} {code : List UInt8}

/-- An insertion keeps the bucket or puts the entry of the request before it. -/
theorem mem_insert_buckets {b : Nat} (hcompile : compile r.target r.reading = some (code, relocs))
    (he : e ∈ (materializeCacheInsert c r.target r.moduleSig r.funcSig code relocs).1.buckets b) :
    e ∈ c.buckets b ∨ MadeFor compile e r := by
  rw [materializeCacheInsert] at he
  split at he
  · exact .inl he
  · split at he
    · exact .inl he
    · dsimp only at he
      split at he
      · rcases mem_cons.mp he with rfl | hold
        · exact .inr ⟨rfl, rfl, rfl, rfl, hcompile⟩
        · exact .inl hold
      · exact .inl he

variable {ops : List CacheOp}

theorem cacheStep_entriesMade (hc : EntriesMade compile ops c) (op : CacheOp) :
    EntriesMade compile (ops ++ [op]) (cacheStep compile c op) := by
  have hmono : ∀ b, ∀ e ∈ c.buckets b,
      ∃ r, CacheOp.insert r ∈ ops ++ [op] ∧ MadeFor compile e r := by
    intro b e he
    obtain ⟨r, hr, hmade⟩ := hc b e he
    exact ⟨r, mem_append_left _ hr, hmade⟩
  intro b e he
  cases op with
  | lookup r updateStats =>
    rw [cacheStep, lookup_buckets] at he
    exact hmono b e he
  | insert r =>
    rw [cacheStep] at he
    split at he
    · exact hmono b e he
    · rename_i code relocs hcompile
      rcases mem_insert_buckets hcompile he with hold | hmade
      · exact hmono b e hold
      · exact ⟨r, by simp, hmade⟩
  | invalidateAll => simp [cacheStep, lrJitMaterializeCacheInvalidateAll] at he

theorem cacheRun_entriesMade (compile : Codegen) (ops : List CacheOp) :
    EntriesMade compile ops (cacheRun compile ops) := by
  induction ops using reverseRecOn with
  | nil =>
    intro b e he
    simp [cacheRun, MatCache.initial] at he
  | append_singleton ops op ih =>
    rw [cacheRun, foldl_append, foldl_cons, foldl_nil]
    exact cacheStep_entriesMade ih op

/-- A hit is an entry of the cache with the key of the request. -/
theorem lookup_some (h : (lookup c r updateStats).2 = some e) :
    (∃ b, e ∈ c.buckets b) ∧ e.targetPtrSize = r.target.ptrSize ∧ e.targetName = r.target.name ∧
      e.moduleSig = r.moduleSig ∧ e.funcSig = r.funcSig := by
  rw [lookup, materializeCacheLookup] at h
  split at h
  · simp at h
  · split at h
    · rename_i entry hfind
      cases h
      rw [findCacheEntry] at hfind
      have hkey := find?_some hfind
      simp only [materializeCacheKeyMatches, Bool.and_eq_true, beq_iff_eq] at hkey
      obtain ⟨_, ⟨⟨⟨_, hptr⟩, hname⟩, hmodule⟩, hfunc⟩ := hkey
      exact ⟨⟨_, mem_of_find?_eq_some hfind⟩, hptr, hname, hmodule, hfunc⟩
    · simp at h

theorem target_ext {s t : Target} (hname : s.name = t.name) (hptr : s.ptrSize = t.ptrSize) :
    s = t := by
  cases s
  cases t
  cases hname
  cases hptr
  rfl

/-- What a hit replays was compiled for an inserted request with the same key. -/
theorem hit_made_for (h : (lookup (cacheRun compile ops) q updateStats).2 = some e) :
    ∃ r, CacheOp.insert r ∈ ops ∧ q.SameKey r ∧
      compile r.target r.reading = some (e.code, e.relocs) := by
  obtain ⟨⟨b, he⟩, hptr, hname, hmodule, hfunc⟩ := lookup_some h
  obtain ⟨r, hr, hmade⟩ := cacheRun_entriesMade compile ops b e he
  exact ⟨r, hr,
    ⟨target_ext (hname.symm.trans hmade.targetName) (hptr.symm.trans hmade.targetPtrSize),
      hmodule.symm.trans hmade.moduleSig, hfunc.symm.trans hmade.funcSig⟩, hmade.compiled⟩

/-- The first insertion of a key is found again under it. -/
theorem lookup_after_insert (h : q.SameKey r)
    (hcompile : compile r.target r.reading = some (code, relocs)) (hcode : code ≠ []) :
    ∃ e, (lookup (cacheRun compile [.insert r]) q false).2 = some e ∧ e.code = code ∧
      e.relocs = relocs := by
  have hm := Request.moduleSig_ne_nil r
  have hf := Request.funcSig_ne_nil r
  simp only [cacheRun, foldl_cons, foldl_nil, cacheStep, hcompile, lookup, h.target,
    h.moduleSig, h.funcSig]
  simp [materializeCacheInsert, materializeCacheLookup, hm, hf, hcode, findCacheEntry,
    materializeCacheKeyMatches, MatCache.initial]

/-- A hit replays what compiling the request from scratch gives, in every run in
which no request with the same key and another omitted part was inserted. -/
theorem hit_is_compiled (hsame : ∀ r, CacheOp.insert r ∈ ops → q.SameKey r → q.omitted = r.omitted)
    (h : (lookup (cacheRun compile ops) q updateStats).2 = some e) :
    compile q.target q.reading = some (e.code, e.relocs) := by
  obtain ⟨r, hr, hkey, hcompiled⟩ := hit_made_for h
  have hreading : q.reading = r.reading :=
    (Request.reading_eq_iff hkey.moduleSig hkey.funcSig).mpr (hsame r hr hkey)
  rw [hreading, hkey.target]
  exact hcompiled

open Classical in
/-- A code generator that tells one reading from all others. -/
noncomputable def telling (special : Reading) : Codegen := fun _ r =>
  if r = special then some ([0], []) else some ([1], [])

theorem omitted_eq_of_transparent (h : q.SameKey r)
    (htransparent : ∀ (compile : Codegen) (e : MatCacheEntry),
      (lookup (cacheRun compile [.insert r]) q false).2 = some e →
      compile q.target q.reading = some (e.code, e.relocs)) :
    q.omitted = r.omitted := by
  rw [← Request.reading_eq_iff h.moduleSig h.funcSig]
  by_contra hne
  have hcompile : telling r.reading r.target r.reading = some ([0], []) := if_pos rfl
  obtain ⟨e, hhit, hcode, _⟩ := lookup_after_insert h hcompile (by decide)
  have hreplayed := htransparent _ e hhit
  have hscratch : telling r.reading q.target q.reading = some ([1], []) := if_neg hne
  rw [hscratch, hcode] at hreplayed
  simp at hreplayed

/-- **The cache is transparent up to what no signature mentions.** Two functions
with the same signature bytes give the code generators the same reading exactly
if their omitted parts agree; that is also when every code generator may replay
the code of the one for the other; and in every run of the cache a hit replays
what compiling from scratch gives, as long as the functions inserted under its
key agree with it on the omitted part. -/
theorem replay_transparent_iff {q r : Request} (hmodule : q.moduleSig = r.moduleSig)
    (hfunc : q.funcSig = r.funcSig) :
    (q.reading = r.reading ↔ q.omitted = r.omitted) ∧
    (q.target = r.target →
      ((∀ (compile : Codegen) (e : MatCacheEntry),
        (lookup (cacheRun compile [.insert r]) q false).2 = some e →
        compile q.target q.reading = some (e.code, e.relocs)) ↔ q.omitted = r.omitted)) ∧
    (∀ (compile : Codegen) (ops : List CacheOp) (updateStats : Bool) (e : MatCacheEntry),
      (∀ s, CacheOp.insert s ∈ ops → q.SameKey s → q.omitted = s.omitted) →
      (lookup (cacheRun compile ops) q updateStats).2 = some e →
      compile q.target q.reading = some (e.code, e.relocs)) := by
  refine ⟨Request.reading_eq_iff hmodule hfunc, ?_, fun _ _ _ _ => hit_is_compiled⟩
  intro htarget
  constructor
  · exact omitted_eq_of_transparent ⟨htarget, hmodule, hfunc⟩
  · intro homitted compile e
    refine hit_is_compiled ?_
    intro s hs _
    rw [mem_singleton] at hs
    cases hs
    exact homitted

/-- `define <count x elem> @f() { ret <count x elem> undef }`, its types at the
addresses from `addr` on. -/
def vectorFunc (addr : Nat) (elem : ScalarKind) (count : BitVec 64) : LrFunc :=
  let ret := LrType.vector (addr + 1) (.scalar addr elem) count
  { name := [102]
    symbolId := 0
    type := .func (addr + 2) ret [] false
    retType := ret
    paramTypes := []
    vararg := false
    blocks := [{ name := [98], id := 0, insts := [lrInstCreate .ret (some ret) 0
      [lrOpUndef (some ret)]] }]
    numBlocks := 1 }

def vectorModule (addr : Nat) (elem : ScalarKind) (count : BitVec 64) : LrModule where
  funcs := [vectorFunc addr elem count]
  symbols := ⟨[[102]], [symbolHash [102]], 64, []⟩
  builtin := lrModuleCreateTypes 0
  nextAddr := addr + 3

theorem vectorFunc_fits (addr : Nat) (elem : ScalarKind) (count : BitVec 64) :
    FuncFits (vectorFunc addr elem count) := by
  constructor <;> simp [vectorFunc, TypeFits, TypesFit]
  constructor <;> simp
  constructor <;> simp [lrInstCreate, TypeFits, payloadIndices]
  constructor <;> simp [lrOpUndef, ValueFits, TypeFits]

def vectorRequest (addr : Nat) (elem : ScalarKind) (count : BitVec 64) : Request where
  target := ⟨[120, 56, 54, 95, 54, 52], 8⟩
  mode := .copyPatch
  m := vectorModule addr elem count
  f := vectorFunc addr elem count
  place := fun _ _ _ => 0
  funcPlace := fun _ _ => 0
  moduleFits := by
    constructor <;> simp [vectorModule]
    exact vectorFunc_fits addr elem count
  funcFits := vectorFunc_fits addr elem count

/-- Two copies of a function at different addresses have one signature and one
reading. -/
theorem replay_transparent_copies :
    (vectorRequest 20 .i32 4).reading = (vectorRequest 40 .i32 4).reading :=
  (replay_transparent_iff (q := vectorRequest 20 .i32 4) (r := vectorRequest 40 .i32 4)
    (by decide +kernel) (by decide +kernel)).1.mpr (by
      simp [Request.omitted, omitted, vectorRequest, vectorModule, vectorFunc, typePointers,
        headTypes, bodyTypes, instTypes, lrInstCreate, lrOpUndef, sameTypes, typeReading,
        optionVectors, vectors, moduleNames])

/-- A function on `<4 x i32>` and one on `<2 x double>` have the same signature. -/
theorem vector_types_share_signature :
    (vectorRequest 20 .i32 4).moduleSig = (vectorRequest 20 .double 2).moduleSig ∧
      (vectorRequest 20 .i32 4).funcSig = (vectorRequest 20 .double 2).funcSig ∧
      (vectorRequest 20 .i32 4).reading ≠ (vectorRequest 20 .double 2).reading := by
  refine ⟨by decide +kernel, by decide +kernel, ?_⟩
  intro h
  have htypes := congrArg Reading.types h
  simp [Request.reading, reading, vectorRequest, typePointers, headTypes, vectorFunc,
    typeReading] at htypes

end Liric.Guarantees.MaterializeCache
