import Liric.Lib.PrefixCode
import Liric.Source.Ir.Module

/-!
# Signatures and the materialisation cache

Source: src/jit.c:70-119 (`lr_mat_cache_entry_t`), 279-643 (`hash64_extend` to
`build_function_signature`), 654-857 (the cache), src/target.h (`lr_target_t`,
`lr_compile_mode_t`), src/objfile.h:68-72 (`lr_cached_reloc_t`).

A buffer only grows at its end, so a serialiser is the list of bytes it appends;
allocations succeed and with them every serialiser. `icmp_pred`, `fcmp_pred` and
the pointer `indices` share a union, and its low half is appended for every
instruction: `place` gives that half of the address of an index array. Integers
are appended in the byte order of the hosts the JIT runs on, least significant
byte first. The list `g_mat_cache_entries` is only walked to free the entries and
is left out.
-/
namespace Liric.Source.Jit
open Ir
open Lib (leBytes counted)

def sigBufU8 (v : Nat) : List UInt8 := leBytes 1 v
def sigBufU32 (v : Nat) : List UInt8 := leBytes 4 v
def sigBufU64 (v : Nat) : List UInt8 := leBytes 8 v
def sigBufBool (b : Bool) : List UInt8 := sigBufU8 (if b then 1 else 0)

/-- A null pointer is the empty string here. The length is cut to 32 bits. -/
def sigBufStr (s : Option CStr) : List UInt8 :=
  let s := s.getD []
  sigBufU32 s.length ++ s.take (s.length % 2 ^ 32)

/-- The value of `lr_type_kind_t` for a kind without a payload. -/
def scalarKindCode : ScalarKind → Nat
  | .void => 0 | .i1 => 1 | .i8 => 2 | .i16 => 3 | .i32 => 4 | .i64 => 5
  | .float => 6 | .double => 7 | .x86Fp80 => 8 | .fp128 => 9

mutual
/-- Pointers and vectors fall under `default:` and append their kind only. -/
def sigSerializeType : LrType → List UInt8
  | .scalar _ kind => sigBufU8 (scalarKindCode kind)
  | .ptr _ _ => sigBufU8 10
  | .array _ elem count => sigBufU8 11 ++ (sigBufU64 count.toNat ++ sigSerializeType elem)
  | .vector _ _ _ => sigBufU8 12
  | .struct _ fields packed name =>
    sigBufU8 13 ++ (sigBufBool packed ++ (sigBufStr name ++
      (sigBufU32 fields.length ++ sigSerializeTypes fields)))
  | .func _ ret params vararg =>
    sigBufU8 14 ++ (sigSerializeType ret ++ (sigBufU32 params.length ++
      (sigBufBool vararg ++ sigSerializeTypes params)))

def sigSerializeTypes : List LrType → List UInt8
  | [] => []
  | t :: rest => sigSerializeType t ++ sigSerializeTypes rest
end

/-- `sig_serialize_type` of a pointer that may be null. -/
def sigSerializeTypePtr : Option LrType → List UInt8
  | none => sigBufU8 0xFF
  | some t => sigSerializeType t

/-- The value of `lr_operand_kind_t`. -/
def operandKindCode : OperandValue → Nat
  | .vreg _ => 0 | .immI64 _ => 1 | .immF64 _ => 2 | .block _ => 3 | .global _ => 4
  | .null => 5 | .undef => 6

def sigSerializeOperandValue (m : LrModule) : OperandValue → List UInt8
  | .vreg id | .block id => sigBufU32 id
  | .immI64 bits | .immF64 bits => sigBufU64 bits.toNat
  | .global id => sigBufU32 id ++ sigBufStr (lrModuleSymbolName m.symbols id)
  | .null | .undef => []

def sigSerializeOperand (m : LrModule) (op : LrOperand) : List UInt8 :=
  sigBufU8 (operandKindCode op.value) ++ (sigSerializeTypePtr op.type ++
    (sigBufU64 op.globalOffset.toNat ++ sigSerializeOperandValue m op.value))

/-- `indices` and `num_indices`. -/
def payloadIndices : InstPayload → List (BitVec 32)
  | .indices indices => indices
  | .icmpPred _ | .fcmpPred _ => []

/-- The low half of the union. -/
def payloadLow32 (place : BitVec 32) : InstPayload → BitVec 32
  | .icmpPred pred => BitVec.ofNat 32 pred.ctorIdx
  | .fcmpPred pred => BitVec.ofNat 32 pred.ctorIdx
  | .indices [] => 0
  | .indices (_ :: _) => place

def sigSerializeInst (m : LrModule) : LrInst × BitVec 32 → List UInt8
  | (inst, place) =>
    let indices := payloadIndices inst.payload
    let pred := (payloadLow32 place inst.payload).toNat
    sigBufU8 inst.op.ctorIdx ++ (sigSerializeTypePtr inst.type ++ (sigBufU32 inst.dest ++
      (sigBufU32 inst.operands.length ++ (sigBufU32 indices.length ++ (sigBufU32 inst.align ++
      (sigBufBool inst.callExternalAbi ++ (sigBufBool inst.callVararg ++
      (sigBufU32 inst.callFixedArgs ++ (sigBufU32 pred ++ (sigBufU32 pred ++
      (inst.operands.flatMap (sigSerializeOperand m) ++
        indices.flatMap (fun i => sigBufU32 i.toNat))))))))))))

/-- The instructions of a block with the addresses of their index arrays. -/
def placed {ε : Type} {τ : Type*} (place : Nat → τ) (items : List ε) : List (ε × τ) :=
  items.mapIdx (fun i item => (item, place i))

def sigSerializeBlock (m : LrModule) : LrBlock × (Nat → BitVec 32) → List UInt8
  | (b, place) =>
    sigBufU32 b.id ++ (sigBufStr (some b.name) ++
      counted (sigSerializeInst m) (placed place b.insts))

/-- `f->param_vregs ? f->param_vregs[i] : 0u` for every parameter. -/
def signedParamVregs (f : LrFunc) : List Nat :=
  (List.range f.paramTypes.length).map fun i => (f.paramVregs.getD []).getD i 0

def sigSerializeFunction (m : LrModule) : LrFunc × (Nat → Nat → BitVec 32) → List UInt8
  | (f, place) =>
    sigBufStr (some f.name) ++ (sigBufBool f.isDecl ++ (sigBufBool f.vararg ++
      (sigBufU32 f.paramTypes.length ++ (sigBufU32 f.nextVreg ++ (sigSerializeType f.retType ++
      (sigSerializeType f.type ++ (f.paramTypes.flatMap sigSerializeType ++
      ((signedParamVregs f).flatMap sigBufU32 ++
        counted (sigSerializeBlock m) (placed place f.blocks)))))))))

def sigSerializeReloc (r : LrReloc) : List UInt8 :=
  sigBufU64 r.offset ++ (sigBufU64 r.addend.toNat ++ sigBufStr (some r.symbolName))

def sigSerializeGlobal (g : LrGlobal) : List UInt8 :=
  sigBufStr (some g.name) ++ (sigSerializeTypePtr g.type ++ (sigBufBool g.isConst ++
    (sigBufBool g.isExternal ++ (sigBufU32 g.id ++ (sigBufU64 g.initSize ++
    ((g.initData.getD []).take g.initSize ++ counted sigSerializeReloc g.relocs))))))

def sigSerializeSymbol (m : LrModule) : CStr × Nat → List UInt8
  | (name, id) => sigBufU32 (m.symbols.symbolHashes.getD id 0).toNat ++ sigBufStr (some name)

/-- Where the index arrays of a module stand, by function, block and instruction. -/
abbrev Places := Nat → Nat → Nat → BitVec 32

def buildModuleSignature (place : Places) (m : LrModule) : List UInt8 :=
  counted (sigSerializeSymbol m) m.symbols.symbolNames.zipIdx ++
    (counted (sigSerializeFunction m) (placed place m.funcs) ++
      counted sigSerializeGlobal m.globals)

def buildFunctionSignature (place : Nat → Nat → BitVec 32) (m : LrModule) (f : LrFunc) :
    List UInt8 :=
  sigSerializeFunction m (f, place)

/-- `lr_compile_mode_t`. -/
inductive CompileMode where
  | isel | copyPatch | llvm
  deriving DecidableEq

/-- The fields of `lr_target_t` that enter a key. -/
structure Target where
  name : CStr
  ptrSize : UInt8
  deriving DecidableEq

/-- `lr_cached_reloc_t`: the offset is relative to the start of the function. -/
structure CachedReloc where
  offset : Nat
  type : UInt8
  symbolName : CStr
  deriving DecidableEq

structure MatCacheEntry where
  keyHash : BitVec 64
  epoch : BitVec 32
  targetPtrSize : UInt8
  targetName : CStr
  moduleSig : List UInt8
  funcSig : List UInt8
  code : List UInt8
  relocs : List CachedReloc
  deriving DecidableEq

/-- The static variables of the cache. -/
structure MatCache where
  buckets : Nat → List MatCacheEntry
  hitCount : Nat
  missCount : Nat
  entryCount : Nat
  epoch : BitVec 32

def MatCache.initial : MatCache := ⟨fun _ => [], 0, 0, 0, 1⟩

def materializeCacheBucketCount : Nat := 4096
def materializeCacheSchemaVersion : Nat := 1

def hash64Extend (h : BitVec 64) (data : List UInt8) : BitVec 64 :=
  data.foldl (fun h byte => (h ^^^ byte.toBitVec.setWidth 64) * 1099511628211) h

def materializeKeyHash (target : Target) (moduleSig funcSig : List UInt8) (epoch : BitVec 32) :
    BitVec 64 :=
  let h : BitVec 64 := 1469598103934665603
  let h := hash64Extend h (leBytes 4 materializeCacheSchemaVersion)
  let h := hash64Extend h (leBytes 4 epoch.toNat)
  let h := hash64Extend h [target.ptrSize]
  let h := hash64Extend h (leBytes 4 target.name.length)
  let h := hash64Extend h (target.name.take (target.name.length % 2 ^ 32))
  let h := hash64Extend h (leBytes 8 moduleSig.length)
  let h := hash64Extend h moduleSig
  let h := hash64Extend h (leBytes 8 funcSig.length)
  hash64Extend h funcSig

def materializeCacheKeyMatches (entry : MatCacheEntry) (target : Target)
    (moduleSig funcSig : List UInt8) (epoch : BitVec 32) : Bool :=
  entry.epoch == epoch && entry.targetPtrSize == target.ptrSize &&
    entry.targetName == target.name && entry.moduleSig == moduleSig && entry.funcSig == funcSig

/-- The walk over the bucket of the key. -/
def findCacheEntry (c : MatCache) (target : Target) (moduleSig funcSig : List UInt8) :
    Option MatCacheEntry :=
  let keyHash := materializeKeyHash target moduleSig funcSig c.epoch
  (c.buckets (keyHash.toNat % materializeCacheBucketCount)).find? fun entry =>
    entry.keyHash == keyHash &&
      materializeCacheKeyMatches entry target moduleSig funcSig c.epoch

def MatCache.countMiss (c : MatCache) (updateStats : Bool) : MatCache :=
  if updateStats then { c with missCount := c.missCount + 1 } else c

def MatCache.countHit (c : MatCache) (updateStats : Bool) : MatCache :=
  if updateStats then { c with hitCount := c.hitCount + 1 } else c

def materializeCacheLookup (c : MatCache) (target : Target) (moduleSig funcSig : List UInt8)
    (updateStats : Bool) : MatCache × Option MatCacheEntry :=
  if moduleSig.isEmpty || funcSig.isEmpty then (c.countMiss updateStats, none)
  else
    match findCacheEntry c target moduleSig funcSig with
    | some entry => (c.countHit updateStats, some entry)
    | none => (c.countMiss updateStats, none)

/-- A new entry goes to the front of its bucket; an entry with the key stays. -/
def materializeCacheInsert (c : MatCache) (target : Target) (moduleSig funcSig : List UInt8)
    (code : List UInt8) (relocs : List CachedReloc) : MatCache × Int :=
  if moduleSig.isEmpty || funcSig.isEmpty || code.isEmpty then (c, -1)
  else
    match findCacheEntry c target moduleSig funcSig with
    | some _ => (c, 0)
    | none =>
      let keyHash := materializeKeyHash target moduleSig funcSig c.epoch
      let bucket := keyHash.toNat % materializeCacheBucketCount
      let entry : MatCacheEntry :=
        { keyHash := keyHash
          epoch := c.epoch
          targetPtrSize := target.ptrSize
          targetName := target.name
          moduleSig := moduleSig
          funcSig := funcSig
          code := code
          relocs := relocs }
      ({ c with
        buckets := fun b => if b = bucket then entry :: c.buckets b else c.buckets b
        entryCount := c.entryCount + 1 }, 0)

def lrJitMaterializeCacheInvalidateAll (c : MatCache) : MatCache :=
  let epoch := c.epoch + 1
  { c with
    buckets := fun _ => []
    entryCount := 0
    epoch := if epoch = 0 then 1 else epoch }

end Liric.Source.Jit
