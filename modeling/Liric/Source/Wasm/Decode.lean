import Mathlib.Data.BitVec

/-!
# WASM binary decoder

Source: `src/wasm_decode.c:1-361` and the records of `src/wasm_decode.h`.

The input is a memory `data`, of which only the first `len` bytes belong to the
caller. A cursor keeps, besides its own fields, the list of the offsets it has
read from, so that a read past the input is visible. Pointers into the input are
offsets. `size_t` arithmetic wraps at 64 bits. Allocation succeeds.
-/
namespace Liric.Source.Wasm

/-- `size_t` addition. -/
def sizeAdd (a b : Nat) : Nat := (a + b) % 2 ^ 64

/-- `size_t` subtraction: below zero it wraps to the top. -/
def sizeSub (a b : Nat) : Nat := if b ≤ a then a - b else 2 ^ 64 - (b - a)

/-- What a LEB128 reader reports: the bytes consumed (0 for a rejected encoding),
the value, and how many bytes of the buffer were looked at. -/
structure Leb (w : Nat) where
  consumed : Nat
  value : BitVec w
  touched : Nat
deriving DecidableEq

def Leb.reject {w : Nat} (touched : Nat) : Leb w := ⟨0, 0#w, touched⟩

/-- `(b & 0x7F) << shift` in the width of the result. -/
def lebGroup (w : Nat) (b : UInt8) (shift : Nat) : BitVec w :=
  (b &&& 0x7F).toBitVec.setWidth w <<< shift

/-- The loop of `lr_wasm_read_leb_u32`. The shift reaches 35 after five bytes. -/
def lebU32Loop (buf : Nat → UInt8) (len : Nat) : Nat → Nat → Nat → BitVec 32 → Leb 32
  | 0, i, _, _ => .reject i
  | fuel + 1, i, shift, result =>
    if i < len then
      let b := buf i
      let result := result ||| lebGroup 32 b shift
      if b &&& 0x80 = 0 then ⟨i + 1, result, i + 1⟩
      else if shift + 7 ≥ 35 then .reject (i + 1)
      else lebU32Loop buf len fuel (i + 1) (shift + 7) result
    else .reject i

def lrWasmReadLebU32 (buf : Nat → UInt8) (len : Nat) : Leb 32 :=
  lebU32Loop buf len 5 0 0 0#32

/-- After the loop of a signed reader: `i` bytes were read, `b` is the last. -/
def lebSignExtend (w i shift : Nat) (b : UInt8) (result : BitVec w) : Leb w :=
  if i = 0 then .reject 0
  else if shift < w ∧ b &&& 0x40 ≠ 0 then ⟨i, result ||| -(1#w <<< shift), i⟩
  else ⟨i, result, i⟩

/-- The loop of `lr_wasm_read_leb_i32` and `lr_wasm_read_leb_i64`; it also ends,
without a last byte, where the buffer does. -/
def lebSignedLoop (w limit : Nat) (buf : Nat → UInt8) (len : Nat) :
    Nat → Nat → Nat → UInt8 → BitVec w → Leb w
  | 0, i, _, _, _ => .reject i
  | fuel + 1, i, shift, last, result =>
    if i < len then
      let b := buf i
      let result := result ||| lebGroup w b shift
      if b &&& 0x80 = 0 then lebSignExtend w (i + 1) (shift + 7) b result
      else if shift + 7 ≥ limit then .reject (i + 1)
      else lebSignedLoop w limit buf len fuel (i + 1) (shift + 7) b result
    else lebSignExtend w i shift last result

def lrWasmReadLebI32 (buf : Nat → UInt8) (len : Nat) : Leb 32 :=
  lebSignedLoop 32 35 buf len 6 0 0 0 0#32

def lrWasmReadLebI64 (buf : Nat → UInt8) (len : Nat) : Leb 64 :=
  lebSignedLoop 64 70 buf len 11 0 0 0 0#64

structure Cursor where
  len : Nat
  pos : Nat
  failed : Bool := false
  /-- The message last written to the error buffer, with its offset. -/
  err : Option (String × Nat) := none
  /-- Every offset read so far. -/
  reads : List Nat := []
deriving DecidableEq

abbrev Reader := StateM Cursor

/-- Record reads of `n` consecutive bytes. -/
def Cursor.touch (c : Cursor) (start n : Nat) : Cursor :=
  { c with reads := (List.range n).map (start + ·) ++ c.reads }

def hasFailed : Reader Bool := fun c => (c.failed, c)
def curPos : Reader Nat := fun c => (c.pos, c)
def setPos (pos : Nat) : Reader Unit := fun c => ((), { c with pos := pos })

section
variable (data : Nat → UInt8)

def curU8 : Reader UInt8 := fun c =>
  if c.pos ≥ c.len then (0, { c with failed := true })
  else (data c.pos, { c.touch c.pos 1 with pos := c.pos + 1 })

/-- `cur_u32`, `cur_i32` and `cur_i64`: the encoding starts at the cursor and may
extend to its end. -/
def curLeb {w : Nat} (read : (Nat → UInt8) → Nat → Leb w) : Reader (BitVec w) := fun c =>
  let r := read (fun i => data (c.pos + i)) (sizeSub c.len c.pos)
  let c := c.touch c.pos r.touched
  if r.consumed = 0 then (0#w, { c with failed := true })
  else (r.value, { c with pos := sizeAdd c.pos r.consumed })

def curU32 : Reader (BitVec 32) := curLeb data lrWasmReadLebU32
def curI32 : Reader (BitVec 32) := curLeb data lrWasmReadLebI32
def curI64 : Reader (BitVec 64) := curLeb data lrWasmReadLebI64

def curU32Le : Reader (BitVec 32) := fun c =>
  if sizeAdd c.pos 4 > c.len then (0#32, { c with failed := true })
  else
    let byte := fun i => (data (c.pos + i)).toBitVec.setWidth 32
    (byte 0 ||| byte 1 <<< 8 ||| byte 2 <<< 16 ||| byte 3 <<< 24,
      { c.touch c.pos 4 with pos := sizeAdd c.pos 4 })

/-- The offset of the next `n` bytes; they are not read. -/
def curBytes (n : Nat) : Reader (Option Nat) := fun c =>
  if sizeAdd c.pos n > c.len then (none, { c with failed := true })
  else (some c.pos, { c with pos := sizeAdd c.pos n })

/-- `lr_arena_strdup` of bytes of the input. -/
def strdup (start n : Nat) : Reader (List UInt8) := fun c =>
  ((List.range n).map (fun i => data (start + i)), c.touch start n)

def curName : Reader (Option (List UInt8)) := do
  let len ← curU32 data
  if ← hasFailed then pure none
  else
    match ← curBytes len.toNat with
    | none => pure none
    | some start => some <$> strdup data start len.toNat

def curErr (msg : String) : Reader Unit := fun c =>
  ((), { c with err := some (msg, c.pos), failed := true })

/-- A field that is only there under a condition, and zero otherwise. -/
def readIf (present : Bool) (x : Reader (BitVec 32)) : Reader (BitVec 32) :=
  if present then x else pure 0#32

/-- `for (i = 0; i < n && !c->failed; i++)`. -/
def repeatWhileOk {α : Type} (x : Reader α) : Nat → Reader (List α)
  | 0 => pure []
  | n + 1 => do
    if ← hasFailed then pure []
    else
      let a ← x
      let rest ← repeatWhileOk x n
      pure (a :: rest)

structure FuncType where
  params : List UInt8 := []
  results : List UInt8 := []
deriving DecidableEq

structure Import where
  moduleName : Option (List UInt8) := none
  name : Option (List UInt8) := none
  kind : UInt8 := 0
  typeIdx : BitVec 32 := 0
deriving DecidableEq

structure Export where
  name : Option (List UInt8) := none
  kind : UInt8 := 0
  index : BitVec 32 := 0
deriving DecidableEq

structure LocalGroup where
  count : BitVec 32 := 0
  type : UInt8 := 0
deriving DecidableEq

/-- `body` is the offset of the body in the input. -/
structure Code where
  localGroups : List LocalGroup := []
  body : Nat := 0
  bodyLen : Nat := 0
deriving DecidableEq

structure Memory where
  minPages : BitVec 32 := 0
  maxPages : BitVec 32 := 0
  hasMax : Bool := false
deriving DecidableEq

structure Global where
  type : UInt8 := 0
  isMutable : Bool := false
  initI64 : BitVec 64 := 0
deriving DecidableEq

/-- `bytes` is the offset of the segment in the input. -/
structure DataSegment where
  memoryIdx : BitVec 32 := 0
  offset : BitVec 32 := 0
  bytes : Option Nat := none
  size : BitVec 32 := 0
deriving DecidableEq

structure WasmModule where
  types : List FuncType := []
  imports : List Import := []
  funcTypeIndices : List (BitVec 32) := []
  exports : List Export := []
  codes : List Code := []
  memories : List Memory := []
  globals : List Global := []
  data : List DataSegment := []
  numFuncImports : Nat := 0
deriving DecidableEq

def decodeFuncType : Reader FuncType := do
  let form ← curU8 data
  if form ≠ 0x60 then
    curErr "expected functype 0x60"
    pure {}
  else
    let np ← curU32 data
    let params ← repeatWhileOk (curU8 data) np.toNat
    let nr ← curU32 data
    let results ← repeatWhileOk (curU8 data) nr.toNat
    pure { params := params, results := results }

/-- The part of an import after its kind: the type index of a function. -/
def decodeImportDesc (kind : UInt8) : Reader (BitVec 32) :=
  if kind = 0 then curU32 data
  else if kind = 1 then do
    let _ ← curU8 data
    let _ ← curU32 data
    pure 0
  else if kind = 2 then do
    let flags ← curU8 data
    let _ ← curU32 data
    let _ ← readIf (flags &&& 1 != 0) (curU32 data)
    pure 0
  else if kind = 3 then do
    let _ ← curU8 data
    let _ ← curU8 data
    pure 0
  else do
    curErr "unknown import kind"
    pure 0

def decodeImport : Reader Import := do
  let moduleName ← curName data
  let name ← curName data
  let kind ← curU8 data
  let typeIdx ← decodeImportDesc data kind
  pure { moduleName := moduleName, name := name, kind := kind, typeIdx := typeIdx }

def decodeMemory : Reader Memory := do
  let flags ← curU8 data
  let minPages ← curU32 data
  if flags &&& 1 ≠ 0 then
    let maxPages ← curU32 data
    pure { minPages := minPages, hasMax := true, maxPages := maxPages }
  else pure { minPages := minPages }

/-- Only `i32.const` and `i64.const` initialisers are read. -/
def decodeGlobalInit (op : UInt8) : Reader (BitVec 64) :=
  if op = 0x41 then do
    let v ← curI32 data
    pure (v.signExtend 64)
  else if op = 0x42 then curI64 data
  else pure 0

/-- A closing `0x0B`; the answer is whether it was there. -/
def expectEnd (msg : String) : Reader Bool := do
  let b ← curU8 data
  if b ≠ 0x0B then
    curErr msg
    pure false
  else pure true

def decodeGlobal : Reader Global := do
  let type ← curU8 data
  let isMutable ← curU8 data
  let op ← curU8 data
  let init ← decodeGlobalInit data op
  let _ ← expectEnd data "expected end in init expr"
  pure { type := type, isMutable := isMutable != 0, initI64 := init }

def decodeExport : Reader Export := do
  let name ← curName data
  let kind ← curU8 data
  let index ← curU32 data
  pure { name := name, kind := kind, index := index }

def decodeLocalGroup : Reader LocalGroup := do
  let count ← curU32 data
  let type ← curU8 data
  pure { count := count, type := type }

/-- The start of a code entry: its declared size, the offset that size counts
from, and its local groups. -/
def decodeLocals : Reader (BitVec 32 × Nat × List LocalGroup) := do
  let bodySize ← curU32 data
  let bodyStart ← curPos
  let numLocalGroups ← curU32 data
  let localGroups ← repeatWhileOk (decodeLocalGroup data) numLocalGroups.toNat
  pure (bodySize, bodyStart, localGroups)

/-- One entry of the code section. The cursor is moved behind the entry by its
declared size; neither the size of the locals nor the end is checked. -/
def decodeCode : Reader Code := do
  let (bodySize, bodyStart, localGroups) ← decodeLocals data
  let pos ← curPos
  let localsSize := sizeSub pos bodyStart
  setPos (sizeAdd bodyStart bodySize.toNat)
  pure { localGroups := localGroups, body := pos, bodyLen := sizeSub bodySize.toNat localsSize }

/-- The offset of an active segment, and whether its end byte was there. -/
def decodeDataOffset (segFlags : BitVec 32) : Reader (BitVec 32 × Bool) :=
  if segFlags &&& 1 = 0 then do
    let op ← curU8 data
    let offset ← readIf (op == 0x41) (curI32 data)
    let ok ← expectEnd data "expected end in data offset"
    pure (offset, ok)
  else pure (0, true)

/-- The size and the bytes of a segment; a missing end byte returns before them. -/
def decodeDataBytes (memoryIdx offset : BitVec 32) (ok : Bool) : Reader DataSegment :=
  if ok then do
    let size ← curU32 data
    let bytes ← curBytes size.toNat
    pure { memoryIdx := memoryIdx, offset := offset, bytes := bytes, size := size }
  else pure { memoryIdx := memoryIdx, offset := offset }

def decodeData : Reader DataSegment := do
  let segFlags ← curU32 data
  let memoryIdx ← readIf (segFlags &&& 2 != 0) (curU32 data)
  let (offset, ok) ← decodeDataOffset data segFlags
  decodeDataBytes data memoryIdx offset ok

/-- The frame of every section decoder: a count, then that many elements. -/
def decodeVector {α : Type} (element : Reader α) : Reader (List α) := do
  let count ← curU32 data
  if ← hasFailed then pure [] else repeatWhileOk element count.toNat

def decodeTypeSection (m : WasmModule) : Reader WasmModule := do
  let types ← decodeVector data (decodeFuncType data)
  pure { m with types := types }

def decodeImportSection (m : WasmModule) : Reader WasmModule := do
  let imports ← decodeVector data (decodeImport data)
  pure { m with
    imports := imports
    numFuncImports := m.numFuncImports + imports.countP (fun i => i.kind == 0) }

def decodeFunctionSection (m : WasmModule) : Reader WasmModule := do
  let indices ← decodeVector data (curU32 data)
  pure { m with funcTypeIndices := indices }

def decodeMemorySection (m : WasmModule) : Reader WasmModule := do
  let memories ← decodeVector data (decodeMemory data)
  pure { m with memories := memories }

def decodeGlobalSection (m : WasmModule) : Reader WasmModule := do
  let globals ← decodeVector data (decodeGlobal data)
  pure { m with globals := globals }

def decodeExportSection (m : WasmModule) : Reader WasmModule := do
  let exports ← decodeVector data (decodeExport data)
  pure { m with exports := exports }

def decodeCodeSection (m : WasmModule) : Reader WasmModule := do
  let codes ← decodeVector data (decodeCode data)
  pure { m with codes := codes }

def decodeDataSection (m : WasmModule) : Reader WasmModule := do
  let segments ← decodeVector data (decodeData data)
  pure { m with data := segments }

def decodeSection (secId : UInt8) (m : WasmModule) : Reader WasmModule :=
  if secId = 1 then decodeTypeSection data m
  else if secId = 2 then decodeImportSection data m
  else if secId = 3 then decodeFunctionSection data m
  else if secId = 5 then decodeMemorySection data m
  else if secId = 6 then decodeGlobalSection data m
  else if secId = 7 then decodeExportSection data m
  else if secId = 10 then decodeCodeSection data m
  else if secId = 11 then decodeDataSection data m
  else pure m

/-- The identifier and the length of the section at the cursor. -/
def sectionHeader : Reader (UInt8 × BitVec 32) := do
  let secId ← curU8 data
  let secLen ← curU32 data
  pure (secId, secLen)

/-- The cursor a section is decoded with: it ends where the section is declared
to end. -/
def sectionCursor (c : Cursor) (secLen : BitVec 32) : Cursor :=
  { c with len := sizeAdd c.pos secLen.toNat, failed := false }

/-- The loop over the sections. `none` is a loop that does not end. -/
def sectionLoop : Nat → WasmModule → Cursor → Option (Option WasmModule × Cursor)
  | 0, _, _ => none
  | fuel + 1, m, c =>
    if c.pos < c.len ∧ c.failed = false then
      let ((secId, secLen), c) := sectionHeader data c
      if c.failed then some (none, c)
      else
        let (m, sc) := decodeSection data secId m (sectionCursor c secLen)
        if sc.failed then some (none, sc)
        else sectionLoop fuel m
          { sc with len := c.len, pos := sizeAdd c.pos secLen.toNat, failed := c.failed }
    else some (if c.failed then none else some m, c)

/-- Magic number and version. -/
def decodeHeader : Reader Bool := do
  let magic ← curU32Le data
  if (← hasFailed) || magic != 0x6d736100#32 then
    curErr "invalid WASM magic"
    pure false
  else
    let version ← curU32Le data
    if (← hasFailed) || version != 1#32 then
      curErr "unsupported WASM version"
      pure false
    else pure true

/-- `lr_wasm_decode`: the module, if any, and the final cursor with all reads. -/
def lrWasmDecode (len : Nat) : Option (Option WasmModule × Cursor) :=
  let (ok, c) := decodeHeader data { len := len, pos := 0 }
  if ok then sectionLoop data (len + 1) {} c else some (none, c)

end

end Liric.Source.Wasm
