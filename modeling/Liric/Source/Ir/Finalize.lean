import Liric.Source.Ir.Peephole

/-!
# Views of a finalized function

Source: src/ir.c:174-193 (`lr_block_create`), 199-256 (`lr_vreg_new`, `lr_inst_create`,
`lr_block_append`), 344-395 (`operand_resolve` to `inst_dead_def_eliminable`), 618-904
(`run_func_peephole_passes` to `lr_func_is_finalized`).

Of a function only its blocks and the arrays over them are here. The linked lists are lists;
an instruction keeps the address it was created at, which is what the arrays hold, and a block
is known by its place. A null pointer to an array is `none`, a null entry of the block array as
well. Every allocation of `lr_func_finalize` may fail; counters stay below `2 ^ 32`.
-/
namespace Liric.Source.Ir.Finalize
open List

structure InstNode where
  addr : Nat
  inst : LrInst
  deriving DecidableEq

structure Block where
  id : Nat
  insts : List InstNode := []
  instArray : Option (List Nat) := none
  numInsts : Nat := 0
  deriving DecidableEq

structure Func where
  blocks : List Block := []
  numBlocks : Nat := 0
  blockArray : Option (List (Option Nat)) := none
  linearInstArray : Option (List Nat) := none
  blockInstOffsets : Option (List Nat) := none
  numLinearInsts : Nat := 0
  nextVreg : Nat
  /-- The address `lr_inst_create` hands out next. -/
  nextAddr : Nat
  deriving DecidableEq

def lrVregNew (f : Func) : Func := { f with nextVreg := f.nextVreg + 1 }

def lrBlockCreate (f : Func) : Func :=
  { f with
    blocks := f.blocks ++ [{ id := f.numBlocks }]
    numBlocks := f.numBlocks + 1
    blockArray := none
    linearInstArray := none
    blockInstOffsets := none
    numLinearInsts := 0 }

/-- The instruction has been created for this call. -/
def lrBlockAppend (f : Func) (block : Nat) (inst : LrInst) : Func :=
  { f with
    blocks := f.blocks.modify block fun b =>
      { b with
        insts := b.insts ++ [{ addr := f.nextAddr, inst := inst }]
        instArray := none
        numInsts := 0 }
    linearInstArray := none
    blockInstOffsets := none
    numLinearInsts := 0
    nextAddr := f.nextAddr + 1 }

/-- The place of `block_array[bi]`. -/
def Func.blockAt (f : Func) (bi : Nat) : Option Nat := (f.blockArray.getD []).getD bi none

/-- `repl`: an entry is present if it is `known`. -/
abbrev Replacements := List (Option LrOperand)

/-- The loop of `operand_resolve`, and whether it changed the operand. -/
def operandResolve (repl : Replacements) : Nat → LrOperand → LrOperand × Bool
  | 0, op => (op, false)
  | guard + 1, op =>
    match op.value with
    | .vreg vreg =>
      match repl.getD vreg none with
      | some next =>
        if next.value = .vreg vreg then (op, false) else ((operandResolve repl guard next).1, true)
      | none => (op, false)
    | _ => (op, false)

def resolveOperands (repl : Replacements) (inst : LrInst) : LrInst × Bool :=
  let resolved := inst.operands.map (operandResolve repl (repl.length + 1))
  ({ inst with operands := resolved.map Prod.fst }, resolved.any Prod.snd)

def isVoid : LrType → Bool
  | .scalar _ .void => true
  | _ => false

def instDefinesDest (inst : LrInst) : Bool :=
  match inst.op with
  | .ret | .retVoid | .br | .condbr | .unreachable | .store => false
  | _ => inst.type.any fun type => !isVoid type

def instDeadDefEliminable (inst : LrInst) : Bool :=
  instDefinesDest inst && inst.op != .alloca && inst.op != .call

/-- A conditional branch on an immediate becomes a branch. -/
def foldCondbr (inst : LrInst) : LrInst × Bool :=
  match inst.op, inst.operands with
  | .condbr, ⟨.immI64 cond, _, _⟩ :: a :: b :: _ =>
    ({ inst with op := .br, operands := [if cond ≠ 0 then a else b] }, true)
  | _, _ => (inst, false)

/-- `lr_load_cache_entry_t` -/
structure LoadCacheEntry where
  ptr : LrOperand
  loadType : Option LrType
  valueVreg : Nat
  deriving DecidableEq

structure PassState where
  repl : Replacements
  loadCache : List LoadCacheEntry := []
  iterChanged : Bool := false
  deriving DecidableEq

/-- A load of a place that has been loaded already, else the load is remembered. -/
def loadReplacement (st : PassState) (inst : LrInst) : PassState × Option LrOperand :=
  match inst.operands with
  | ptr :: _ =>
    if inst.op = .load ∧ instDefinesDest inst = true then
      match st.loadCache.find? fun e => e.loadType == inst.type && operandEqual e.ptr ptr with
      | some e => (st, some (lrOpVreg e.valueVreg inst.type))
      | none =>
        if st.loadCache.length < st.repl.length then
          ({ st with loadCache := st.loadCache ++ [⟨ptr, inst.type, inst.dest⟩] }, none)
        else (st, none)
    else (st, none)
  | [] => (st, none)

/-- A replacement takes the type of the instruction if it has none. -/
def typedReplacement (inst : LrInst) (replacement : LrOperand) : LrOperand :=
  match replacement.value with
  | .block _ | .global _ => replacement
  | _ => if replacement.type.isNone then { replacement with type := inst.type } else replacement

/-- One round of the first loop over the instructions: the instruction that stays, if it does. -/
def simplifyInst (st : PassState) (inst : LrInst) : PassState × Option LrInst :=
  let (inst, resolved) := resolveOperands st.repl inst
  let (inst, folded) := foldCondbr inst
  let st := { st with iterChanged := st.iterChanged || resolved || folded }
  let (st, replacement) :=
    match tryInstReplacement inst with
    | some replacement => (st, some replacement)
    | none => loadReplacement st inst
  match replacement with
  | none =>
    (if inst.op = .store ∨ inst.op = .call then { st with loadCache := [] } else st, some inst)
  | some replacement =>
    if instDefinesDest inst = true ∧ inst.dest < st.repl.length then
      let repl :=
        if replacement.value = .vreg inst.dest then st.repl
        else st.repl.set inst.dest (some (typedReplacement inst replacement))
      ({ st with repl := repl, iterChanged := true }, none)
    else (st, some inst)

def simplifyBlock (st : PassState) (insts : List InstNode) : PassState × List InstNode :=
  insts.foldl (fun (st, kept) node =>
      match simplifyInst st node.inst with
      | (st, some inst) => (st, kept ++ [{ node with inst := inst }])
      | (st, none) => (st, kept))
    ({ st with loadCache := [] }, [])

/-- One step over the block `block_array[bi]`; a null pointer is passed over. -/
def forBlock {S : Type} (step : S → List InstNode → S × List InstNode) (st : S × Func) (bi : Nat) :
    S × Func :=
  let (s, f) := st
  match f.blockAt bi with
  | none => (s, f)
  | some place =>
    match f.blocks[place]? with
    | none => (s, f)
    | some b =>
      let (s, insts) := step s b.insts
      (s, { f with blocks := f.blocks.set place { b with insts := insts } })

/-- `for (bi = 0; bi < f->num_blocks; bi++)` -/
def forBlocks {S : Type} (step : S → List InstNode → S × List InstNode) (f : Func) (s : S) :
    S × Func :=
  (range f.numBlocks).foldl (forBlock step) (s, f)

/-- The first loop, of at most six rounds. -/
def simplifyLoop : Nat → PassState → Func → PassState × Func
  | 0, st, f => (st, f)
  | iters + 1, st, f =>
    let (st, f) := forBlocks simplifyBlock f { st with iterChanged := false }
    if st.iterChanged then simplifyLoop iters st f else (st, f)

def resolveBlock (repl : Replacements) (insts : List InstNode) : Replacements × List InstNode :=
  (repl, insts.map fun node => { node with inst := (resolveOperands repl node.inst).1 })

/-- `use_counts` -/
def countUses (counts : List Nat) (insts : List InstNode) : List Nat × List InstNode :=
  let count (counts : List Nat) (op : LrOperand) : List Nat :=
    match op.value with
    | .vreg vreg => counts.modify vreg (· + 1)
    | _ => counts
  (insts.foldl (fun counts node => node.inst.operands.foldl count counts) counts, insts)

def removeDead (useCounts : List Nat) (removedAny : Bool) (insts : List InstNode) :
    Bool × List InstNode :=
  let dead (node : InstNode) : Bool :=
    instDeadDefEliminable node.inst && useCounts[node.inst.dest]? == some 0
  (removedAny || insts.any dead, insts.filter fun node => !dead node)

/-- The last loop, of at most eight rounds. -/
def deadLoop (nrepl : Nat) : Nat → Func → Func
  | 0, f => f
  | iters + 1, f =>
    let useCounts := (forBlocks countUses f (replicate nrepl 0)).1
    let (removedAny, f) := forBlocks (removeDead useCounts) f false
    if removedAny then deadLoop nrepl iters f else f

def runFuncPeepholePasses (f : Func) : Func :=
  let nrepl := if f.nextVreg > 0 then f.nextVreg else 1
  let (st, f) := simplifyLoop 6 { repl := replicate nrepl none } f
  let (_, f) := forBlocks resolveBlock f st.repl
  deadLoop nrepl 8 f

/-- The allocations of one call; the tables of the passes are one. -/
inductive AllocSite where
  | blockArray
  | passes
  | instArray (bi : Nat)
  | blockInstOffsets
  | linearInstArray
  deriving DecidableEq

/-- The blocks with their places; a block with an id outside the array ends the loop. -/
def fillBlockLoop (numBlocks : Nat) :
    List (Block × Nat) → List (Option Nat) → Bool × List (Option Nat)
  | [], blockArray => (true, blockArray)
  | (b, place) :: rest, blockArray =>
    if b.id ≥ numBlocks then (false, blockArray)
    else fillBlockLoop numBlocks rest (blockArray.set b.id (some place))

def fillBlockArray (alloc : AllocSite → Bool) (f : Func) : Bool × Func :=
  if f.blockArray.isSome then (true, f)
  else if !alloc .blockArray then (false, f)
  else
    let (ok, blockArray) :=
      fillBlockLoop f.numBlocks f.blocks.zipIdx (replicate f.numBlocks none)
    (ok, { f with blockArray := some blockArray })

def fillInstArrays (alloc : AllocSite → Bool) : List Nat → Func → Bool × Func
  | [], f => (true, f)
  | bi :: rest, f =>
    match f.blockAt bi with
    | none => fillInstArrays alloc rest f
    | some place =>
      match f.blocks[place]? with
      | none => fillInstArrays alloc rest f
      | some b =>
        let n := b.insts.length
        let cleared := { b with numInsts := n, instArray := none }
        let set (b : Block) : Func := { f with blocks := f.blocks.set place b }
        if n = 0 then fillInstArrays alloc rest (set cleared)
        else if !alloc (.instArray bi) then (false, set cleared)
        else
          fillInstArrays alloc rest (set { cleared with
            instArray := some (b.insts.map InstNode.addr) })

/-- The entries of `b->inst_array` for `block_array[bi]`, nothing for a null pointer. -/
def blockEntries (f : Func) (bi : Nat) : List Nat :=
  match f.blockAt bi with
  | none => []
  | some place =>
    match f.blocks[place]? with
    | none => []
    | some b => (b.instArray.getD []).take b.numInsts

def blockCount (f : Func) (bi : Nat) : Nat :=
  match f.blockAt bi with
  | none => 0
  | some place =>
    match f.blocks[place]? with
    | none => 0
    | some b => b.numInsts

/-- The entry of `block_inst_offsets` for a block, and its part of `linear_inst_array`; `at` is
the length of the latter so far. -/
def fillBlockLinear (f : Func) (filled : List Nat × List Nat) (bi : Nat) : List Nat × List Nat :=
  (filled.1 ++ [filled.2.length], filled.2 ++ blockEntries f bi)

def buildLinear (alloc : AllocSite → Bool) (f : Func) : Int × Func :=
  if f.linearInstArray.isSome then (0, f)
  else
    let total := ((range f.numBlocks).map (blockCount f)).sum
    let f := { f with numLinearInsts := total }
    if total > 0 ∧ alloc .linearInstArray = false then (-1, f)
    else
      let (offsets, linear) := (range f.numBlocks).foldl (fillBlockLinear f) ([], [])
      (0, { f with
        linearInstArray := if total > 0 then some linear else none
        blockInstOffsets := some (offsets ++ [linear.length]) })

def lrFuncIsFinalized (f : Func) : Bool :=
  if f.numBlocks = 0 then true
  else
    match f.blockArray, f.blockInstOffsets with
    | some _, some offsets =>
      let blocks := (range f.numBlocks).map fun bi => (f.blockAt bi).bind (f.blocks[·]?)
      let missing (b : Option Block) : Bool := b.all fun b => !b.insts.isEmpty && b.instArray.isNone
      if blocks.any missing then false
      else
        let hasInsts := blocks.any fun b => b.any fun b => !b.insts.isEmpty
        if hasInsts && f.linearInstArray.isNone then false
        else if !hasInsts && f.numLinearInsts != 0 then false
        else offsets.getD f.numBlocks 0 == f.numLinearInsts
    | _, _ => false

def lrFuncFinalize (alloc : AllocSite → Bool) (f : Func) : Int × Func :=
  if lrFuncIsFinalized f then (0, f)
  else if f.numBlocks = 0 then (0, f)
  else
    match fillBlockArray alloc f with
    | (false, f) => (-1, f)
    | (true, f) =>
      if !alloc .passes then (-1, f)
      else
        match fillInstArrays alloc (range f.numBlocks) (runFuncPeepholePasses f) with
        | (false, f) => (-1, f)
        | (true, f) =>
          if f.blockInstOffsets.isNone && !alloc .blockInstOffsets then (-1, f)
          else
            let zeros := replicate (f.numBlocks + 1) 0
            buildLinear alloc { f with blockInstOffsets := some (f.blockInstOffsets.getD zeros) }

end Liric.Source.Ir.Finalize
