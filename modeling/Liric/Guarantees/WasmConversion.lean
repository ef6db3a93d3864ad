import Liric.Lib.StateTriple
import Liric.Source.Ir.Collisions
import Liric.Source.Wasm.ToIr

/-!
# What the conversion of WASM bodies does with calls

No instruction of a body interns a symbol. The calls of the module are those that have been
made of the calls of bodies: each calls the global with the number of the function, with as
many arguments and with the result of the type that was found for this number.
-/
namespace Liric.Guarantees.WasmConversion
open Source.Ir Source.Wasm Lib List

variable {i block k : Nat} {f : LrFunc} {inst : LrInst} {c c' : WasmCtx} {op : Opcode}

theorem insts_updateFunc {m : LrModule} {change : LrFunc → LrFunc}
    (h : ∀ f, (change f).blocks.flatMap LrBlock.insts = f.blocks.flatMap LrBlock.insts) :
    (updateFunc m i change).insts = m.insts := by
  unfold updateFunc LrModule.insts
  dsimp only
  induction m.funcs generalizing i with
  | nil => cases i <;> rfl
  | cons f fs ih =>
    cases i with
    | zero => rw [modify_zero_cons, flatMap_cons, flatMap_cons, h]
    | succ i => rw [modify_succ_cons, flatMap_cons, flatMap_cons, ih]

theorem insts_lrBlockCreate (m : LrModule) (i : Nat) (name : CStr) :
    (lrBlockCreate m i name).insts = m.insts := by
  refine insts_updateFunc fun f => ?_
  simp [blockCreate]

/-- What changing one element adds to the concatenation. -/
theorem mem_flatMap_modify {A B : Type} {xs : List A} {a : A} {change : A → A} {f : A → List B}
    {x : B} {added : Prop} (ha : xs[i]? = some a) (h : x ∈ f (change a) ↔ x ∈ f a ∨ added) :
    x ∈ (xs.modify i change).flatMap f ↔ x ∈ xs.flatMap f ∨ added := by
  induction xs generalizing i with
  | nil => cases ha
  | cons b xs ih =>
    cases i with
    | zero =>
      obtain rfl : b = a := Option.some.inj ha
      rw [modify_zero_cons, flatMap_cons, flatMap_cons, mem_append, mem_append, h]
      tauto
    | succ i =>
      rw [modify_succ_cons, flatMap_cons, flatMap_cons, mem_append, mem_append, ih ha]
      tauto

/-- The instructions after one has been appended to a block. -/
theorem mem_insts_lrBlockAppend {m : LrModule} {x : LrInst} (hf : m.funcs[i]? = some f)
    (hblock : block < f.blocks.length) :
    x ∈ (lrBlockAppend m i block inst).insts ↔ x ∈ m.insts ∨ x = inst := by
  have hinsts : (lrBlockAppend m i block inst).insts = (updateFunc m i fun f => { f with
      blocks := f.blocks.modify block fun b => { b with insts := b.insts ++ [inst] } }).insts := by
    unfold lrBlockAppend
    dsimp only
    split <;> rfl
  rw [hinsts]
  refine mem_flatMap_modify hf (mem_flatMap_modify (List.getElem?_eq_getElem hblock) ?_)
  rw [mem_append, mem_singleton]

/-- The instruction is made of a call of the function with the number `k`. -/
def MadeOf (wmod : WasmModule) (b : BuiltinTypes) (k : Nat) (inst : LrInst) : Prop :=
  ∃ typeIdx ft dest args, calleeTypeIdx wmod k = some (some typeIdx) ∧
    wmod.types[typeIdx]? = some ft ∧ args.length = ft.params.length ∧
    inst = lrInstCreate .call (some (ft.retType b)) dest (lrOpGlobal k (some b.typePtr) :: args)

/-- The calls of a module are those that have been converted. -/
structure Converted (wmod : WasmModule) (b : BuiltinTypes) (symbols : SymbolTable) (m : LrModule)
    (calls : List (Nat × LrInst)) : Prop where
  builtin : m.builtin = b
  symbols : m.symbols = symbols
  made : ∀ p ∈ calls, MadeOf wmod b p.1 p.2 ∧ p.2 ∈ m.insts
  all : ∀ inst ∈ m.insts, inst.op = .call → ∃ k, (k, inst) ∈ calls

section Steps
variable {wmod : WasmModule} {b : BuiltinTypes} {symbols : SymbolTable} {m m' : LrModule}
  {calls : List (Nat × LrInst)}

/-- A change that adds no instruction. -/
theorem Converted.of_insts (h : Converted wmod b symbols m calls) (hb : m'.builtin = m.builtin)
    (hsymbols : m'.symbols = m.symbols) (hinsts : m'.insts = m.insts) :
    Converted wmod b symbols m' calls := by
  refine ⟨hb.trans h.builtin, hsymbols.trans h.symbols, ?_, ?_⟩
  · rw [hinsts]
    exact h.made
  · rw [hinsts]
    exact h.all

theorem builtin_lrBlockAppend (m : LrModule) (i block : Nat) (inst : LrInst) :
    (lrBlockAppend m i block inst).builtin = m.builtin ∧
      (lrBlockAppend m i block inst).symbols = m.symbols := by
  unfold lrBlockAppend
  dsimp only
  split <;> exact ⟨rfl, rfl⟩

theorem Converted.append (h : Converted wmod b symbols m calls) (hf : m.funcs[i]? = some f)
    (hblock : block < f.blocks.length) (hop : inst.op ≠ .call) :
    Converted wmod b symbols (lrBlockAppend m i block inst) calls := by
  have hmem : ∀ x, x ∈ (lrBlockAppend m i block inst).insts ↔ x ∈ m.insts ∨ x = inst :=
    fun _ => mem_insts_lrBlockAppend hf hblock
  obtain ⟨hbuiltin, hsymbols⟩ := builtin_lrBlockAppend m i block inst
  refine ⟨hbuiltin.trans h.builtin, hsymbols.trans h.symbols, ?_, ?_⟩
  · intro p hp
    obtain ⟨hmade, hinsts⟩ := h.made p hp
    exact ⟨hmade, (hmem p.2).2 (.inl hinsts)⟩
  · intro x hx hxop
    obtain hx | rfl := (hmem x).1 hx
    · exact h.all x hx hxop
    · exact absurd hxop hop

theorem Converted.appendCall (h : Converted wmod b symbols m calls) (hf : m.funcs[i]? = some f)
    (hblock : block < f.blocks.length) (hmade : MadeOf wmod b k inst) :
    Converted wmod b symbols (lrBlockAppend m i block inst) (calls ++ [(k, inst)]) := by
  have hmem : ∀ x, x ∈ (lrBlockAppend m i block inst).insts ↔ x ∈ m.insts ∨ x = inst :=
    fun _ => mem_insts_lrBlockAppend hf hblock
  obtain ⟨hbuiltin, hsymbols⟩ := builtin_lrBlockAppend m i block inst
  refine ⟨hbuiltin.trans h.builtin, hsymbols.trans h.symbols, ?_, ?_⟩
  · intro p hp
    obtain hp | hp := mem_append.1 hp
    · obtain ⟨hmade, hinsts⟩ := h.made p hp
      exact ⟨hmade, (hmem p.2).2 (.inl hinsts)⟩
    · obtain rfl := mem_singleton.1 hp
      exact ⟨hmade, (hmem inst).2 (.inr rfl)⟩
  · intro x hx hxop
    obtain hx | rfl := (hmem x).1 hx
    · obtain ⟨k', hk'⟩ := h.all x hx hxop
      exact ⟨k', mem_append_left _ hk'⟩
    · exact ⟨k, mem_append_right _ (mem_singleton.2 rfl)⟩

end Steps

section Pieces
variable {wmod : WasmModule} {b : BuiltinTypes} {symbols : SymbolTable}

/-- The invariant of a conversion. -/
def Inv (wmod : WasmModule) (b : BuiltinTypes) (symbols : SymbolTable) (c : WasmCtx) : Prop :=
  Converted wmod b symbols c.mod c.calls

/-- A change of the context that leaves the module and the calls. -/
instance modify_keeps {func : WasmCtx → Nat} {block : WasmCtx → Option Nat}
    {vstack : WasmCtx → List (Nat × Option LrType)} {ctrl : WasmCtx → List CtrlEntry}
    {slots : WasmCtx → List Nat} {numLocals pos : WasmCtx → Nat} {err : WasmCtx → Option String}
    {failed : WasmCtx → Bool} :
    Stays (Inv wmod b symbols) (modify fun c => ⟨c.mod, func c, block c, vstack c, ctrl c, slots c,
      numLocals c, pos c, err c, failed c, c.calls⟩ : Convert Unit) :=
  stays_modify fun _ hc => hc

instance undefined_keeps {A : Type} : Stays (Inv wmod b symbols) (undefined : Convert A) := stays_fail

instance ctxErr_keeps (msg : String) : Stays (Inv wmod b symbols) (ctxErr msg) := by
  unfold ctxErr
  infer_instance

instance vpush_keeps (vreg : Nat) (type : Option LrType) :
    Stays (Inv wmod b symbols) (vpush vreg type) := by
  unfold vpush
  infer_instance

instance vpop_keeps : Stays (Inv wmod b symbols) vpop := by
  refine .bind .get fun c => ?_
  cases c.vstack <;> infer_instance

instance builtin_keeps : Stays (Inv wmod b symbols) builtin := by
  unfold builtin
  infer_instance

instance curFunc_keeps : Stays (Inv wmod b symbols) curFunc := by
  refine .bind .get fun c₁ => .bind .get fun c₂ => ?_
  cases c₁.mod.funcs[c₂.func]? <;> infer_instance

instance vregNew_keeps : Stays (Inv wmod b symbols) vregNew :=
  .bind curFunc_keeps fun _ => .bind (stays_modify fun _ hc =>
    hc.of_insts rfl rfl (insts_updateFunc fun _ => rfl)) fun _ => .pure _

instance blockNew_keeps (name : CStr) : Stays (Inv wmod b symbols) (blockNew name) :=
  .bind curFunc_keeps fun _ => .bind (stays_modify fun c hc =>
    hc.of_insts rfl rfl (insts_lrBlockCreate c.mod c.func name)) fun _ => .pure _

instance setCurBlock_keeps (block : Option Nat) :
    Stays (Inv wmod b symbols) (setCurBlock block) := by
  unfold setCurBlock
  infer_instance

instance blockOp_keeps (block : Nat) : Stays (Inv wmod b symbols) (blockOp block) := by
  refine .bind curFunc_keeps fun f => ?_
  cases f.blocks[block]? <;> infer_instance

theorem curFunc_run (hrun : curFunc c = some (f, c')) :
    c.mod.funcs[c.func]? = some f ∧ c' = c := by
  have heq : curFunc c = (c.mod.funcs[c.func]?).map fun f => (f, c) := by
    have hget : (get : Convert WasmCtx) c = some (c, c) := rfl
    rw [curFunc, run_bind hget, run_bind hget]
    cases c.mod.funcs[c.func]? <;> rfl
  rw [heq] at hrun
  obtain ⟨f', hf, hrun⟩ := Option.map_eq_some_iff.1 hrun
  cases hrun
  exact ⟨hf, rfl⟩

theorem currentBlock_run (hrun : currentBlock c = some (block, c')) :
    ∃ f, c.mod.funcs[c.func]? = some f ∧ block < f.blocks.length ∧ c' = c := by
  obtain ⟨mod, func, curBlock⟩ := c
  cases curBlock with
  | none => cases hrun
  | some blk =>
    obtain ⟨⟨f, c₁⟩, hfunc, hrun⟩ := Option.bind_eq_some_iff.1 hrun
    obtain ⟨hf, rfl⟩ := curFunc_run hfunc
    change (if blk < f.blocks.length then Pure.pure blk else undefined : Convert Nat) _ = _ at hrun
    split at hrun
    · rename_i hlt
      cases hrun
      exact ⟨f, hf, hlt, rfl⟩
    · cases hrun

/-- What is appended goes to a block of the function. -/
theorem appendInst_run {u : Unit} (hrun : appendInst inst c = some (u, c')) :
    c.failed = true ∧ c' = c ∨ c.failed = false ∧ ∃ f block, c.mod.funcs[c.func]? = some f ∧
      block < f.blocks.length ∧
      c' = { c with mod := lrBlockAppend c.mod c.func block inst } := by
  have hbind : appendInst inst c = if c.failed then some ((), c) else
      (currentBlock c).bind fun r => some ((), { r.2 with
        mod := lrBlockAppend r.2.mod r.2.func r.1 inst }) := by
    change (if c.failed then Pure.pure () else _ : Convert Unit) c = _
    split <;> rfl
  rw [hbind] at hrun
  split at hrun
  · rename_i hfailed
    cases hrun
    exact .inl ⟨hfailed, rfl⟩
  · rename_i hfailed
    obtain ⟨⟨block, c₁⟩, hblock, hrun⟩ := Option.bind_eq_some_iff.1 hrun
    cases hrun
    obtain ⟨f, hf, hlt, rfl⟩ := currentBlock_run hblock
    exact .inr ⟨by simpa using hfailed, f, block, hf, hlt, rfl⟩

theorem appendInst_keeps (hop : inst.op ≠ .call) :
    Stays (Inv wmod b symbols) (appendInst inst) := by
  constructor
  intro c u c' hc hrun
  obtain ⟨-, rfl⟩ | ⟨-, f, block, hf, hblock, rfl⟩ := appendInst_run hrun
  · exact hc
  · exact hc.append hf hblock hop

class NotCall (op : Opcode) : Prop where
  ne : op ≠ .call

instance : NotCall .alloca := ⟨by decide⟩
instance : NotCall .store := ⟨by decide⟩
instance : NotCall .load := ⟨by decide⟩
instance : NotCall .br := ⟨by decide⟩
instance : NotCall .condbr := ⟨by decide⟩
instance : NotCall .ret := ⟨by decide⟩
instance : NotCall .retVoid := ⟨by decide⟩
instance : NotCall .select := ⟨by decide⟩
instance : NotCall .unreachable := ⟨by decide⟩
instance : NotCall .add := ⟨by decide⟩
instance : NotCall .inttoptr := ⟨by decide⟩
instance : NotCall .zext := ⟨by decide⟩
instance : NotCall .sext := ⟨by decide⟩
instance : NotCall .trunc := ⟨by decide⟩

instance emitInst_keeps [h : NotCall op] (type : LrType) (dest : Nat) (ops : List LrOperand) :
    Stays (Inv wmod b symbols) (emitInst op type dest ops) :=
  appendInst_keeps h.ne

instance emitTyped_keeps [h : NotCall op] (type : Option LrType) (dest : Nat) (ops : List LrOperand) :
    Stays (Inv wmod b symbols) (emitTyped op type dest ops) :=
  appendInst_keeps h.ne

instance emitBinop_keeps [NotCall op] : Stays (Inv wmod b symbols) (emitBinop op) := by
  simp only [emitBinop]
  infer_instance

instance emitIcmp_keeps (type : LrType) (dest : Nat) (ops : List LrOperand) (pred : IcmpPred) :
    Stays (Inv wmod b symbols) (emitIcmp type dest ops pred) :=
  appendInst_keeps (by exact Opcode.noConfusion)

instance emitCmp_keeps (pred : IcmpPred) : Stays (Inv wmod b symbols) (emitCmp pred) := by
  simp only [emitCmp]
  infer_instance

instance ctrlPush_keeps (kind : CtrlKind) (cont : Nat) (loopHdr elseBlk : Option Nat)
    (resultType : Option LrType) (resultSlot : Nat) :
    Stays (Inv wmod b symbols) (ctrlPush kind cont loopHdr elseBlk resultType resultSlot) := by
  unfold ctrlPush
  infer_instance

instance allocaSlot_keeps (type : LrType) : Stays (Inv wmod b symbols) (allocaSlot type) := by
  unfold allocaSlot
  infer_instance

instance storeTo_keeps (val : LrOperand) (slot : Nat) :
    Stays (Inv wmod b symbols) (storeTo val slot) := by
  unfold storeTo
  infer_instance

instance loadFrom_keeps (type : LrType) (slot : Nat) :
    Stays (Inv wmod b symbols) (loadFrom type slot) := by
  unfold loadFrom
  infer_instance

instance branchTo_keeps (block : Nat) : Stays (Inv wmod b symbols) (branchTo block) := by
  unfold branchTo
  infer_instance

instance resultSlotOf_keeps (bt : Option LrType) :
    Stays (Inv wmod b symbols) (resultSlotOf bt) := by
  unfold resultSlotOf
  split <;> infer_instance

instance testNonzero_keeps (cond : Nat) : Stays (Inv wmod b symbols) (testNonzero cond) := by
  unfold testNonzero
  infer_instance

instance condbr_keeps (condI1 thenBlk elseBlk : Nat) :
    Stays (Inv wmod b symbols) (condbr condI1 thenBlk elseBlk) := by
  unfold condbr
  infer_instance

instance storeResult_keeps (wanted : Bool) (ce : CtrlEntry) :
    Stays (Inv wmod b symbols) (storeResult wanted ce) := by
  simp only [storeResult]
  infer_instance

variable (data : Nat → UInt8) (code : Code)

instance bodyLeb_keeps {w : Nat} (read : (Nat → UInt8) → Nat → Leb w) :
    Stays (Inv wmod b symbols) (bodyLeb data code read) := by
  unfold bodyLeb
  infer_instance

instance : Stays (Inv wmod b symbols) (bodyU32 data code) := bodyLeb_keeps data code _
instance : Stays (Inv wmod b symbols) (bodyI32 data code) := bodyLeb_keeps data code _
instance : Stays (Inv wmod b symbols) (bodyI64 data code) := bodyLeb_keeps data code _

instance bodyByte_keeps : Stays (Inv wmod b symbols) (bodyByte data code) := by
  unfold bodyByte
  infer_instance

instance parseBlocktype_keeps : Stays (Inv wmod b symbols) (parseBlocktype data code) := by
  unfold parseBlocktype
  infer_instance

instance convertBlock_keeps : Stays (Inv wmod b symbols) (convertBlock data code) := by
  unfold convertBlock
  infer_instance

instance convertLoop_keeps : Stays (Inv wmod b symbols) (convertLoop data code) := by
  unfold convertLoop
  infer_instance

instance convertIf_keeps : Stays (Inv wmod b symbols) (convertIf data code) := by
  simp only [convertIf]
  infer_instance

instance convertElse_keeps : Stays (Inv wmod b symbols) convertElse := by
  refine .bind .get fun c => ?_
  cases c.ctrl <;> infer_instance

instance closeIf_keeps (ce : CtrlEntry) : Stays (Inv wmod b symbols) (closeIf ce) := by
  unfold closeIf
  split <;> infer_instance

instance loadResult_keeps (ce : CtrlEntry) : Stays (Inv wmod b symbols) (loadResult ce) := by
  unfold loadResult
  split <;> infer_instance

instance endBlock_keeps (ce : CtrlEntry) : Stays (Inv wmod b symbols) (endBlock ce) := by
  unfold endBlock
  infer_instance

instance convertEnd_keeps : Stays (Inv wmod b symbols) convertEnd := by
  refine .bind .get fun c => ?_
  split <;> infer_instance

instance branchTarget_keeps (ce : CtrlEntry) : Stays (Inv wmod b symbols) (branchTarget ce) := by
  unfold branchTarget
  split <;> infer_instance

instance convertBr_keeps : Stays (Inv wmod b symbols) (convertBr data code) := by
  refine .bind (bodyLeb_keeps data code _) fun depth => .bind .get fun c => ?_
  cases c.ctrl[depth.toNat]? <;> infer_instance

instance convertBrIf_keeps : Stays (Inv wmod b symbols) (convertBrIf data code) := by
  refine .bind (bodyLeb_keeps data code _) fun depth => .bind .get fun c => ?_
  cases c.ctrl[depth.toNat]? <;> infer_instance

instance emitReturn_keeps : Stays (Inv wmod b symbols) emitReturn := by
  simp only [emitReturn]
  infer_instance

instance convertReturn_keeps : Stays (Inv wmod b symbols) convertReturn := by
  unfold convertReturn
  infer_instance

instance convertSelect_keeps : Stays (Inv wmod b symbols) convertSelect := by
  simp only [convertSelect]
  infer_instance

instance localSlot_keeps (idx : Nat) : Stays (Inv wmod b symbols) (localSlot idx) := by
  refine .bind .get fun c => ?_
  cases c.localSlots[idx]? <;> infer_instance

instance convertLocalGet_keeps : Stays (Inv wmod b symbols) (convertLocalGet data code) := by
  unfold convertLocalGet
  infer_instance

instance convertLocalSet_keeps (msg : String) (tee : Bool) :
    Stays (Inv wmod b symbols) (convertLocalSet data code msg tee) := by
  simp only [convertLocalSet]
  infer_instance

instance emitConst_keeps (type : LrType) (val : BitVec 64) :
    Stays (Inv wmod b symbols) (emitConst type val) := by
  unfold emitConst
  infer_instance

instance emitEqz_keeps (type : LrType) : Stays (Inv wmod b symbols) (emitEqz type) := by
  simp only [emitEqz]
  infer_instance

instance emitCast_keeps [NotCall op] (source target : LrType) :
    Stays (Inv wmod b symbols) (emitCast op source target) := by
  simp only [emitCast]
  infer_instance

instance addOffset_keeps (addr : Nat) (offset : BitVec 32) :
    Stays (Inv wmod b symbols) (addOffset addr offset) := by
  unfold addOffset
  infer_instance

instance effectiveAddress_keeps (addr : Nat) (offset : BitVec 32) :
    Stays (Inv wmod b symbols) (effectiveAddress addr offset) := by
  unfold effectiveAddress
  infer_instance

instance convertLoad_keeps (type : LrType) :
    Stays (Inv wmod b symbols) (convertLoad data code type) := by
  simp only [convertLoad]
  infer_instance

instance convertStore_keeps : Stays (Inv wmod b symbols) (convertStore data code) := by
  simp only [convertStore]
  infer_instance

instance convertValue_keeps (op : UInt8) :
    Stays (Inv wmod b symbols) (convertValue data code op) := by
  unfold convertValue
  infer_instance

/-- The types a call is made with are those of the module. -/
theorem builtin_spec :
    Partial (Inv wmod b symbols) builtin fun b' c => b' = b ∧ Inv wmod b symbols c := by
  intro c b' c' hc hrun
  cases hrun
  exact ⟨hc.builtin, hc⟩

theorem vpopArgs_spec (n : Nat) :
    Partial (Inv wmod b symbols) (vpopArgs n)
      fun args c => args.length = n ∧ Inv wmod b symbols c := by
  induction n with
  | zero => exact Partial.pure fun _ hc => ⟨rfl, hc⟩
  | succ n ih =>
    refine Partial.bind vpop_keeps.run fun v => Partial.bind ih fun args => Partial.pure ?_
    intro c hc
    exact ⟨by rw [length_append, hc.1, length_singleton], hc.2⟩

theorem emitCall_keeps (hmade : MadeOf wmod b k inst) :
    Stays (Inv wmod b symbols) (emitCall k inst) := by
  constructor
  intro c u c' hc hrun
  obtain ⟨⟨⟩, c₁, happend, hrest⟩ := run_bind_inv hrun
  have hrest' : (if c₁.failed then Pure.pure () else
      modify fun c => { c with calls := c.calls ++ [(k, inst)] } : Convert Unit) c₁ =
      some (u, c') := hrest
  obtain ⟨hfailed, rfl⟩ | ⟨hok, f, block, hf, hblock, rfl⟩ := appendInst_run happend
  · rw [if_pos hfailed] at hrest'
    cases hrest'
    exact hc
  · rw [if_neg (by simp [hok])] at hrest'
    cases hrest'
    exact hc.appendCall hf hblock hmade

instance callDest_keeps (ft : FuncType) : Stays (Inv wmod b symbols) (callDest ft) := by
  unfold callDest
  infer_instance

theorem convertCallOf_keeps {typeIdx : Nat} {ft : FuncType}
    (hidx : calleeTypeIdx wmod k = some (some typeIdx)) (htype : wmod.types[typeIdx]? = some ft) :
    Stays (Inv wmod b symbols) (convertCallOf k ft) := by
  refine ⟨Partial.bind builtin_spec fun b' => Partial.assume fun hb => ?_⟩
  subst hb
  refine Partial.bind (vpopArgs_spec _) fun args => Partial.assume fun hargs => ?_
  refine (Stays.bind (callDest_keeps ft) fun dest => .bind ?_ fun _ => inferInstance).run
  exact emitCall_keeps ⟨typeIdx, ft, dest, args, hidx, htype, hargs, rfl⟩

instance convertCall_keeps : Stays (Inv wmod b symbols) (convertCall data wmod code) := by
  refine .bind (bodyLeb_keeps data code _) fun k => ?_
  dsimp only
  split
  · exact stays_fail
  · exact ctxErr_keeps _
  · rename_i typeIdx hidx
    split
    · exact ctxErr_keeps _
    · rename_i ft htype
      exact convertCallOf_keeps hidx htype

theorem ite_ne_call {p : Prop} [Decidable p] {o : Opcode} {rest : Option Opcode}
    (ho : o ≠ .call) (hrest : rest ≠ some .call) : (if p then some o else rest) ≠ some .call := by
  split
  · exact fun heq => ho (Option.some.inj heq)
  · exact hrest

theorem binopOf_ne_call {op : UInt8} {o : Opcode} (h : binopOf op = some o) : o ≠ .call := by
  have hne : binopOf op ≠ some .call := by
    unfold binopOf
    iterate 13 refine ite_ne_call (by decide) ?_
    simp
  intro hcall
  exact hne (hcall ▸ h)

instance convertOp_keeps (op : UInt8) :
    Stays (Inv wmod b symbols) (convertOp data wmod code op) := by
  refine .bind builtin_keeps fun _ => ?_
  split
  · rename_i o ho
    have : NotCall o := ⟨binopOf_ne_call ho⟩
    exact emitBinop_keeps
  · exact emitCmp_keeps _
  · infer_instance

instance bodyLoop_keeps (fuel : Nat) :
    Stays (Inv wmod b symbols) (bodyLoop data wmod code fuel) := by
  induction fuel with
  | zero => exact stays_fail
  | succ fuel ih =>
    unfold bodyLoop
    infer_instance

instance addLocalSlot_keeps (slot : Nat) : Stays (Inv wmod b symbols) (addLocalSlot slot) := by
  unfold addLocalSlot
  infer_instance

instance paramSlots_keeps (types : List LrType) (vregs : List Nat) :
    Stays (Inv wmod b symbols) (paramSlots types vregs) := by
  induction types generalizing vregs with
  | nil => exact .pure _
  | cons type types ih =>
    cases vregs <;> unfold paramSlots <;> infer_instance

instance groupSlots_keeps (type : LrType) (count : Nat) :
    Stays (Inv wmod b symbols) (groupSlots type count) := by
  induction count with
  | zero => exact .pure _
  | succ count ih =>
    unfold groupSlots
    infer_instance

instance declaredSlots_keeps (groups : List LocalGroup) :
    Stays (Inv wmod b symbols) (declaredSlots groups) := by
  induction groups with
  | nil => exact .pure _
  | cons g gs ih =>
    unfold declaredSlots
    infer_instance

instance finalReturn_keeps : Stays (Inv wmod b symbols) finalReturn := by
  unfold finalReturn
  infer_instance

instance convertFuncBody_keeps : Stays (Inv wmod b symbols) (convertFuncBody data wmod code) := by
  unfold convertFuncBody
  infer_instance

theorem convertAt_keeps {func : Nat} {built built' : Built}
    (h : Converted wmod b symbols built.mod built.calls)
    (hrun : convertAt data wmod code func f built = some (.ok built')) :
    Converted wmod b symbols built'.mod built'.calls := by
  obtain ⟨⟨u, c⟩, hbody, hrest⟩ := Option.bind_eq_some_iff.1 hrun
  have hkept : Inv wmod b symbols c := by
    refine (convertFuncBody_keeps data code).run _ _ _ ?_ hbody
    exact h
  replace hrest : some (if c.failed then .error (c.err.getD "")
      else .ok { mod := c.mod, calls := c.calls }) = some (Except.ok built') := hrest
  split at hrest
  · cases hrest
  · cases hrest
    exact hkept

theorem convertBodies_keeps {codes : List Code} {func : Nat} {built built' : Built}
    (h : Converted wmod b symbols built.mod built.calls)
    (hrun : convertBodies data wmod codes func built = some (.ok built')) :
    Converted wmod b symbols built'.mod built'.calls := by
  induction codes generalizing func built with
  | nil =>
    cases hrun
    exact h
  | cons code codes ih =>
    rw [convertBodies] at hrun
    split at hrun
    · cases hrun
      exact h
    · obtain ⟨result, hat, hrest⟩ := Option.bind_eq_some_iff.1 hrun
      cases result with
      | error msg => cases hrest
      | ok built₁ => exact ih (convertAt_keeps data code h hat) hrest

end Pieces

end Liric.Guarantees.WasmConversion
