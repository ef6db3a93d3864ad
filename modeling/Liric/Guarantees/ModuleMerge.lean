import Liric.Source.Ir.Merge
import Liric.Lib.StateTriple
import Liric.Guarantees.SymbolInterning

/-!
# Merging modules is linking

`FuncCopy` says what a merged definition has to share with its source: everything
but the addresses of types and the numbers of symbols. The copying functions
establish it; the loop over the functions of the source keeps `Merging`.
-/
namespace Liric.Guarantees.ModuleMerge
open Source.Ir Lib SymbolInterning List

variable {α : Type} {i : Nat} {df : LrFunc} {l : List α} {m : LrModule} {name : CStr}

mutual
/-- A type without the addresses of its nodes. -/
def eraseAddr : LrType → LrType
  | .scalar _ kind => .scalar 0 kind
  | .ptr _ none => .ptr 0 none
  | .ptr _ (some elem) => .ptr 0 (some (eraseAddr elem))
  | .array _ elem count => .array 0 (eraseAddr elem) count
  | .vector _ elem count => .vector 0 (eraseAddr elem) count
  | .struct _ fields packed name => .struct 0 (eraseAddrs fields) packed name
  | .func _ ret params vararg => .func 0 (eraseAddr ret) (eraseAddrs params) vararg

def eraseAddrs : List LrType → List LrType
  | [] => []
  | t :: ts => eraseAddr t :: eraseAddrs ts
end

/-- The same type at another place. -/
def TypeCopy (t t' : LrType) : Prop := eraseAddr t' = eraseAddr t

def TypesCopy (ts ts' : List LrType) : Prop := eraseAddrs ts' = eraseAddrs ts

theorem TypesCopy.length {ts ts' : List LrType} (h : TypesCopy ts ts') :
    ts'.length = ts.length := by
  unfold TypesCopy at h
  induction ts generalizing ts' with
  | nil =>
    cases ts' with
    | nil => rfl
    | cons t' ts' => simp [eraseAddrs] at h
  | cons t ts ih =>
    cases ts' with
    | nil => simp [eraseAddrs] at h
    | cons t' ts' =>
      simp only [eraseAddrs, cons.injEq] at h
      rw [length_cons, length_cons, ih h.2]

def TypeOptionCopy : Option LrType → Option LrType → Prop
  | none, none => True
  | some t, some t' => TypeCopy t t'
  | _, _ => False

/-- A copying function whose result is always related to its argument. -/
abbrev Copies {α β : Type} (x : Arena β) (R : α → β → Prop) (a : α) : Prop :=
  Triple (fun _ => True) x (fun b _ => R a b)

section Types
variable {addr : Nat}

theorem builtinScalar_copy (addr a : Nat) (kind : ScalarKind) :
    TypeCopy (.scalar a kind) (builtinScalar (lrModuleCreateTypes addr) kind) := by
  cases kind <;> rfl

mutual
theorem mergeRemapType_copies (addr : Nat) :
    (t : LrType) → Copies (mergeRemapType (lrModuleCreateTypes addr) t) TypeCopy t
  | .scalar a kind => by
    rw [mergeRemapType]
    exact Triple.pure (fun _ _ => builtinScalar_copy addr a kind)
  | .ptr a none => by
    rw [mergeRemapType]
    exact Triple.pure (fun _ _ => rfl)
  | .ptr a (some elem) => by
    rw [mergeRemapType]
    refine Triple.bindFact (mergeRemapType_copies addr elem) (fun e he s _ => ?_)
    simp only [TypeCopy, allocate, eraseAddr] at he ⊢
    rw [he]
  | .array a elem count => by
    rw [mergeRemapType]
    refine Triple.bindFact (mergeRemapType_copies addr elem) (fun e he s _ => ?_)
    simp only [TypeCopy, allocate, eraseAddr] at he ⊢
    rw [he]
  | .vector a elem count => by
    rw [mergeRemapType]
    refine Triple.bindFact (mergeRemapType_copies addr elem) (fun e he s _ => ?_)
    simp only [TypeCopy, allocate, eraseAddr] at he ⊢
    rw [he]
  | .struct a fields packed name => by
    rw [mergeRemapType]
    refine Triple.bindFact (mergeRemapTypes_copies addr fields) (fun fs hfs s _ => ?_)
    simp only [TypeCopy, TypesCopy, allocate, eraseAddr] at hfs ⊢
    rw [hfs]
  | .func a ret params vararg => by
    rw [mergeRemapType]
    refine Triple.bindFact (mergeRemapType_copies addr ret) (fun r hr => ?_)
    refine Triple.bindFact (mergeRemapTypes_copies addr params) (fun ps hps s _ => ?_)
    simp only [TypeCopy, TypesCopy, allocate, eraseAddr] at hr hps ⊢
    rw [hr, hps]

theorem mergeRemapTypes_copies (addr : Nat) :
    (ts : List LrType) → Copies (mergeRemapTypes (lrModuleCreateTypes addr) ts) TypesCopy ts
  | [] => by
    rw [mergeRemapTypes]
    exact Triple.pure (fun _ _ => rfl)
  | t :: ts => by
    rw [mergeRemapTypes]
    refine Triple.bindFact (mergeRemapType_copies addr t) (fun t' ht => ?_)
    refine Triple.bindFact (mergeRemapTypes_copies addr ts) (fun ts' hts => ?_)
    refine Triple.pure (fun s _ => ?_)
    simp only [TypeCopy, TypesCopy, eraseAddrs] at ht hts ⊢
    rw [ht, hts]
end

theorem mergeRemapTypeOption_copies (t : Option LrType) :
    Copies (mergeRemapTypeOption (lrModuleCreateTypes addr) t) TypeOptionCopy t := by
  cases t with
  | none => exact Triple.pure (fun _ _ => trivial)
  | some t =>
    exact Triple.bind (mergeRemapType_copies addr t) (fun t' => Triple.pure (fun _ h => h))

end Types

/-- The same operand under the numbering of another symbol table: a global has the
same name, everything else the same value. -/
inductive ValueCopy (src dest : SymbolTable) : OperandValue → OperandValue → Prop where
  | plain {v : OperandValue} (h : ∀ id, v ≠ .global id) : ValueCopy src dest v v
  | global {id id' : Nat} {name : CStr} (h : lrModuleSymbolName src id = some name)
      (h' : lrModuleSymbolName dest id' = some name) :
      ValueCopy src dest (.global id) (.global id')

structure OperandCopy (src dest : SymbolTable) (o o' : LrOperand) : Prop where
  value : ValueCopy src dest o.value o'.value
  type : TypeOptionCopy o.type o'.type
  globalOffset : o'.globalOffset = o.globalOffset

structure InstCopy (src dest : SymbolTable) (i i' : LrInst) : Prop where
  operands : List.Forall₂ (OperandCopy src dest) i.operands i'.operands
  op : i'.op = i.op
  type : TypeOptionCopy i.type i'.type
  destVreg : i'.dest = i.dest
  payload : i'.payload = i.payload
  align : i'.align = i.align
  flags : i'.callExternalAbi = i.callExternalAbi ∧ i'.callVararg = i.callVararg ∧
    i'.callFixedArgs = i.callFixedArgs

structure BlockCopy (src dest : SymbolTable) (b b' : LrBlock) : Prop where
  name : b'.name = b.name
  id : b'.id = b.id
  insts : List.Forall₂ (InstCopy src dest) b.insts b'.insts

/-- Every global operand of the block is a symbol of the module. -/
def GlobalsKnown (symbols : SymbolTable) (b : LrBlock) : Prop :=
  ∀ i ∈ b.insts, ∀ o ∈ i.operands, ∀ id, o.value = .global id → id < symbols.numSymbols

/-- `symbol_remap` leads to the same names. -/
def RemapsNames (src dest : SymbolTable) (symbolRemap : List Nat) : Prop :=
  symbolRemap.length = src.numSymbols ∧
    ∀ id < src.numSymbols, ∃ name, lrModuleSymbolName src id = some name ∧
      lrModuleSymbolName dest (symbolRemap.getD id 0) = some name

section Instructions
variable {src dest : SymbolTable} {symbolRemap : List Nat}

theorem copyAll_copies {β : Type} {copy : α → Arena β} {R : α → β → Prop} {as : List α}
    (h : ∀ a ∈ as, Copies (copy a) R a) :
    Copies (copyAll copy as) (List.Forall₂ R) as := by
  induction as with
  | nil => exact Triple.pure (fun _ _ => List.Forall₂.nil)
  | cons a as ih =>
    refine Triple.bindFact (h a mem_cons_self) (fun b hb => ?_)
    have hrest := ih (fun a' ha' => h a' (mem_cons_of_mem a ha'))
    exact Triple.bindFact hrest (fun bs hbs =>
      Triple.pure (fun _ _ => List.Forall₂.cons hb hbs))

theorem remapValue_copy (hremap : RemapsNames src dest symbolRemap) {v : OperandValue}
    (hv : ∀ id, v = .global id → id < src.numSymbols) :
    ValueCopy src dest v (remapValue symbolRemap v) := by
  cases v with
  | global id =>
    have hid := hv id rfl
    obtain ⟨name, hname, hname'⟩ := hremap.2 id hid
    have hne : symbolRemap.isEmpty = false := by
      cases symbolRemap with
      | nil =>
        have := hremap.1
        simp only [length_nil] at this
        omega
      | cons r rs => rfl
    simp only [remapValue, hne, Bool.false_eq_true, if_false]
    exact .global hname hname'
  | vreg id => exact .plain (by simp)
  | immI64 val => exact .plain (by simp)
  | immF64 bits => exact .plain (by simp)
  | block id => exact .plain (by simp)
  | null => exact .plain (by simp)
  | undef => exact .plain (by simp)

theorem mergeRemapOperand_copies (addr : Nat) (hremap : RemapsNames src dest symbolRemap) {o : LrOperand}
    (ho : ∀ id, o.value = .global id → id < src.numSymbols) :
    Copies (mergeRemapOperand (lrModuleCreateTypes addr) symbolRemap o)
      (OperandCopy src dest) o :=
  Triple.bind (mergeRemapTypeOption_copies o.type) (fun _ => Triple.pure (fun _ htype =>
    ⟨remapValue_copy hremap ho, htype, rfl⟩))

theorem mergePayload_eq (p : InstPayload) : mergePayload p = p := by
  cases p <;> rfl

theorem mergeInst_copies (addr : Nat) (hremap : RemapsNames src dest symbolRemap) {i : LrInst}
    (hi : ∀ o ∈ i.operands, ∀ id, o.value = .global id → id < src.numSymbols) :
    Copies (mergeInst (lrModuleCreateTypes addr) symbolRemap i) (InstCopy src dest) i := by
  have hops := copyAll_copies (fun o ho =>
    mergeRemapOperand_copies addr hremap (hi o ho))
  refine Triple.bindFact hops (fun ops hops' => ?_)
  refine Triple.bindFact (mergeRemapTypeOption_copies i.type) (fun t htype => ?_)
  exact Triple.pure (fun _ _ =>
    ⟨hops', rfl, htype, rfl, mergePayload_eq i.payload, rfl, rfl, rfl, rfl⟩)

theorem mergeBlock_copies (addr : Nat) (hremap : RemapsNames src dest symbolRemap) {b : LrBlock}
    (hb : GlobalsKnown src b) :
    Copies (mergeBlock (lrModuleCreateTypes addr) symbolRemap b) (BlockCopy src dest) b := by
  have hinsts := copyAll_copies (fun i hi => mergeInst_copies addr hremap (hb i hi))
  exact Triple.bind hinsts (fun insts => Triple.pure (fun _ h => ⟨rfl, rfl, h⟩))

end Instructions

/-- The virtual registers of the parameters; a function without parameters has
none, whatever the pointer. -/
def paramVregsOf (f : LrFunc) : Option (List Nat) :=
  if f.paramTypes.isEmpty then some [] else f.paramVregs

/-- A definition that equals another one up to the numbering of symbols and the
copying of types. -/
structure FuncCopy (src dest : SymbolTable) (sf df : LrFunc) : Prop where
  name : df.name = sf.name
  symbol : lrModuleSymbolName dest df.symbolId = some df.name
  definition : df.isDefinition = true
  retType : TypeCopy sf.retType df.retType
  paramTypes : TypesCopy sf.paramTypes df.paramTypes
  type : TypeCopy (.func 0 sf.retType sf.paramTypes sf.vararg) df.type
  vararg : df.vararg = sf.vararg
  usesLlvmAbi : df.usesLlvmAbi = sf.usesLlvmAbi
  nextVreg : df.nextVreg = sf.nextVreg
  blocks : List.Forall₂ (BlockCopy src dest) sf.blocks df.blocks

/-- What the merge makes of a definition: a copy that is not finalized, whose
blocks are counted anew and whose parameters are numbered from zero. -/
structure Merged (src dest : SymbolTable) (sf df : LrFunc) : Prop where
  copy : FuncCopy src dest sf df
  numBlocks : df.numBlocks = sf.blocks.length
  blockArray : df.blockArray = false
  paramVregs : sf.paramTypes ≠ [] → df.paramVregs = some (range sf.paramTypes.length)

theorem ne_nil_of_isDefinition {f : LrFunc} (h : f.isDefinition = true) : f.blocks ≠ [] := by
  rintro hnil
  simp [LrFunc.isDefinition, hnil] at h

section Functions
variable {src dest : SymbolTable} {symbolRemap : List Nat} {sf : LrFunc}

/-- The body of a definition, copied into a function without blocks. -/
theorem mergeDeepCopyFuncBody_copies (addr : Nat) (hremap : RemapsNames src dest symbolRemap)
    (hdef : sf.isDefinition = true) (hknown : ∀ b ∈ sf.blocks, GlobalsKnown src b)
    (df : LrFunc) (hempty : df.blocks = []) (hcount : df.numBlocks = 0) :
    Triple (fun _ => True)
      (mergeDeepCopyFuncBody (lrModuleCreateTypes addr) symbolRemap df sf)
      (fun f _ => ∃ blocks, List.Forall₂ (BlockCopy src dest) sf.blocks blocks ∧
        f = { df with
          nextVreg := sf.nextVreg
          blocks := blocks
          numBlocks := sf.blocks.length
          isDecl := false }) := by
  have hblocks := copyAll_copies (fun b hb => mergeBlock_copies addr hremap
    (hknown b hb))
  refine Triple.bindFact hblocks (fun blocks h => Triple.pure (fun _ _ => ⟨blocks, h, ?_⟩))
  have hlen := h.length_eq
  have hne : blocks.isEmpty = false := by
    have := ne_nil_of_isDefinition hdef
    cases blocks with
    | nil => exact absurd (forall₂_nil_right_iff.mp h) this
    | cons b bs => rfl
  rw [hempty, hcount, hne, hlen]
  simp

/-- A copy of the body in a function that already has the name, the flags and
copies of the signature of the source. -/
theorem merged_of_body {blocks : List LrBlock}
    (hblocks : List.Forall₂ (BlockCopy src dest) sf.blocks blocks) (hdef : sf.isDefinition = true)
    (hname : df.name = sf.name) (hsymbol : lrModuleSymbolName dest df.symbolId = some df.name)
    (hret : TypeCopy sf.retType df.retType) (hparams : TypesCopy sf.paramTypes df.paramTypes)
    (htype : TypeCopy (.func 0 sf.retType sf.paramTypes sf.vararg) df.type)
    (hvararg : df.vararg = sf.vararg) (habi : df.usesLlvmAbi = sf.usesLlvmAbi)
    (harray : df.blockArray = false)
    (hvregs : sf.paramTypes ≠ [] → df.paramVregs = some (range sf.paramTypes.length)) :
    Merged src dest sf { df with
      nextVreg := sf.nextVreg
      blocks := blocks
      numBlocks := sf.blocks.length
      isDecl := false } := by
  have hne : blocks ≠ [] := by
    rintro rfl
    exact ne_nil_of_isDefinition hdef (forall₂_nil_right_iff.mp hblocks)
  have hisdef : ({ df with
      nextVreg := sf.nextVreg
      blocks := blocks
      numBlocks := sf.blocks.length
      isDecl := false } : LrFunc).isDefinition = true := by
    simp [LrFunc.isDefinition, hne]
  exact ⟨⟨hname, hsymbol, hisdef, hret, hparams, htype, hvararg, habi, rfl, hblocks⟩, rfl,
    harray, hvregs⟩

/-- A declaration that is replaced. -/
theorem mergeReplaceFunc_merged (addr : Nat) (hremap : RemapsNames src dest symbolRemap)
    (hdef : sf.isDefinition = true) (hknown : ∀ b ∈ sf.blocks, GlobalsKnown src b)
    (hvregs : sf.paramTypes ≠ [] → sf.paramVregs = some (range sf.paramTypes.length))
    (hname : df.name = sf.name) (hsymbol : lrModuleSymbolName dest df.symbolId = some df.name) :
    Triple (fun _ => True) (mergeReplaceFunc (lrModuleCreateTypes addr) symbolRemap df sf)
      (fun f _ => Merged src dest sf f) := by
  refine Triple.bindFact (mergeRemapType_copies addr sf.retType) (fun ret hret => ?_)
  refine Triple.bindFact (mergeRemapTypes_copies addr sf.paramTypes) (fun params hparams => ?_)
  have htype : Triple (fun _ => True) (allocate (fun a => .func a ret params sf.vararg))
      (fun t _ => TypeCopy (.func 0 sf.retType sf.paramTypes sf.vararg) t) := by
    intro s _
    simp only [TypeCopy, TypesCopy, allocate, eraseAddr] at hret hparams ⊢
    rw [hret, hparams]
  refine Triple.bindFact htype (fun type htype' => ?_)
  refine (mergeDeepCopyFuncBody_copies addr hremap hdef hknown _ rfl rfl).weaken (fun _ h => h) ?_
  rintro f s ⟨blocks, hblocks, rfl⟩
  refine merged_of_body hblocks hdef hname hsymbol hret hparams htype' rfl rfl rfl ?_
  intro hne
  have hsome := hvregs hne
  simp only [List.isEmpty_iff, hne, if_false, hsome, Option.map_some]
  rw [take_of_length_le (by rw [length_range])]

end Functions

/-- What the operations on modules guarantee of the two arguments of a merge. The
parameters of a function are numbered from zero by `lr_func_create`, or their
array was dropped. -/
structure ModuleOk (m : LrModule) : Prop where
  builtin : ∃ addr, m.builtin = lrModuleCreateTypes addr
  symbols : WellFormed m.symbols
  interned : ∀ f ∈ m.funcs, lrModuleSymbolName m.symbols f.symbolId = some f.name
  params : ∀ f ∈ m.funcs, f.paramTypes ≠ [] → ∀ vregs, f.paramVregs = some vregs →
    vregs = range f.paramTypes.length
  globals : ∀ f ∈ m.funcs, ∀ b ∈ f.blocks, GlobalsKnown m.symbols b

def Defines (m : LrModule) (name : CStr) : Prop :=
  ∃ f ∈ m.funcs, f.isDefinition = true ∧ f.name = name

/-- The destination after the functions `done` of the source: every definition it
had is there, every definition of the source that it lacked has been merged, and
no name is there twice. -/
structure Merging (dest : LrModule) (src symbols : SymbolTable) (done : List LrFunc)
    (d : LrModule) : Prop where
  builtin : d.builtin = dest.builtin
  symbols_eq : d.symbols = symbols
  nodup : (d.funcs.map LrFunc.name).Nodup
  interned : ∀ f ∈ d.funcs, lrModuleSymbolName symbols f.symbolId = some f.name
  kept : ∀ f ∈ dest.funcs, f.isDefinition = true → f ∈ d.funcs
  merged : ∀ sf ∈ done, sf.isDefinition = true → ¬ Defines dest sf.name →
    ∃ df ∈ d.funcs, Merged src symbols sf df
  origin : ∀ f ∈ d.funcs, f.isDefinition = true →
    f ∈ dest.funcs ∨ ∃ sf ∈ done, sf.isDefinition = true ∧ sf.name = f.name

/-- The one case in which a definition cannot be merged: it replaces a declaration,
and the array of its parameters is missing. -/
def MissingParams (sf : LrFunc) : Prop := sf.paramTypes ≠ [] ∧ sf.paramVregs = none

theorem mem_modify_of_ne {x y : α} (hx : x ∈ l) (hy : l[i]? = some y) (hne : x ≠ y) (g : α → α) :
    x ∈ l.modify i g := by
  obtain ⟨j, hj⟩ := mem_iff_getElem?.mp hx
  have hij : i ≠ j := by
    rintro rfl
    exact hne (Option.some.inj (hj.symm.trans hy))
  exact mem_iff_getElem?.mpr ⟨j, by rw [getElem?_modify_ne g l hij, hj]⟩

theorem mem_of_mem_modify {x a : α} (hx : x ∈ l.modify i (fun _ => a)) : x = a ∨ x ∈ l := by
  obtain ⟨j, hj⟩ := mem_iff_getElem?.mp hx
  rw [getElem?_modify] at hj
  by_cases hij : i = j
  · simp only [hij, if_true, Option.map_eq_map, Option.map_eq_some_iff] at hj
    obtain ⟨y, -, hy⟩ := hj
    exact Or.inl hy.symm
  · simp only [hij, if_false, Option.map_eq_map, Option.map_id'] at hj
    exact Or.inr (mem_iff_getElem?.mpr ⟨j, hj⟩)

theorem map_modify_const {β : Type} {a y : α} (hy : l[i]? = some y) (f : α → β) (hf : f a = f y) :
    (l.modify i (fun _ => a)).map f = l.map f := by
  apply ext_getElem?
  intro j
  rw [getElem?_map, getElem?_map, getElem?_modify]
  by_cases hij : i = j
  · subst hij
    simp [hy, hf]
  · simp [hij]

theorem modify_append_last (l : List α) (a : α) (g : α → α) :
    (l ++ [a]).modify ((l ++ [a]).length - 1) g = l ++ [g a] := by
  have hlen : (l ++ [a]).length - 1 = l.length := by simp
  rw [hlen]
  induction l with
  | nil => rfl
  | cons x l ih =>
    have ih := ih (by simp)
    rw [cons_append, length_cons, modify_succ_cons, ih, cons_append]

section Steps
variable {dest d : LrModule} {src symbols : SymbolTable} {done : List LrFunc} {sf : LrFunc}

/-- A function is appended under a new name. -/
theorem Merging.append (h : Merging dest src symbols done d)
    (hnew : sf.name ∉ d.funcs.map LrFunc.name) {nf : LrFunc} (hname : nf.name = sf.name)
    (hsymbol : lrModuleSymbolName symbols nf.symbolId = some nf.name)
    (hkind : nf.isDefinition = sf.isDefinition)
    (hnf : sf.isDefinition = true → Merged src symbols sf nf) {d' : LrModule}
    (hfuncs : d'.funcs = d.funcs ++ [nf]) (hbuiltin : d'.builtin = d.builtin)
    (hsymbols : d'.symbols = d.symbols) :
    Merging dest src symbols (done ++ [sf]) d' := by
  constructor
  · exact hbuiltin.trans h.builtin
  · exact hsymbols.trans h.symbols_eq
  · rw [hfuncs, map_append, map_singleton, hname]
    refine nodup_append.mpr ⟨h.nodup, nodup_singleton _, ?_⟩
    intro a ha b hb heq
    rw [mem_singleton] at hb
    exact hnew (hb ▸ heq ▸ ha)
  · intro f hf
    rw [hfuncs, mem_append, mem_singleton] at hf
    rcases hf with hf | rfl
    · exact h.interned f hf
    · exact hsymbol
  · intro f hf hfdef
    rw [hfuncs]
    exact mem_append_left _ (h.kept f hf hfdef)
  · intro sf' hsf' hsfdef hnot
    rw [mem_append, mem_singleton] at hsf'
    rcases hsf' with hsf' | rfl
    · obtain ⟨df, hdf, hmerged⟩ := h.merged sf' hsf' hsfdef hnot
      exact ⟨df, hfuncs ▸ mem_append_left _ hdf, hmerged⟩
    · exact ⟨nf, hfuncs ▸ mem_append_right _ mem_cons_self, hnf hsfdef⟩
  · intro f hf hfdef
    rw [hfuncs, mem_append, mem_singleton] at hf
    rcases hf with hf | rfl
    · rcases h.origin f hf hfdef with hor | ⟨sf', hsf', hrest⟩
      · exact Or.inl hor
      · exact Or.inr ⟨sf', mem_append_left _ hsf', hrest⟩
    · rw [hkind] at hfdef
      exact Or.inr ⟨sf, mem_append_right _ mem_cons_self, hfdef, hname.symm⟩

/-- A definition takes the place of a declaration. -/
theorem Merging.replace (h : Merging dest src symbols done d) (hi : d.funcs[i]? = some df)
    (hdecl : df.isDefinition = false) (hname : df.name = sf.name) (hdef : sf.isDefinition = true)
    {nf : LrFunc} (hnf : Merged src symbols sf nf) {d' : LrModule}
    (hfuncs : d'.funcs = d.funcs.modify i (fun _ => nf)) (hbuiltin : d'.builtin = d.builtin)
    (hsymbols : d'.symbols = d.symbols) :
    Merging dest src symbols (done ++ [sf]) d' := by
  have hstay : ∀ f ∈ d.funcs, f.isDefinition = true → f ∈ d'.funcs := by
    intro f hf hfdef
    rw [hfuncs]
    refine mem_modify_of_ne hf hi ?_ _
    rintro rfl
    rw [hdecl] at hfdef
    cases hfdef
  have hnfmem : nf ∈ d'.funcs := by
    rw [hfuncs]
    exact mem_iff_getElem?.mpr ⟨i, by rw [getElem?_modify_eq, hi]; rfl⟩
  constructor
  · exact hbuiltin.trans h.builtin
  · exact hsymbols.trans h.symbols_eq
  · rw [hfuncs, map_modify_const hi LrFunc.name (hnf.copy.name.trans hname.symm)]
    exact h.nodup
  · intro f hf
    rw [hfuncs] at hf
    rcases mem_of_mem_modify hf with rfl | hf
    · exact hnf.copy.symbol
    · exact h.interned f hf
  · intro f hf hfdef
    exact hstay f (h.kept f hf hfdef) hfdef
  · intro sf' hsf' hsfdef hnot
    rw [mem_append, mem_singleton] at hsf'
    rcases hsf' with hsf' | rfl
    · obtain ⟨df', hdf', hmerged⟩ := h.merged sf' hsf' hsfdef hnot
      exact ⟨df', hstay df' hdf' hmerged.copy.definition, hmerged⟩
    · exact ⟨nf, hnfmem, hnf⟩
  · intro f hf hfdef
    rw [hfuncs] at hf
    rcases mem_of_mem_modify hf with rfl | hf
    · exact Or.inr ⟨sf, mem_append_right _ mem_cons_self, hdef, hnf.copy.name.symm⟩
    · rcases h.origin f hf hfdef with hor | ⟨sf', hsf', hrest⟩
      · exact Or.inl hor
      · exact Or.inr ⟨sf', mem_append_left _ hsf', hrest⟩

/-- A function of the source that changes nothing: it is only declared, or the
destination has a definition of that name. -/
theorem Merging.skip (h : Merging dest src symbols done d)
    (hskip : sf.isDefinition = true → ∃ f ∈ d.funcs, f.isDefinition = true ∧ f.name = sf.name)
    (hfresh : sf.isDefinition = true → ∀ sf' ∈ done, sf'.isDefinition = true → sf'.name ≠ sf.name) :
    Merging dest src symbols (done ++ [sf]) d := by
  refine ⟨h.builtin, h.symbols_eq, h.nodup, h.interned, h.kept, ?_, ?_⟩
  · intro sf' hsf' hsfdef hnot
    rw [mem_append, mem_singleton] at hsf'
    rcases hsf' with hsf' | rfl
    · exact h.merged sf' hsf' hsfdef hnot
    · obtain ⟨f, hf, hfdef, hfname⟩ := hskip hsfdef
      rcases h.origin f hf hfdef with hor | ⟨sf'', hsf'', hdef'', hname''⟩
      · exact absurd ⟨f, hor, hfdef, hfname⟩ hnot
      · exact absurd (hname''.trans hfname) (hfresh hsfdef sf'' hsf'' hdef'')
  · intro f hf hfdef
    rcases h.origin f hf hfdef with hor | ⟨sf', hsf', hrest⟩
    · exact Or.inl hor
    · exact Or.inr ⟨sf', mem_append_left _ hsf', hrest⟩

theorem not_mem_of_funcByName_none (h : funcByName m name = none) :
    name ∉ m.funcs.map LrFunc.name := by
  intro hmem
  obtain ⟨f, hf, rfl⟩ := mem_map.mp hmem
  have := findIdx?_eq_none_iff.mp h f hf
  simp at this

theorem funcByName_some (h : funcByName m name = some i) :
    ∃ f, m.funcs[i]? = some f ∧ f ∈ m.funcs ∧ f.name = name := by
  obtain ⟨hlt, hname, -⟩ := findIdx?_eq_some_iff_getElem.mp h
  exact ⟨m.funcs[i], getElem?_eq_getElem hlt, getElem_mem hlt, by simpa using hname⟩

variable {symbolRemap : List Nat} {addr : Nat}

/-- What `lr_func_create` appends for a name that is interned. -/
def createdFunc (symbols : SymbolTable) (addr : Nat) (name : CStr) (ret : LrType)
    (params : List LrType) (vararg : Bool) : LrFunc where
  name := name
  symbolId := symbols.symbolNames.idxOf name
  type := .func addr ret params vararg
  retType := ret
  paramTypes := params
  paramVregs := if params.isEmpty then none else some (range params.length)
  vararg := vararg
  nextVreg := params.length

theorem lrFuncCreate_known (hwf : WellFormed m.symbols) (hmem : name ∈ m.symbols.symbolNames)
    (ret : LrType) (params : List LrType) (vararg : Bool) :
    lrFuncCreate m name ret params vararg =
      some ({ m with
        funcs := m.funcs ++ [createdFunc m.symbols m.nextAddr name ret params vararg]
        nextAddr := m.nextAddr + 1
        localFunctionCollisionScanDirty := true },
        createdFunc m.symbols m.nextAddr name ret params vararg) := by
  simp only [lrFuncCreate, intern_known hwf hmem, Option.bind_eq_bind, Option.bind_some]
  rfl

variable {params : List LrType}

/-- The function `lr_func_create` makes, with the body of the source. -/
theorem created_merged (addr : Nat) (hremap : RemapsNames src symbols symbolRemap)
    (hmem : sf.name ∈ symbols.symbolNames) (hknown : ∀ b ∈ sf.blocks, GlobalsKnown src b)
    (hdef : sf.isDefinition = true) {ret : LrType} (hret : TypeCopy sf.retType ret)
    (hparams : TypesCopy sf.paramTypes params) (typeAddr next : Nat) :
    Merged src symbols sf (mergeDeepCopyFuncBody (lrModuleCreateTypes addr) symbolRemap
      { createdFunc symbols typeAddr sf.name ret params sf.vararg with
        usesLlvmAbi := sf.usesLlvmAbi } sf next).1 := by
  have hbody := mergeDeepCopyFuncBody_copies addr hremap hdef hknown
    ({ createdFunc symbols typeAddr sf.name ret params sf.vararg with
      usesLlvmAbi := sf.usesLlvmAbi }) rfl rfl next trivial
  obtain ⟨blocks, hblocks, heq⟩ := hbody
  have htype : TypeCopy (.func 0 sf.retType sf.paramTypes sf.vararg)
      (.func typeAddr ret params sf.vararg) := by
    simp only [TypeCopy, TypesCopy, eraseAddr] at hret hparams ⊢
    rw [hret, hparams]
  have hvregs : sf.paramTypes ≠ [] →
      (if params.isEmpty then none else some (range params.length)) =
        some (range sf.paramTypes.length) := by
    intro hne
    have hlen := hparams.length
    have hfull : params.isEmpty = false := by
      cases params with
      | nil => exact absurd (length_eq_zero_iff.mp hlen.symm) hne
      | cons p ps => rfl
    rw [hfull, hlen]
    rfl
  rw [heq]
  exact merged_of_body hblocks hdef rfl (symbolName_idxOf hmem) hret hparams htype rfl rfl rfl
    hvregs

/-- A definition whose name is new is appended with its body. -/
theorem mergeNewDefinition_step (h : Merging dest src symbols done d)
    (hbuiltin : d.builtin = lrModuleCreateTypes addr) (hwf : WellFormed symbols)
    (hremap : RemapsNames src symbols symbolRemap)
    (hmem : sf.name ∈ symbols.symbolNames) (hknown : ∀ b ∈ sf.blocks, GlobalsKnown src b)
    (hnew : sf.name ∉ d.funcs.map LrFunc.name) (hdef : sf.isDefinition = true) {ret : LrType} (hret : TypeCopy sf.retType ret)
    (hparams : TypesCopy sf.paramTypes params) :
    ∃ d', mergeNewDefinition symbolRemap sf d ret params = some d' ∧
      Merging dest src symbols (done ++ [sf]) d' := by
  have hsymbols := h.symbols_eq
  subst hsymbols
  have hcreate := lrFuncCreate_known hwf hmem ret params sf.vararg
  have hmerged := created_merged addr hremap hmem hknown hdef hret hparams d.nextAddr
    (d.nextAddr + 1)
  simp only [mergeNewDefinition, hcreate, Option.bind_eq_bind, Option.bind_some, inArena,
    updateFunc, hbuiltin, modify_append_last]
  exact ⟨_, rfl, h.append hnew hmerged.copy.name hmerged.copy.symbol
    (hmerged.copy.definition.trans hdef.symm) (fun _ => hmerged) rfl hbuiltin.symm rfl⟩

/-- A declaration whose name is new is appended. -/
theorem mergeNewDeclaration_step (h : Merging dest src symbols done d)
    (hwf : WellFormed symbols) (hmem : sf.name ∈ symbols.symbolNames)
    (hnew : funcByName d sf.name = none) (hdecl : sf.isDefinition = false) (ret : LrType) (params : List LrType) :
    ∃ d', mergeNewDeclaration sf d ret params = some d' ∧
      Merging dest src symbols (done ++ [sf]) d' := by
  have hsymbols := h.symbols_eq
  subst hsymbols
  have hcreate := lrFuncCreate_known hwf hmem ret params sf.vararg
  simp only [mergeNewDeclaration, lrFuncDeclare, hnew, hcreate, Option.bind_eq_bind,
    Option.bind_some, updateFunc, modify_append_last, Option.pure_def]
  refine ⟨_, rfl, h.append (not_mem_of_funcByName_none hnew) ?_ ?_ ?_ ?_ rfl rfl rfl⟩
  · rfl
  · exact symbolName_idxOf hmem
  · rw [hdecl]
    rfl
  · intro hdef
    rw [hdecl] at hdef
    cases hdef

section
variable (h : Merging dest src symbols done d) (hbuiltin : dest.builtin = lrModuleCreateTypes addr)
  (hwf : WellFormed symbols) (hremap : RemapsNames src symbols symbolRemap)
  (hmem : sf.name ∈ symbols.symbolNames) (hknown : ∀ b ∈ sf.blocks, GlobalsKnown src b)
include h hbuiltin hwf hremap hmem hknown

theorem mergeNewFunc_step (hnew : funcByName d sf.name = none) :
    ∃ d', mergeNewFunc symbolRemap d sf = some d' ∧ Merging dest src symbols (done ++ [sf]) d' := by
  have hb : d.builtin = lrModuleCreateTypes addr := h.builtin.trans hbuiltin
  have hparams := mergeRemapTypes_copies addr sf.paramTypes d.nextAddr trivial
  have hret := mergeRemapType_copies addr sf.retType
    (mergeRemapTypes (lrModuleCreateTypes addr) sf.paramTypes d.nextAddr).2 trivial
  rw [← hb] at hparams hret
  simp only [mergeNewFunc, inArena]
  -- allocating copies of types changes nothing the invariant speaks of
  generalize (mergeRemapType d.builtin sf.retType
    (mergeRemapTypes d.builtin sf.paramTypes d.nextAddr).2).2 = next
  have halloc : Merging dest src symbols done { d with nextAddr := next } :=
    ⟨h.builtin, h.symbols_eq, h.nodup, h.interned, h.kept, h.merged, h.origin⟩
  cases hdef : sf.isDefinition with
  | true =>
    rw [if_pos rfl]
    exact mergeNewDefinition_step halloc hb hwf hremap hmem hknown
      (not_mem_of_funcByName_none hnew) hdef hret hparams
  | false =>
    rw [if_neg (by simp)]
    exact mergeNewDeclaration_step halloc hwf hmem hnew hdef _ _

/-- One round of the loop. It fails only for a definition that would replace a
declaration and lacks the array of its parameters. -/
theorem mergeFunc_step (hparams : sf.paramTypes ≠ [] → ∀ vregs, sf.paramVregs = some vregs →
      vregs = range sf.paramTypes.length) (hfresh : sf.isDefinition = true →
      ∀ sf' ∈ done, sf'.isDefinition = true → sf'.name ≠ sf.name) :
    (∃ d', mergeFunc symbolRemap d sf = some d' ∧ Merging dest src symbols (done ++ [sf]) d') ∨
    (mergeFunc symbolRemap d sf = none ∧ sf.isDefinition = true ∧ ¬ Defines dest sf.name ∧
      MissingParams sf) := by
  unfold mergeFunc
  cases hfind : funcByName d sf.name with
  | none => exact Or.inl (mergeNewFunc_step h hbuiltin hwf hremap hmem hknown hfind)
  | some i =>
    obtain ⟨df, hi, hdf, hname⟩ := funcByName_some hfind
    simp only [hi]
    by_cases hreplace : (!df.isDefinition && sf.isDefinition) = true
    · rw [if_pos hreplace]
      simp only [Bool.and_eq_true, Bool.not_eq_true'] at hreplace
      obtain ⟨hdecl, hdef⟩ := hreplace
      -- the destination cannot have defined this name: it has one function of it
      have hnot : ¬ Defines dest sf.name := by
        rintro ⟨f, hf, hfdef, hfname⟩
        have heq : f = df := inj_on_of_nodup_map h.nodup (h.kept f hf hfdef) hdf
          (hfname.trans hname.symm)
        rw [heq, hdecl] at hfdef
        cases hfdef
      cases hvregs : sf.paramVregs with
      | none =>
        by_cases hne : sf.paramTypes = []
        · rw [hne, if_neg (by simp)]
          have hreplaced := mergeReplaceFunc_merged addr hremap hdef hknown
            (fun hne' => absurd hne hne') hname (h.interned df hdf) d.nextAddr trivial
          rw [← hbuiltin, ← h.builtin] at hreplaced
          exact Or.inl ⟨_, rfl, h.replace hi hdecl hname hdef hreplaced rfl rfl rfl⟩
        · have hpos : 0 < sf.paramTypes.length := length_pos_iff.mpr hne
          rw [if_pos (by simpa using hpos)]
          exact Or.inr ⟨rfl, hdef, hnot, hne, hvregs⟩
      | some vregs =>
        have hfull : ¬ ((some vregs).getD []).length < sf.paramTypes.length := by
          by_cases hne : sf.paramTypes = []
          · simp [hne]
          · rw [hparams hne vregs hvregs]
            simp
        rw [if_neg hfull]
        have hreplaced := mergeReplaceFunc_merged addr hremap hdef hknown
          (fun hne => by rw [hvregs, hparams hne vregs hvregs]) hname (h.interned df hdf)
          d.nextAddr trivial
        rw [← hbuiltin, ← h.builtin] at hreplaced
        exact Or.inl ⟨_, rfl, h.replace hi hdecl hname hdef hreplaced rfl rfl rfl⟩
    · rw [if_neg hreplace]
      refine Or.inl ⟨d, rfl, h.skip (fun hdef => ⟨df, hdf, ?_, hname⟩) hfresh⟩
      simpa [hdef] using hreplace

end

/-- The loop over the functions of the source. -/
theorem mergeFuncs_run (hbuiltin : dest.builtin = lrModuleCreateTypes addr)
    (hwf : WellFormed symbols) (hremap : RemapsNames src symbols symbolRemap)
    (funcs : List LrFunc)
    (hmem : ∀ sf ∈ funcs, sf.name ∈ symbols.symbolNames)
    (hknown : ∀ sf ∈ funcs, ∀ b ∈ sf.blocks, GlobalsKnown src b)
    (hparams : ∀ sf ∈ funcs, sf.paramTypes ≠ [] → ∀ vregs, sf.paramVregs = some vregs →
      vregs = range sf.paramTypes.length)
    (hunique : (((done ++ funcs).filter LrFunc.isDefinition).map LrFunc.name).Nodup)
    (h : Merging dest src symbols done d) :
    (∃ d', funcs.foldlM (mergeFunc symbolRemap) d = some d' ∧
      Merging dest src symbols (done ++ funcs) d') ∨
    (funcs.foldlM (mergeFunc symbolRemap) d = none ∧
      ∃ sf ∈ funcs, sf.isDefinition = true ∧ ¬ Defines dest sf.name ∧ MissingParams sf) := by
  induction funcs generalizing d done with
  | nil => exact Or.inl ⟨d, rfl, by rw [append_nil]; exact h⟩
  | cons sf funcs ih =>
    have hfresh : sf.isDefinition = true →
        ∀ sf' ∈ done, sf'.isDefinition = true → sf'.name ≠ sf.name := by
      intro hdef sf' hsf' hdef' heq
      rw [filter_append, map_append, filter_cons, if_pos hdef] at hunique
      have hdisj := (nodup_append.mp hunique).2.2
      exact hdisj sf'.name (mem_map_of_mem (mem_filter.mpr ⟨hsf', hdef'⟩)) sf.name
        mem_cons_self heq
    rw [foldlM_cons]
    rcases mergeFunc_step h hbuiltin hwf hremap (hmem sf mem_cons_self)
      (hknown sf mem_cons_self) (hparams sf mem_cons_self) hfresh with
      ⟨d', hrun, hd'⟩ | ⟨hrun, hbad⟩
    · rw [hrun, Option.bind_eq_bind, Option.bind_some]
      have hmore := ih (d := d') (fun f hf => hmem f (mem_cons_of_mem _ hf))
        (fun f hf => hknown f (mem_cons_of_mem _ hf))
        (fun f hf => hparams f (mem_cons_of_mem _ hf))
        (by rw [append_assoc]; exact hunique) hd'
      rw [append_assoc] at hmore
      rcases hmore with hok | ⟨hnone, sf', hsf', hbad⟩
      · exact Or.inl hok
      · exact Or.inr ⟨hnone, sf', mem_cons_of_mem _ hsf', hbad⟩
    · rw [hrun, Option.bind_eq_bind, Option.bind_none]
      exact Or.inr ⟨rfl, sf, mem_cons_self, hbad⟩

end Steps

theorem mergeGlobals_frame (globals : List LrGlobal) (d : LrModule) :
    (globals.foldl mergeGlobal d).funcs = d.funcs ∧
      (globals.foldl mergeGlobal d).builtin = d.builtin ∧
      (globals.foldl mergeGlobal d).symbols = d.symbols := by
  induction globals generalizing d with
  | nil => exact ⟨rfl, rfl, rfl⟩
  | cons g globals ih =>
    have hstep : (mergeGlobal d g).funcs = d.funcs ∧ (mergeGlobal d g).builtin = d.builtin ∧
        (mergeGlobal d g).symbols = d.symbols := by
      unfold mergeGlobal
      split
      · split
        · exact ⟨rfl, rfl, rfl⟩
        · split
          · exact ⟨rfl, rfl, rfl⟩
          · exact ⟨rfl, rfl, rfl⟩
      · exact ⟨rfl, rfl, rfl⟩
    obtain ⟨hfuncs, hbuiltin, hsymbols⟩ := ih (mergeGlobal d g)
    exact ⟨hfuncs.trans hstep.1, hbuiltin.trans hstep.2.1, hsymbols.trans hstep.2.2⟩

variable {src : SymbolTable}

/-- After interning the names of the source, `symbol_remap` keeps names. -/
theorem remapsNames_of_internAll {symbols : SymbolTable} {symbolRemap : List Nat}
    (hids : symbolRemap = src.symbolNames.map (fun s => symbols.symbolNames.idxOf s))
    (hmem : ∀ name ∈ src.symbolNames, name ∈ symbols.symbolNames) :
    RemapsNames src symbols symbolRemap := by
  refine ⟨by rw [hids, length_map]; rfl, fun id hid => ?_⟩
  have hid : id < src.symbolNames.length := hid
  refine ⟨src.symbolNames[id], symbolName_of_lt hid, ?_⟩
  · have hget : symbolRemap.getD id 0 = symbols.symbolNames.idxOf src.symbolNames[id] := by
      rw [hids, getD_eq_getElem?_getD, getElem?_map, getElem?_eq_getElem hid]
      rfl
    rw [hget]
    exact symbolName_idxOf (hmem _ (getElem_mem hid))

/-- The destination after a merge: its own definitions and symbols are as before, no
name is there twice, and every definition of the source that it lacked is there
with the same parameters, and can be finalized if the source can. -/
structure MergeIsLinking (dest src d : LrModule) : Prop where
  kept : ∀ f ∈ dest.funcs, f.isDefinition = true → f ∈ d.funcs
  names : ∀ id name, lrModuleSymbolName dest.symbols id = some name →
    lrModuleSymbolName d.symbols id = some name
  unique : (d.funcs.map LrFunc.name).Nodup
  linked : ∀ sf ∈ src.funcs, sf.isDefinition = true → ¬ Defines dest sf.name →
    ∃ df ∈ d.funcs, FuncCopy src.symbols d.symbols sf df ∧ paramVregsOf df = paramVregsOf sf ∧
      (lrFuncFinalizeResult sf = 0 → lrFuncFinalizeResult df = 0)

/-- Every definition the destination lacks has the array of its parameters, and if
it can be finalized then its block ids are below the number of its blocks. -/
def Mergeable (dest src : LrModule) : Prop :=
  ∀ sf ∈ src.funcs, sf.isDefinition = true → ¬ Defines dest sf.name →
    ¬ MissingParams sf ∧ (lrFuncFinalizeResult sf = 0 → ∀ b ∈ sf.blocks, b.id < sf.blocks.length)

variable {dest : SymbolTable}

theorem blockIds_eq {sbs dbs : List LrBlock} (h : List.Forall₂ (BlockCopy src dest) sbs dbs) :
    dbs.map LrBlock.id = sbs.map LrBlock.id := by
  induction h with
  | nil => rfl
  | cons hb _ ih => rw [map_cons, map_cons, ih, hb.id]

/-- The merged function is finalized exactly if the ids fit the new count. -/
theorem Merged.finalize_iff {sf : LrFunc} (h : Merged src dest sf df) :
    lrFuncFinalizeResult df = 0 ↔ ∀ b ∈ sf.blocks, b.id < sf.blocks.length := by
  have hne : df.numBlocks ≠ 0 := by
    have hlen := h.copy.blocks.length_eq
    have := ne_nil_of_isDefinition h.copy.definition
    rw [h.numBlocks, hlen]
    exact fun hzero => this (length_eq_zero_iff.mp hzero)
  have hids := blockIds_eq h.copy.blocks
  have hall : df.blocks.all (fun b => decide (b.id < df.numBlocks)) = true ↔
      ∀ b ∈ sf.blocks, b.id < sf.blocks.length := by
    have hmap : ∀ (bs : List LrBlock) (n : Nat),
        bs.all (fun b => decide (b.id < n)) = true ↔ ∀ i ∈ bs.map LrBlock.id, i < n := by
      intro bs n
      simp
    rw [hmap, hids, h.numBlocks]
    simp
  have hcond : ¬ (df.numBlocks = 0 ∨ df.blockArray = true) := by
    simp [hne, h.blockArray]
  rw [lrFuncFinalizeResult, if_neg hcond, ← hall]
  by_cases hok : df.blocks.all (fun b => decide (b.id < df.numBlocks)) = true
  · rw [if_pos hok]
    exact ⟨fun _ => hok, fun _ => rfl⟩
  · rw [if_neg hok]
    exact ⟨fun hzero => absurd hzero (by decide), fun hok' => absurd hok' hok⟩

theorem Merged.paramVregs_iff {sf : LrFunc} (h : Merged src dest sf df)
    (hparams : sf.paramTypes ≠ [] → ∀ vregs, sf.paramVregs = some vregs →
      vregs = range sf.paramTypes.length) :
    paramVregsOf df = paramVregsOf sf ↔ ¬ MissingParams sf := by
  have hlen := h.copy.paramTypes.length
  by_cases hne : sf.paramTypes = []
  · have hdf : df.paramTypes = [] := by
      rw [← length_eq_zero_iff, hlen, hne]
      rfl
    simp [paramVregsOf, MissingParams, hne, hdf]
  · have hdf : df.paramTypes ≠ [] := by
      rw [← length_pos_iff, hlen]
      exact length_pos_iff.mpr hne
    simp only [paramVregsOf, List.isEmpty_iff, hdf, hne, if_false, h.paramVregs hne]
    cases hvregs : sf.paramVregs with
    | none => simp [MissingParams, hne, hvregs]
    | some vregs => simp [MissingParams, hvregs, hparams hne vregs hvregs]

/-- Merging links exactly the sources all of whose new definitions have the array of
their parameters and, as far as they can be finalized, dense block ids. -/
theorem merge_is_linking_iff (dest src : LrModule) (hdest : ModuleOk dest) (hsrc : ModuleOk src)
    (hnames : (dest.funcs.map LrFunc.name).Nodup)
    (hdefs : ((src.funcs.filter LrFunc.isDefinition).map LrFunc.name).Nodup)
    (hfew : dest.symbols.numSymbols + src.symbols.numSymbols < 2 ^ 30) :
    (∃ d, lrModuleMerge dest src = some d ∧ MergeIsLinking dest src d) ↔ Mergeable dest src := by
  obtain ⟨addr, hbuiltin⟩ := hdest.builtin
  have hcount := length_foldl_addName_le src.symbols.symbolNames dest.symbols.symbolNames
  obtain ⟨symbols, symbolRemap, hintern, hwf, hsymbols, hids, -⟩ :=
    internAll_spec src.symbols.symbolNames hdest.symbols (Nat.lt_of_le_of_lt hcount hfew)
  have hextends : dest.symbols.symbolNames <+: symbols.symbolNames := by
    rw [hsymbols]
    exact foldl_addName_extends _ _
  have hsrcmem : ∀ name ∈ src.symbols.symbolNames, name ∈ symbols.symbolNames := by
    intro name hname
    rw [hsymbols, mem_foldl_addName]
    exact Or.inr hname
  have hremap := remapsNames_of_internAll hids hsrcmem
  obtain ⟨d₀, hd₀⟩ : ∃ d₀, src.globals.foldl mergeGlobal { dest with symbols := symbols } = d₀ :=
    ⟨_, rfl⟩
  obtain ⟨hfuncs, hbuiltin₀, hsymbols₀⟩ :=
    mergeGlobals_frame src.globals { dest with symbols := symbols }
  rw [hd₀] at hfuncs hbuiltin₀ hsymbols₀
  have hrun : lrModuleMerge dest src = src.funcs.foldlM (mergeFunc symbolRemap) d₀ := by
    simp only [lrModuleMerge, hintern, Option.bind_eq_bind, Option.bind_some, hd₀]
  have hstart : Merging dest src.symbols symbols [] d₀ := by
    refine ⟨hbuiltin₀, hsymbols₀, ?_, ?_, ?_, by simp, ?_⟩
    · rw [hfuncs]
      exact hnames
    · rw [hfuncs]
      exact fun f hf => symbolName_of_extends hextends (hdest.interned f hf)
    · rw [hfuncs]
      exact fun f hf _ => hf
    · rw [hfuncs]
      exact fun f hf _ => Or.inl hf
  have hunique : ((([] ++ src.funcs).filter LrFunc.isDefinition).map LrFunc.name).Nodup := hdefs
  rcases mergeFuncs_run hbuiltin hwf hremap src.funcs
      (fun sf hsf => hsrcmem _ (symbolName_mem (hsrc.interned sf hsf))) hsrc.globals hsrc.params
      hunique hstart with ⟨d, hd, hmerging⟩ | ⟨hnone, sf, hsf, hdef, hnot, hbad⟩
  · rw [nil_append] at hmerging
    constructor
    · rintro ⟨d', hd', hlink⟩ sf hsf hdef hnot
      obtain rfl : d = d' := Option.some.inj (hd.symm.trans (hrun.symm.trans hd'))
      obtain ⟨df, hdf, hmerged⟩ := hmerging.merged sf hsf hdef hnot
      obtain ⟨df', hdf', hcopy, hvregs, hfinal⟩ := hlink.linked sf hsf hdef hnot
      obtain rfl : df' = df := inj_on_of_nodup_map hlink.unique hdf' hdf
        (hcopy.name.trans hmerged.copy.name.symm)
      exact ⟨(hmerged.paramVregs_iff (hsrc.params sf hsf)).mp hvregs,
        fun hok => hmerged.finalize_iff.mp (hfinal hok)⟩
    · intro hmergeable
      refine ⟨d, hrun.trans hd, hmerging.kept, ?_, hmerging.nodup, ?_⟩
      · intro id name hname
        rw [hmerging.symbols_eq]
        exact symbolName_of_extends hextends hname
      · intro sf hsf hdef hnot
        obtain ⟨df, hdf, hmerged⟩ := hmerging.merged sf hsf hdef hnot
        obtain ⟨hparams, hids'⟩ := hmergeable sf hsf hdef hnot
        refine ⟨df, hdf, ?_, (hmerged.paramVregs_iff (hsrc.params sf hsf)).mpr hparams,
          fun hok => hmerged.finalize_iff.mpr (hids' hok)⟩
        rw [hmerging.symbols_eq]
        exact hmerged.copy
  · constructor
    · rintro ⟨d, hd, -⟩
      rw [hrun, hnone] at hd
      cases hd
    · intro hmergeable
      exact absurd hbad (hmergeable sf hsf hdef hnot).1

def emptyModule : LrModule := { builtin := lrModuleCreateTypes 0, nextAddr := 11 }

/-- A function `f` without parameters whose blocks have the given ids, in a function
that has handed out `numBlocks` ids. -/
def voidFunc (numBlocks : Nat) (ids : List Nat) : LrFunc where
  name := [102]
  symbolId := 0
  type := .func 11 (.scalar 0 .void) [] false
  retType := .scalar 0 .void
  paramTypes := []
  vararg := false
  blocks := ids.map (fun id => { name := [], id := id, insts := [lrInstCreate .retVoid none 0 []] })
  numBlocks := numBlocks

theorem merge_is_linking_voidFunc :
    ∃ src, src.funcs = [voidFunc 1 [0]] ∧
      ∃ d, lrModuleMerge emptyModule src = some d ∧ MergeIsLinking emptyModule src d := by
  obtain ⟨symbols, -, -, hwf, hnames, -, -⟩ := internAll_spec [[102]] wellFormed_empty (by decide)
  let src : LrModule :=
    { funcs := [voidFunc 1 [0]], symbols := symbols, builtin := lrModuleCreateTypes 0,
      nextAddr := 12 }
  have hsymbols : symbols.symbolNames = [[102]] := hnames
  have hsrc : ModuleOk src := by
    refine ⟨⟨0, rfl⟩, hwf, ?_, ?_, ?_⟩
    · simp [src, voidFunc, lrModuleSymbolName, SymbolTable.numSymbols, hsymbols]
    · simp [src, voidFunc]
    · simp [src, voidFunc, GlobalsKnown, lrInstCreate]
  have hdest : ModuleOk emptyModule :=
    ⟨⟨0, rfl⟩, wellFormed_empty, by simp [emptyModule], by simp [emptyModule],
      by simp [emptyModule]⟩
  have hmergeable : Mergeable emptyModule src := by
    simp [Mergeable, MissingParams, src, voidFunc]
  have hfew : emptyModule.symbols.numSymbols + src.symbols.numSymbols < 2 ^ 30 := by
    simp [src, emptyModule, SymbolTable.numSymbols, SymbolTable.empty, hsymbols]
  have hdefs : ([voidFunc 1 [0]].filter LrFunc.isDefinition |>.map LrFunc.name).Nodup := by
    decide
  exact ⟨src, rfl, (merge_is_linking_iff emptyModule src hdest hsrc (by decide) hdefs
    hfew).mpr hmergeable⟩

/-- A module with a function of which the second of three blocks was never
attached. -/
def sparseModule : LrModule :=
  { funcs := [voidFunc 3 [0, 2]]
    symbols := ((lrModuleInternSymbol .empty [102]).getD (.empty, 0)).1
    builtin := lrModuleCreateTypes 0
    nextAddr := 12 }

theorem sparseModule_not_linked :
    lrFuncFinalizeResult (voidFunc 3 [0, 2]) = 0 ∧
      ¬ ∃ d, lrModuleMerge emptyModule sparseModule = some d ∧
        MergeIsLinking emptyModule sparseModule d := by
  refine ⟨by decide, ?_⟩
  rintro ⟨d, hd, hlink⟩
  have hall : (lrModuleMerge emptyModule sparseModule).map
      (fun d => d.funcs.all (fun f => lrFuncFinalizeResult f == -1)) = some true := by
    decide +kernel
  have hnot : ¬ Defines emptyModule [102] := by
    simp [Defines, emptyModule]
  obtain ⟨df, hdf, -, -, hfinal⟩ := hlink.linked (voidFunc 3 [0, 2]) (by simp [sparseModule])
    (by decide) hnot
  rw [hd, Option.map_some, Option.some.injEq, all_eq_true] at hall
  have hfails := hall df hdf
  rw [hfinal (by decide)] at hfails
  exact absurd hfails (by decide)

end Liric.Guarantees.ModuleMerge
