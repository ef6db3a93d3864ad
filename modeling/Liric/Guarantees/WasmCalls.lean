import Liric.Guarantees.ModuleMerge
import Liric.Guarantees.WasmConversion

/-!
# Where WASM calls go

A call names a function by its place in the index space. The conversion takes the place for
the number of a symbol, and for an import also for a place among all imports. The first
holds while no name is repeated, the second while nothing but functions is imported before.
-/
namespace Liric.Guarantees.WasmCalls
open Source.Ir Source.Wasm SymbolInterning WasmConversion List Option
open ModuleMerge (funcByName_some)

/-- A function as WASM numbers it. -/
structure SpaceFunc where
  name : CStr
  typeIdx : Nat
  deriving DecidableEq

def importFunc (imp : Import) : SpaceFunc :=
  { name := cString (imp.name.getD []), typeIdx := imp.typeIdx.toNat }

def importFuncs (imports : List Import) : List SpaceFunc :=
  (imports.filter fun imp => imp.kind == 0).map importFunc

def definedFuncs (wmod : WasmModule) : List (BitVec 32) → Nat → List SpaceFunc
  | [], _ => []
  | typeIdx :: rest, i =>
    { name := definedName wmod i, typeIdx := typeIdx.toNat } :: definedFuncs wmod rest (i + 1)

/-- The imports of kind func in order, then the defined functions. -/
def indexSpace (wmod : WasmModule) : List SpaceFunc :=
  importFuncs wmod.imports ++ definedFuncs wmod wmod.funcTypeIndices 0

def spaceType (wmod : WasmModule) (k : Nat) : Option FuncType :=
  (indexSpace wmod)[k]?.bind fun fn => wmod.types[fn.typeIdx]?

/-- The type of the entry `k` of the imports, whatever its kind, and behind the function imports
that of a defined function. -/
def entryType (wmod : WasmModule) (k : Nat) : Option FuncType :=
  (if k < wmod.numFuncImports then wmod.imports[k]?.map Import.typeIdx
    else wmod.funcTypeIndices[k - wmod.numFuncImports]?).bind fun typeIdx =>
      wmod.types[typeIdx.toNat]?

section Space
variable {wmod : WasmModule} {k : Nat}

/-- The type a call finds. -/
theorem entryType_of_callee {typeIdx : Nat} (h : calleeTypeIdx wmod k = some (some typeIdx)) :
    entryType wmod k = wmod.types[typeIdx]? := by
  unfold calleeTypeIdx at h
  unfold entryType
  split at h
  · rename_i hlt
    rw [if_pos hlt]
    cases himp : wmod.imports[k]? with
    | none =>
      rw [himp] at h
      cases h
    | some imp =>
      rw [himp] at h
      cases h
      rfl
  · rename_i hge
    rw [if_neg hge]
    obtain ⟨index, hindex, rfl⟩ := map_eq_some_iff.1 (Option.some.inj h)
    rw [hindex]
    rfl

end Space

/-- What declaring the functions has made of the module. -/
structure Declared (b : BuiltinTypes) (names : List CStr) (m : LrModule) : Prop where
  builtin : m.builtin = b
  wellFormed : WellFormed m.symbols
  bound : m.symbols.symbolIndex.length ≤ 2 ^ 31
  symbols : m.symbols.symbolNames = firstSeen names
  known : ∀ f ∈ m.funcs, f.name ∈ names
  noInsts : ∀ f ∈ m.funcs, f.blocks.flatMap LrBlock.insts = []

section Declaring
variable {b : BuiltinTypes} {names : List CStr} {m m' : LrModule}

theorem Declared.insts (h : Declared b names m) : m.insts = [] := by
  rw [LrModule.insts, flatMap_eq_nil_iff]
  exact h.noInsts

theorem Declared.update (h : Declared b names m) (i : Nat) (change : LrFunc → LrFunc)
    (hname : ∀ f, (change f).name = f.name)
    (hinsts : ∀ f, (change f).blocks.flatMap LrBlock.insts = f.blocks.flatMap LrBlock.insts) :
    Declared b names (updateFunc m i change) := by
  have hfuncs : ∀ f ∈ (updateFunc m i change).funcs, ∃ f₀ ∈ m.funcs, f = f₀ ∨ f = change f₀ := by
    intro f hf
    obtain ⟨j, hj, rfl⟩ := getElem_of_mem hf
    have hj' : j < m.funcs.length := by simpa [updateFunc] using hj
    refine ⟨m.funcs[j], getElem_mem hj', ?_⟩
    simp only [updateFunc, getElem_modify]
    split
    · exact .inr rfl
    · exact .inl rfl
  refine ⟨h.builtin, h.wellFormed, h.bound, h.symbols, ?_, ?_⟩
  · intro f hf
    obtain ⟨f₀, hf₀, rfl | rfl⟩ := hfuncs f hf
    · exact h.known f hf₀
    · exact hname f₀ ▸ h.known f₀ hf₀
  · intro f hf
    obtain ⟨f₀, hf₀, rfl | rfl⟩ := hfuncs f hf
    · exact h.noInsts f hf₀
    · exact (hinsts f₀).trans (h.noInsts f₀ hf₀)

variable {params : List LrType}

theorem Declared.create {name : CStr} {ret : LrType} {vararg : Bool} {f : LrFunc}
    (h : Declared b names m) (hrun : lrFuncCreate m name ret params vararg = some (m', f)) :
    Declared b (names ++ [name]) m' := by
  obtain ⟨⟨symbols, id⟩, hintern, hm'⟩ := bind_eq_some_iff.1 hrun
  cases hm'
  obtain ⟨hwf, hbound, hnames, -⟩ := lrModuleInternSymbol_run h.wellFormed h.bound hintern
  refine ⟨h.builtin, hwf, hbound, ?_, ?_, ?_⟩
  · rw [hnames, h.symbols, firstSeen_append]
    rfl
  · intro f hf
    obtain hf | hf := mem_append.1 hf
    · exact mem_append_left _ (h.known f hf)
    · obtain rfl := mem_singleton.1 hf
      exact mem_append_right _ (mem_singleton_self name)
  · intro f hf
    obtain hf | hf := mem_append.1 hf
    · exact h.noInsts f hf
    · obtain rfl := mem_singleton.1 hf
      rfl

theorem Declared.declare {name : CStr} {ret : LrType} {vararg : Bool}
    (h : Declared b names m) (hrun : lrFuncDeclare m name ret params vararg = some m') :
    Declared b (names ++ [name]) m' := by
  rw [lrFuncDeclare] at hrun
  cases hfind : funcByName m name with
  | some i =>
    rw [hfind] at hrun
    cases hrun
    obtain ⟨f, -, hf, rfl⟩ := funcByName_some hfind
    have hknown := h.known f hf
    refine ⟨h.builtin, h.wellFormed, h.bound, ?_, ?_, h.noInsts⟩
    · rw [h.symbols, firstSeen_append, foldl_cons, foldl_nil, addName,
        if_pos (mem_firstSeen.2 hknown)]
    · exact fun f hf => mem_append_left _ (h.known f hf)
  | none =>
    rw [hfind] at hrun
    obtain ⟨⟨m₁, f⟩, hcreate, hm'⟩ := bind_eq_some_iff.1 hrun
    cases hm'
    exact (h.create hcreate).update _ _ (fun _ => rfl) fun _ => rfl

theorem declareImports_spec {types : List FuncType} {imports : List Import}
    (h : Declared b names m) (hrun : declareImports types imports m = some (.ok m')) :
    Declared b (names ++ (importFuncs imports).map SpaceFunc.name) m' := by
  induction imports generalizing names m with
  | nil =>
    cases hrun
    rw [importFuncs, filter_nil, map_nil, map_nil, append_nil]
    exact h
  | cons imp imps ih =>
    rw [declareImports] at hrun
    by_cases hkind : imp.kind = 0
    · have hspace : importFuncs (imp :: imps) = importFunc imp :: importFuncs imps := by
        rw [importFuncs, filter_cons_of_pos (by simpa using hkind), map_cons]
        rfl
      rw [if_neg (not_not.2 hkind)] at hrun
      split at hrun
      · cases hrun
      · cases hrun
      · rename_i ft name htype hname
        obtain ⟨m₁, hdeclare, hrest⟩ := bind_eq_some_iff.1 hrun
        rw [hspace, map_cons, importFunc, hname, getD_some, append_cons]
        exact ih (h.declare hdeclare) hrest
    · have hspace : importFuncs (imp :: imps) = importFuncs imps := by
        rw [importFuncs, filter_cons_of_neg (by simpa using hkind)]
        rfl
      rw [if_pos hkind] at hrun
      rw [hspace]
      exact ih h hrun

theorem createFuncs_spec {wmod : WasmModule} {indices : List (BitVec 32)} {i : Nat}
    (h : Declared b names m) (hrun : createFuncs wmod indices i m = some (.ok m')) :
    Declared b (names ++ (definedFuncs wmod indices i).map SpaceFunc.name) m' := by
  induction indices generalizing names m i with
  | nil =>
    cases hrun
    rw [definedFuncs, map_nil, append_nil]
    exact h
  | cons typeIdx rest ih =>
    rw [createFuncs] at hrun
    split at hrun
    · cases hrun
    · rename_i ft htype
      obtain ⟨⟨m₁, f⟩, hcreate, hrest⟩ := bind_eq_some_iff.1 hrun
      have hentry := (h.create hcreate).update (m₁.funcs.length - 1)
        (blockCreate "entry".toUTF8.toList) (fun _ => rfl)
        fun f => by simp [blockCreate]
      rw [definedFuncs, map_cons, append_cons]
      exact ih hentry hrest

end Declaring

/-- The value type of the result, as the IR tells value types apart. -/
def resultKind (ft : FuncType) : Option UInt8 :=
  ft.results.head?.map fun vt => if vt ∈ [0x7E, 0x7D, 0x7C] then vt else 0x7F

/-- As many arguments, and the same result. -/
def SameShape (ft ft' : FuncType) : Prop :=
  ft.params.length = ft'.params.length ∧ resultKind ft = resultKind ft'

instance (ft ft' : FuncType) : Decidable (SameShape ft ft') := instDecidableAnd

theorem retType_eq (b : BuiltinTypes) (ft : FuncType) :
    ft.retType b = (resultKind ft).elim b.typeVoid (wasmToLrType b) := by
  unfold FuncType.retType resultKind
  cases ft.results with
  | nil => rfl
  | cons vt rest =>
    simp only [List.head?_cons, map_some, elim_some]
    split
    · rfl
    · rename_i hother
      simp only [mem_cons, not_mem_nil, or_false, not_or] at hother
      obtain ⟨hlong, hfloat, hdouble⟩ := hother
      simp [wasmToLrType, hlong, hfloat, hdouble]

/-- The value type a result type of a module stands for. -/
def typeKind : LrType → Option UInt8
  | .scalar _ .i32 => some 0x7F
  | .scalar _ .i64 => some 0x7E
  | .scalar _ .float => some 0x7D
  | .scalar _ .double => some 0x7C
  | _ => none

theorem typeKind_retType (addr : Nat) (ft : FuncType) :
    typeKind (ft.retType (lrModuleCreateTypes addr)) = resultKind ft := by
  unfold FuncType.retType resultKind
  cases ft.results with
  | nil => rfl
  | cons vt rest =>
    simp only [List.head?_cons, map_some, mem_cons, not_mem_nil, or_false, wasmToLrType]
    split_ifs <;> simp_all [typeKind, lrModuleCreateTypes]

/-- The result types of a module are told apart by their value types. -/
theorem retType_eq_iff (addr : Nat) (ft ft' : FuncType) :
    ft.retType (lrModuleCreateTypes addr) = ft'.retType (lrModuleCreateTypes addr) ↔
      resultKind ft = resultKind ft' := by
  constructor
  · intro heq
    rw [← typeKind_retType addr ft, heq, typeKind_retType]
  · intro heq
    rw [retType_eq, retType_eq, heq]

/-- The call goes to the `k`-th function of the index space: to its name, with as many
arguments as it takes, and with its result. -/
def Reaches (wmod : WasmModule) (built : Built) (k : Nat) (inst : LrInst) : Prop :=
  ∃ fn ft, (indexSpace wmod)[k]? = some fn ∧ wmod.types[fn.typeIdx]? = some ft ∧
    (inst.directCallee.bind (lrModuleSymbolName built.mod.symbols ·)) = some fn.name ∧
    inst.operands.length = ft.params.length + 1 ∧
    inst.type = some (ft.retType built.mod.builtin)

/-- The names up to that of the function are distinct, and the entry with its number has a
type of the shape of its type. -/
def Straight (wmod : WasmModule) (k : Nat) : Prop :=
  (((indexSpace wmod).map SpaceFunc.name).take (k + 1)).Nodup ∧
    ∃ ft ft', entryType wmod k = some ft ∧ spaceType wmod k = some ft' ∧ SameShape ft ft'
section Building
variable {data : Nat → UInt8} {wmod : WasmModule} {addr : Nat} {built : Built}

/-- What is built: the symbols are the names of the functions, the calls those of the bodies. -/
theorem build_converted (hrun : lrWasmBuildModule data wmod addr = some (.ok built)) :
    ∃ symbols : SymbolTable,
      symbols.symbolNames = firstSeen ((indexSpace wmod).map SpaceFunc.name) ∧
      Converted wmod (lrModuleCreateTypes addr) symbols built.mod built.calls := by
  have hempty : Declared (lrModuleCreateTypes addr) []
      { builtin := lrModuleCreateTypes addr, nextAddr := addr + 11 } :=
    ⟨rfl, wellFormed_empty, Nat.zero_le _, rfl, (fun _ hf => nomatch hf), (fun _ hf => nomatch hf)⟩
  obtain ⟨declared, hdeclare, hrest⟩ := bind_eq_some_iff.1 hrun
  cases declared with
  | error msg => cases hrest
  | ok m₁ =>
    have hdeclared := declareImports_spec hempty hdeclare
    obtain ⟨created, hcreate, hrest⟩ := bind_eq_some_iff.1 hrest
    cases created with
    | error msg => cases hrest
    | ok m₂ =>
      have hcreated := createFuncs_spec hdeclared hcreate
      have hnone : ∀ x, x ∉ m₂.insts := by
        rw [hcreated.insts]
        exact fun x hx => nomatch hx
      have hstart : Converted wmod (lrModuleCreateTypes addr) m₂.symbols m₂ [] :=
        ⟨hcreated.builtin, rfl, (fun p hp => nomatch hp), fun x hx => absurd hx (hnone x)⟩
      refine ⟨m₂.symbols, ?_, convertBodies_keeps data hstart hrest⟩
      rw [hcreated.symbols, nil_append, indexSpace, map_append]

/-- The symbol with the number of a function has its name while the names are distinct. -/
theorem symbolName_iff {symbols : SymbolTable} {k : Nat} {fn : SpaceFunc}
    (hsymbols : symbols.symbolNames = firstSeen ((indexSpace wmod).map SpaceFunc.name))
    (hfn : (indexSpace wmod)[k]? = some fn) :
    lrModuleSymbolName symbols k = some fn.name ↔
      (((indexSpace wmod).map SpaceFunc.name).take (k + 1)).Nodup := by
  have hname : ((indexSpace wmod).map SpaceFunc.name)[k]? = some fn.name := by
    rw [List.getElem?_map, hfn]
    rfl
  rw [symbolName_eq, hsymbols, ← hname]
  exact getElem?_firstSeen_iff (List.getElem?_eq_some_iff.1 hname).1

/-- Every call of the module built comes from a call of a body, and it goes to the function
the index names exactly if no two functions up to that one share a name and the entry of the
imports with the index has a type with as many parameters and the result of the function. -/
theorem calls_reach_iff (hrun : lrWasmBuildModule data wmod addr = some (.ok built)) :
    (∀ inst ∈ built.mod.insts, inst.op = .call → ∃ k, (k, inst) ∈ built.calls) ∧
      ∀ k inst, (k, inst) ∈ built.calls → (Reaches wmod built k inst ↔ Straight wmod k) := by
  obtain ⟨symbols, hsymbols, hconverted⟩ := build_converted hrun
  refine ⟨hconverted.all, ?_⟩
  intro k inst hcall
  have hmade : MadeOf wmod (lrModuleCreateTypes addr) k inst := (hconverted.made _ hcall).1
  obtain ⟨typeIdx, ft, dest, args, hidx, htype, hargs, rfl⟩ := hmade
  have hentry : entryType wmod k = some ft := (entryType_of_callee hidx).trans htype
  unfold Reaches Straight
  rw [hconverted.builtin, hconverted.symbols]
  constructor
  · intro h
    obtain ⟨fn, ft', hfn, htype', hname, hcount, hret⟩ := h
    refine ⟨(symbolName_iff hsymbols hfn).1 hname, ft, ft', hentry, ?_, ?_, ?_⟩
    · rw [spaceType, hfn]
      exact htype'
    · change args.length + 1 = ft'.params.length + 1 at hcount
      omega
    · exact (retType_eq_iff addr ft ft').1 (Option.some.inj hret)
  · intro h
    obtain ⟨hnodup, ft₁, ft', hft₁, hspace, hcount, hkind⟩ := h
    obtain rfl : ft = ft₁ := Option.some.inj (hentry.symm.trans hft₁)
    obtain ⟨fn, hfn, htype'⟩ := bind_eq_some_iff.1 hspace
    refine ⟨fn, ft', hfn, htype', (symbolName_iff hsymbols hfn).2 hnodup, ?_, ?_⟩
    · change args.length + 1 = ft'.params.length + 1
      omega
    · exact congrArg some ((retType_eq_iff addr ft ft').2 hkind)

end Building

def dataOf (bytes : List UInt8) : Nat → UInt8 := fun i => bytes.getD i 0

/-- The bytes are decoded, and the module is built. -/
def buildBytes (bytes : List UInt8) (addr : Nat) : Option (WasmModule × Built) :=
  match lrWasmDecode (dataOf bytes) bytes.length with
  | some (some wmod, _) =>
    match lrWasmBuildModule (dataOf bytes) wmod addr with
    | some (.ok built) => some (wmod, built)
    | _ => none
  | _ => none

theorem buildBytes_run {bytes : List UInt8} {addr : Nat} {wmod : WasmModule} {built : Built}
    (h : buildBytes bytes addr = some (wmod, built)) :
    (∃ c, lrWasmDecode (dataOf bytes) bytes.length = some (some wmod, c)) ∧
      lrWasmBuildModule (dataOf bytes) wmod addr = some (.ok built) := by
  unfold buildBytes at h
  split at h
  · rename_i wmod' c hdecode
    split at h
    · rename_i built' hbuild
      cases h
      exact ⟨⟨c, hdecode⟩, hbuild⟩
    · cases h
  · cases h

/-- The types `() → ()` and `(i32) → i32`, the imports given, and a function that calls the
function 0 with a value on the stack. -/
def callingModule (imports : List UInt8) : List UInt8 :=
  [0x00, 0x61, 0x73, 0x6D, 0x01, 0x00, 0x00, 0x00,
    0x01, 0x09, 0x02, 0x60, 0x00, 0x00, 0x60, 0x01, 0x7F, 0x01, 0x7F] ++
  [0x02, UInt8.ofNat imports.length] ++ imports ++
  [0x03, 0x02, 0x01, 0x00, 0x0A, 0x09, 0x01, 0x07, 0x00, 0x41, 0x05, 0x10, 0x00, 0x1A, 0x0B]

/-- `m.f` of the type `(i32) → i32`. -/
def functionOnly : List UInt8 := callingModule [0x01, 0x01, 0x6D, 0x01, 0x66, 0x00, 0x01]

/-- The memory `m.m` in front of it. -/
def memoryFirst : List UInt8 :=
  callingModule [0x02, 0x01, 0x6D, 0x01, 0x6D, 0x02, 0x00, 0x01, 0x01, 0x6D, 0x01, 0x66, 0x00, 0x01]

theorem calls_reach_iff_functionOnly :
    ∃ wmod built, lrWasmBuildModule (dataOf functionOnly) wmod 0 = some (.ok built) ∧
      built.calls ≠ [] ∧
      ∀ k inst, (k, inst) ∈ built.calls → (Reaches wmod built k inst ↔ Straight wmod k) := by
  have hcalls : (buildBytes functionOnly 0).any (fun r => !r.2.calls.isEmpty) = true := by
    decide +kernel
  obtain ⟨⟨wmod, built⟩, hbuild, hsome⟩ := (any_eq_true _ _).1 hcalls
  have hrun := (buildBytes_run hbuild).2
  refine ⟨wmod, built, hrun, ?_, (calls_reach_iff hrun).2⟩
  intro hnil
  rw [hnil] at hsome
  cases hsome

/-- With a memory imported first, the call of `f` passes nothing and has no result. -/
theorem call_behind_memory :
    ∃ wmod built c inst,
      lrWasmDecode (dataOf memoryFirst) memoryFirst.length = some (some wmod, c) ∧
      lrWasmBuildModule (dataOf memoryFirst) wmod 0 = some (.ok built) ∧
      (0, inst) ∈ built.calls ∧ 0 < (indexSpace wmod).length ∧ ¬ Reaches wmod built 0 inst := by
  have hcalls : (buildBytes memoryFirst 0).any (fun r =>
      (r.2.calls.map fun p => (p.1, p.2.operands.length)) = [(0, 1)] ∧
        (spaceType r.1 0).map (fun ft => ft.params.length) = some 1) = true := by
    decide +kernel
  obtain ⟨⟨wmod, built⟩, hbuild, hsome⟩ := (any_eq_true _ _).1 hcalls
  obtain ⟨⟨c, hdecode⟩, hrun⟩ := buildBytes_run hbuild
  obtain ⟨hone, htype⟩ := of_decide_eq_true hsome
  obtain ⟨ft, hspace, hparams⟩ := map_eq_some_iff.1 htype
  obtain ⟨fn, hfn, hft⟩ := bind_eq_some_iff.1 hspace
  obtain ⟨⟨k, inst⟩, hcons, hhead⟩ := map_eq_singleton_iff.1 hone
  obtain ⟨rfl, hops⟩ := Prod.mk.inj hhead
  refine ⟨wmod, built, c, inst, hdecode, hrun, ?_, (List.getElem?_eq_some_iff.1 hfn).1, ?_⟩
  · rw [hcons]
    exact mem_singleton_self _
  · intro h
    obtain ⟨fn', ft', hfn', hft', -, hcount, -⟩ := h
    obtain rfl : fn = fn' := Option.some.inj (hfn.symm.trans hfn')
    obtain rfl : ft = ft' := Option.some.inj (hft.symm.trans hft')
    have hone : inst.operands.length = 1 := hops
    rw [hone, hparams] at hcount
    exact absurd hcount (by decide)

end Liric.Guarantees.WasmCalls
