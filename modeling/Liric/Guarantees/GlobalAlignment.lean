import Liric.Guarantees.ElfExecutable
import Liric.Guarantees.ElfRelocatable
import Liric.Source.Object.BuildData
import Liric.Source.Object.ElfDynamic
import Mathlib.Data.Nat.Prime.Basic

/-!
# The alignment of globals in the output

An offset in the data buffer fits a type only as far as the address of the data does: 16 in the
static executable, 8 in the dynamic one and for the linker. A name that is defined twice
stays where its first definition is.
-/
namespace Liric.Guarantees.GlobalAlignment
open Lib Source Source.Object Option List
open Source.Ir (CStr LrGlobal LrReloc alignUp)
open ElfExecutable (dataBase dataBase_mod)
open ElfRelocatable (dataSection)

variable {g : LrGlobal} {n : CStr} {place : UInt8 × BitVec 32} {out out' : ObjBuildResult}

/-- The address fits the type, and pointers that stand in the global. -/
def Aligned (g : LrGlobal) (addr : Nat) : Prop :=
  (typeAlign g.type).toNat ∣ addr ∧ (g.relocs ≠ [] → 8 ∣ addr)

/-- The addresses of a symbol in the static executable, in the dynamic one, and in a link that
puts the data section of the object at a multiple of its alignment. -/
structure AlignedEverywhere (entrySymbol : CStr) (out : ObjBuildResult) (g : LrGlobal)
    (sym : ObjSymbol) : Prop where
  static : ∀ dataRuntimeSize,
    let l := execLayout (startStubX8664 entrySymbol).length out.code.length dataRuntimeSize
    ∀ addr ∈ sectionAddr l.codeVaddr l.dataVaddr sym, Aligned g addr
  dynamic :
    let l := dynamicLayout out.code.length out.data.length out.ctx entrySymbol
    ∀ addr ∈ sectionAddr l.codeVaddr l.userDataVaddr sym, Aligned g addr
  linked : ∀ base, (dataSection out.code out.data out.ctx).addralign ∣ base →
    Aligned g (base + symValue sym)

def symbolNamed (oc : ObjfileCtx) (name : CStr) : Option ObjSymbol :=
  oc.symbols.find? fun sym => sym.name == name

/-- The name stands for data, at an address that fits the global everywhere. -/
def HasAlignedAddress (remap : CStr → CStr) (entrySymbol : CStr) (out : ObjBuildResult)
    (g : LrGlobal) : Prop :=
  ∃ sym, symbolNamed out.ctx (remap g.name) = some sym ∧ sym.isDefined = true ∧
    sym.sectionId = 2 ∧ AlignedEverywhere entrySymbol out g sym

theorem Aligned.add {base off : Nat} (hoff : Aligned g off) (halign : (typeAlign g.type).toNat ∣ 8)
    (hbase : 8 ∣ base) : Aligned g (base + off) :=
  ⟨Nat.dvd_add (Nat.dvd_trans halign hbase) hoff.1,
    fun hrelocs => Nat.dvd_add hbase (hoff.2 hrelocs)⟩

def placeOf (sym : ObjSymbol) : Option (UInt8 × BitVec 32) :=
  if sym.isDefined then some (sym.sectionId, sym.offset) else none

/-- The section and the offset that the name is defined at. -/
def definitionPlace (oc : ObjfileCtx) (name : CStr) : Option (UInt8 × BitVec 32) :=
  (symbolNamed oc name).bind placeOf

theorem find?_modify {α : Type} {p : α → Bool} {f : α → α} (hf : ∀ a, p (f a) = p a)
    (l : List α) (i : Nat) :
    (l.modify i f).find? p =
      if l.findIdx? p = some i then (l.find? p).map f else l.find? p := by
  induction l generalizing i with
  | nil => simp
  | cons a l ih =>
    cases i with
    | zero =>
      rw [modify_zero_cons, find?_cons, hf, findIdx?_cons, find?_cons]
      cases p a <;> simp
    | succ i =>
      rw [modify_succ_cons, find?_cons, findIdx?_cons, find?_cons]
      cases p a with
      | true => simp
      | false => simpa using ih i

theorem definitionPlace_modify {f : ObjSymbol → ObjSymbol} (hname : ∀ sym, (f sym).name = sym.name)
    (hplace : ∀ sym, placeOf (f sym) = placeOf sym) (oc : ObjfileCtx) (i : Nat) (name : CStr) :
    definitionPlace { oc with symbols := oc.symbols.modify i f } name =
      definitionPlace oc name := by
  rw [definitionPlace, symbolNamed, definitionPlace, symbolNamed,
    find?_modify (fun sym => by rw [hname])]
  split
  · cases oc.symbols.find? fun sym => sym.name == name with
    | none => rfl
    | some sym => exact hplace sym
  · rfl

theorem placeOf_defineSymbol (isDefined : Bool) (sectionId : UInt8) (offset : BitVec 32)
    (sym : ObjSymbol) :
    placeOf (defineSymbol isDefined sectionId offset sym) =
      (placeOf sym).or (if isDefined then some (sectionId, offset) else none) := by
  rw [defineSymbol, placeOf, placeOf]
  cases isDefined <;> cases hdef : sym.isDefined <;> cases objSymbolShouldBeWeak sym.name <;>
    simp [hdef]

theorem name_defineSymbol (isDefined : Bool) (sectionId : UInt8) (offset : BitVec 32)
    (sym : ObjSymbol) : (defineSymbol isDefined sectionId offset sym).name = sym.name := by
  rw [defineSymbol]
  cases isDefined <;> cases hdef : sym.isDefined <;> cases objSymbolShouldBeWeak sym.name <;>
    simp [hdef]

theorem symbolNamed_append (oc : ObjfileCtx) (sym : ObjSymbol) (name : CStr) :
    symbolNamed { oc with symbols := oc.symbols ++ [sym] } name =
      (symbolNamed oc name).or (if sym.name = name then some sym else none) := by
  rw [symbolNamed, symbolNamed, find?_append, find?_singleton]
  simp only [beq_iff_eq]

section Ensure
variable (remap : CStr → CStr) (oc : ObjfileCtx) (name : CStr) (isDefined : Bool)
  (sectionId : UInt8) (offset : BitVec 32)

/-- What `lr_obj_ensure_symbol` may change about a definition: the name gets one. -/
theorem definitionPlace_ensure (n : CStr) :
    definitionPlace (lrObjEnsureSymbol remap oc name isDefined sectionId offset).1 n =
      (definitionPlace oc n).or
        (if remap name = n ∧ isDefined then some (sectionId, offset) else none) := by
  rw [lrObjEnsureSymbol]
  cases hfound : oc.symbols.findIdx? fun sym => sym.name == remap name with
  | some i =>
    obtain ⟨hi, hname, -⟩ := findIdx?_eq_some_iff_getElem.mp hfound
    rw [definitionPlace, symbolNamed, find?_modify (fun sym => by rw [name_defineSymbol]),
      definitionPlace, symbolNamed]
    by_cases hn : remap name = n
    · subst hn
      have hsome : (oc.symbols.find? fun sym => sym.name == remap name).isSome = true :=
        find?_isSome.mpr ⟨oc.symbols[i], getElem_mem hi, hname⟩
      obtain ⟨sym, hsym⟩ := isSome_iff_exists.mp hsome
      have hplace := placeOf_defineSymbol isDefined sectionId offset sym
      rw [if_pos hfound, hsym]
      simpa using hplace
    · have hother : ¬ (oc.symbols.findIdx? fun sym => sym.name == n) = some i := by
        intro hsame
        obtain ⟨_, hname', -⟩ := findIdx?_eq_some_iff_getElem.mp hsame
        exact hn ((eq_of_beq hname).symm.trans (eq_of_beq hname'))
      rw [if_neg hother, if_neg (fun h => hn h.1), or_none]
  | none =>
    rw [definitionPlace, symbolNamed_append, definitionPlace]
    by_cases hn : remap name = n
    · have hnone : symbolNamed oc n = none := by
        rw [symbolNamed, find?_eq_none]
        intro sym hsym
        rw [findIdx?_eq_none_iff] at hfound
        rw [← hn, hfound sym hsym]
        exact Bool.false_ne_true
      simp [hn, hnone, placeOf]
    · simp [hn]

/-- A definition stays. -/
theorem definitionPlace_ensure_keeps (h : definitionPlace oc n = some place) :
    definitionPlace (lrObjEnsureSymbol remap oc name isDefined sectionId offset).1 n =
      some place := by
  rw [definitionPlace_ensure, h, some_or]

end Ensure

section Build
variable {remap relocName : CStr → CStr} {abs64Reloc : UInt8}

theorem definitionPlace_congr {oc oc' : ObjfileCtx} (h : oc'.symbols = oc.symbols) (n : CStr) :
    definitionPlace oc' n = definitionPlace oc n := by
  rw [definitionPlace, symbolNamed, h, definitionPlace, symbolNamed]

theorem copyInit_frame (g : LrGlobal) (gsize : Ir.SizeT) (out : ObjBuildResult) :
    (copyInit g gsize out).ctx = out.ctx ∧ (copyInit g gsize out).dataPos = out.dataPos := by
  rw [copyInit]
  split
  · exact ⟨rfl, rfl⟩
  · split <;> exact ⟨rfl, rfl⟩

theorem symbols_buildReloc (gsize : Ir.SizeT) (out : ObjBuildResult) (rel : LrReloc) :
    (buildReloc remap relocName abs64Reloc gsize out rel).ctx.symbols =
      (lrObjEnsureSymbol remap out.ctx (relocName rel.symbolName) false 0 0).1.symbols := by
  simp only [buildReloc]
  split <;> rfl

theorem buildRelocs_keep (gsize : Ir.SizeT) (rels : List LrReloc) (out : ObjBuildResult)
    (h : definitionPlace out.ctx n = some place) :
    definitionPlace (rels.foldl (buildReloc remap relocName abs64Reloc gsize) out).ctx n =
      some place := by
  induction rels generalizing out with
  | nil => exact h
  | cons rel rels ih =>
    apply ih
    rw [definitionPlace_congr (symbols_buildReloc gsize out rel)]
    exact definitionPlace_ensure_keeps remap out.ctx _ false 0 0 h

theorem definitionPlace_defineGlobal (g : LrGlobal) (out : ObjBuildResult) (n : CStr) :
    definitionPlace (defineGlobal remap g out).ctx n =
      (definitionPlace out.ctx n).or
        (if remap g.name = n then some (2, out.dataPos.setWidth 32) else none) := by
  have hensure := definitionPlace_ensure remap out.ctx g.name true 2 (out.dataPos.setWidth 32) n
  have hflags : definitionPlace (defineGlobal remap g out).ctx n = definitionPlace
      (lrObjEnsureSymbol remap out.ctx g.name true 2 (out.dataPos.setWidth 32)).1 n :=
    definitionPlace_modify
      (f := fun sym => { sym with isLocal := g.isLocal, isWeak := sym.isWeak || g.isWeak })
      (fun _ => rfl) (fun _ => rfl) _ _ n
  rw [hflags, hensure]
  simp only [and_true]

section
variable (h : buildGlobal remap relocName abs64Reloc out g = some out')
include h

/-- The turn of a global that is not external: room, image, symbol, relocations. -/
theorem buildGlobal_defined (hdefined : g.isExternal = false) :
    ∃ filled : ObjBuildResult, filled.ctx = out.ctx ∧
      filled.dataPos = alignUp out.dataPos (globalAlign g) ∧
      out'.ctx = (g.relocs.foldl (buildReloc remap relocName abs64Reloc (globalSize g))
        (defineGlobal remap g filled)).ctx := by
  rw [buildGlobal, hdefined, if_neg Bool.false_ne_true] at h
  obtain ⟨grown, hgrown, hout⟩ := bind_eq_some_iff.mp h
  obtain ⟨cap, -, hcap⟩ := bind_eq_some_iff.mp hgrown
  obtain ⟨hctx, hpos⟩ := copyInit_frame g (globalSize g) grown
  cases hcap
  cases hout
  exact ⟨_, hctx, hpos, rfl⟩

/-- A definition stays through the turn of a global. -/
theorem buildGlobal_keeps (hn : definitionPlace out.ctx n = some place) :
    definitionPlace out'.ctx n = some place := by
  cases hexternal : g.isExternal with
  | true =>
    rw [buildGlobal, if_pos hexternal] at h
    cases h
    exact definitionPlace_ensure_keeps remap out.ctx g.name false 0 0 hn
  | false =>
    obtain ⟨filled, hctx, -, hout⟩ := buildGlobal_defined h hexternal
    rw [hout]
    apply buildRelocs_keep
    rw [definitionPlace_defineGlobal, hctx, hn, some_or]

/-- The name of a global is defined where it was, or else where its turn puts it. -/
theorem buildGlobal_place (hdefined : g.isExternal = false) :
    definitionPlace out'.ctx (remap g.name) =
      some ((definitionPlace out.ctx (remap g.name)).getD
        (2, (alignUp out.dataPos (globalAlign g)).setWidth 32)) := by
  obtain ⟨filled, hctx, hpos, hout⟩ := buildGlobal_defined h hdefined
  rw [hout]
  apply buildRelocs_keep
  rw [definitionPlace_defineGlobal, if_pos rfl, hctx, hpos]
  cases definitionPlace out.ctx (remap g.name) <;> rfl

end

theorem buildGlobals_keep {globals : List LrGlobal}
    (h : buildGlobals remap relocName abs64Reloc globals out = some out')
    (hn : definitionPlace out.ctx n = some place) :
    definitionPlace out'.ctx n = some place := by
  induction globals generalizing out with
  | nil =>
    cases h
    exact hn
  | cons g globals ih =>
    obtain ⟨next, hstep, hrest⟩ := bind_eq_some_iff.mp h
    exact ih hrest (buildGlobal_keeps hstep hn)

/-- A run in which a global has its turn. -/
theorem buildGlobals_split {pre post : List LrGlobal}
    (h : buildGlobals remap relocName abs64Reloc (pre ++ g :: post) out = some out') :
    ∃ mid next, buildGlobals remap relocName abs64Reloc pre out = some mid ∧
      buildGlobal remap relocName abs64Reloc mid g = some next ∧
      buildGlobals remap relocName abs64Reloc post next = some out' := by
  rw [buildGlobals, foldlM_append] at h
  obtain ⟨mid, hpre, hrest⟩ := bind_eq_some_iff.mp h
  obtain ⟨next, hstep, hpost⟩ := bind_eq_some_iff.mp hrest
  exact ⟨mid, next, hpre, hstep, hpost⟩

end Build

/-- A divisor of 8 is a power of two of at most three bits. -/
theorem dvd_eight {a : Nat} (h : a ∣ 8) : ∃ k ≤ 3, a = 2 ^ k :=
  (Nat.dvd_prime_pow Nat.prime_two).mp h

/-- The alignment of a global whose type has an alignment that divides 8. -/
theorem globalAlign_pow (h : (typeAlign g.type).toNat ∣ 8) :
    ∃ k ≤ 3, (globalAlign g).toNat = 2 ^ k ∧ Aligned g (2 ^ k) := by
  obtain ⟨k, hk, hpow⟩ := dvd_eight h
  have hne : typeAlign g.type ≠ 0 := by
    intro hzero
    rw [hzero] at hpow
    exact absurd hpow (Nat.ne_of_lt (Nat.two_pow_pos k))
  rw [globalAlign, if_neg hne]
  split
  · exact ⟨3, Nat.le_refl 3, rfl, h, fun _ => Nat.dvd_refl 8⟩
  · rename_i hlarge
    refine ⟨k, hk, hpow, hpow ▸ Nat.dvd_refl _, fun hrelocs => ?_⟩
    have hge : 8 ≤ 2 ^ k := by
      have hnlt := fun hlt => hlarge ⟨hrelocs, hlt⟩
      rw [BitVec.lt_def, hpow] at hnlt
      exact Nat.le_of_not_lt hnlt
    have hthree : 3 ≤ k := (Nat.pow_le_pow_iff_right (by decide : 1 < 2)).mp hge
    exact Nat.pow_dvd_pow 2 hthree

/-- The offset of a turn, which is cut to 32 bits. -/
theorem aligned_offset (h : (typeAlign g.type).toNat ∣ 8) (pos : Ir.SizeT) :
    Aligned g ((alignUp pos (globalAlign g)).setWidth 32).toNat := by
  obtain ⟨k, hk, hpow, halign, hrelocs⟩ := globalAlign_pow h
  have hoff : 2 ^ k ∣ ((alignUp pos (globalAlign g)).setWidth 32).toNat := by
    rw [BitVec.toNat_setWidth]
    exact (Nat.dvd_mod_iff (Nat.pow_dvd_pow 2 (by omega))).mpr (two_pow_dvd_mask pos _ hpow)
  exact ⟨Nat.dvd_trans halign hoff, fun hne => Nat.dvd_trans (hrelocs hne) hoff⟩

theorem dynamicData_mod (codeSize dataSize : Nat) (oc : ObjfileCtx) (entrySymbol : CStr) :
    8 ∣ (dynamicLayout codeSize dataSize oc entrySymbol).userDataVaddr := by
  rw [DynamicLayout.userDataVaddr]
  exact Nat.dvd_add (by decide) (Nat.dvd_of_mod_eq_zero (padUp_mod _ 3))

theorem staticData_mod (stub code : List UInt8) (dataRuntimeSize : Nat) :
    8 ∣ (execLayout stub.length code.length dataRuntimeSize).dataVaddr := by
  have hbase : 16 ∣ dataBase stub code := Nat.dvd_of_mod_eq_zero (dataBase_mod stub code)
  exact Nat.dvd_trans (by decide) hbase

/-- A data symbol is aligned everywhere at once: with the bases 0 and 8 the linker leaves no more
than 8 to the alignment, and the executables ask for no less. -/
theorem alignedEverywhere_iff (entrySymbol : CStr) (out : ObjBuildResult) (g : LrGlobal)
    {sym : ObjSymbol} (hdefined : sym.isDefined = true) (hdata : sym.sectionId = 2) :
    AlignedEverywhere entrySymbol out g sym ↔
      (typeAlign g.type).toNat ∣ 8 ∧ Aligned g sym.offset.toNat := by
  have hvalue : symValue sym = sym.offset.toNat := by rw [symValue, if_pos hdefined]
  have haddr : ∀ codeVaddr dataVaddr, sectionAddr codeVaddr dataVaddr sym =
      some (dataVaddr + sym.offset.toNat) := by
    intro codeVaddr dataVaddr
    rw [sectionAddr, hdata]
    rfl
  constructor
  · rintro ⟨-, -, hlinked⟩
    have hzero := hlinked 0 (Nat.dvd_zero _)
    have height := hlinked 8 (Nat.dvd_refl 8)
    rw [hvalue, Nat.zero_add] at hzero
    rw [hvalue] at height
    exact ⟨(Nat.dvd_add_left hzero.1).mp height.1, hzero⟩
  · rintro ⟨halign, hoff⟩
    constructor
    · intro dataRuntimeSize l addr hmem
      rw [haddr] at hmem
      cases hmem
      exact hoff.add halign (staticData_mod _ _ _)
    · intro l addr hmem
      rw [haddr] at hmem
      cases hmem
      exact hoff.add halign (dynamicData_mod _ _ _ _)
    · intro base hbase
      rw [hvalue]
      exact hoff.add halign hbase

theorem hasAlignedAddress_iff (remap : CStr → CStr) (entrySymbol : CStr)
    (h : definitionPlace out.ctx (remap g.name) = some place) :
    HasAlignedAddress remap entrySymbol out g ↔
      place.1 = 2 ∧ (typeAlign g.type).toNat ∣ 8 ∧ Aligned g place.2.toNat := by
  obtain ⟨sym, hsym, hplace⟩ := bind_eq_some_iff.mp h
  obtain ⟨hdefined, rfl⟩ : sym.isDefined = true ∧ (sym.sectionId, sym.offset) = place := by
    simpa [placeOf] using hplace
  constructor
  · rintro ⟨sym', hsym', -, hdata, haligned⟩
    cases hsym.symm.trans hsym'
    exact ⟨hdata, (alignedEverywhere_iff entrySymbol out g hdefined hdata).mp haligned⟩
  · rintro ⟨hdata, haligned⟩
    exact ⟨sym, hsym, hdefined, hdata,
      (alignedEverywhere_iff entrySymbol out g hdefined hdata).mpr haligned⟩

/-- For every run of the loop over the globals: a defined global is aligned everywhere if and only
if its type asks for no more than 8, and the definition that its name may have had before is one
of data, at an offset that fits the global. -/
theorem aligned_iff_small (remap relocName : CStr → CStr) (abs64Reloc : UInt8)
    (entrySymbol : CStr) {pre post : List LrGlobal} {g : LrGlobal} {start out : ObjBuildResult}
    (h : buildGlobals remap relocName abs64Reloc (pre ++ g :: post) start = some out)
    (hdefined : g.isExternal = false) :
    ∃ mid, buildGlobals remap relocName abs64Reloc pre start = some mid ∧
      (HasAlignedAddress remap entrySymbol out g ↔
        (typeAlign g.type).toNat ∣ 8 ∧
          ∀ place ∈ definitionPlace mid.ctx (remap g.name),
            place.1 = 2 ∧ Aligned g place.2.toNat) := by
  obtain ⟨mid, next, hpre, hstep, hpost⟩ := buildGlobals_split h
  have hplace := buildGlobals_keep hpost (buildGlobal_place hstep hdefined)
  refine ⟨mid, hpre, ?_⟩
  rw [hasAlignedAddress_iff remap entrySymbol hplace]
  cases definitionPlace mid.ctx (remap g.name) with
  | none =>
    constructor
    · rintro ⟨-, halign, -⟩
      exact ⟨halign, fun _ hmem => absurd hmem (by simp)⟩
    · rintro ⟨halign, -⟩
      exact ⟨rfl, halign, aligned_offset halign mid.dataPos⟩
  | some earlier =>
    constructor
    · rintro ⟨hdata, halign, hoff⟩
      refine ⟨halign, fun place hmem => ?_⟩
      cases hmem
      exact ⟨hdata, hoff⟩
    · rintro ⟨halign, hearlier⟩
      obtain ⟨hdata, hoff⟩ := hearlier earlier rfl
      exact ⟨hdata, halign, hoff⟩

/-- `@q = global fp128`, its name and type. -/
def quad : LrGlobal :=
  { name := [0x71], type := some (.scalar 0 .fp128), isConst := false, id := 0 }

def word : LrGlobal :=
  { name := [0x77], type := some (.scalar 0 .i64), isConst := false, id := 0 }

/-- The object of a module with one global. -/
def objectOf (g : LrGlobal) : ObjBuildResult :=
  { objBuildResultInit with
    dataPos := globalSize g
    hasData := true
    ctx := { relocs := [], dataRelocs := [], symbols := [{
      name := g.name, hash := Ir.symbolHash g.name, offset := 0, sectionId := 2
      isDefined := true, isLocal := false, isWeak := false }] } }

theorem word_aligned :
    word.isExternal = false ∧ HasAlignedAddress id mainName (objectOf word) word := by
  have hrun : buildGlobals id id lrRelocX866464 ([] ++ word :: []) objBuildResultInit =
      some (objectOf word) := rfl
  obtain ⟨mid, hmid, hiff⟩ := aligned_iff_small id id lrRelocX866464 mainName hrun rfl
  cases hmid
  refine ⟨rfl, hiff.mpr ⟨by decide, fun place hmem => ?_⟩⟩
  exact absurd hmem (by simp [definitionPlace, symbolNamed, objBuildResultInit])

/-- `fp128` asks for 16, the linker may put the data of the object at 8. -/
theorem quad_misaligned :
    ¬ ∀ (remap relocName : CStr → CStr) (abs64Reloc : UInt8) (entrySymbol : CStr)
      (pre post : List LrGlobal) (g : LrGlobal) (start out : ObjBuildResult),
      buildGlobals remap relocName abs64Reloc (pre ++ g :: post) start = some out →
      g.isExternal = false → HasAlignedAddress remap entrySymbol out g := by
  intro hclaim
  have hrun : buildGlobals id id lrRelocX866464 ([] ++ quad :: []) objBuildResultInit =
      some (objectOf quad) := rfl
  obtain ⟨sym, hsym, hdefined, hdata, haligned⟩ :=
    hclaim id id lrRelocX866464 mainName [] [] quad objBuildResultInit (objectOf quad) hrun rfl
  have halign :=
    ((alignedEverywhere_iff mainName (objectOf quad) quad hdefined hdata).mp haligned).1
  exact absurd halign (by decide)

end Liric.Guarantees.GlobalAlignment
