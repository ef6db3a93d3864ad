import Liric.Guarantees.LexedText
import Liric.Guarantees.SymbolInterning
import Liric.Source.Ir.DumpNames

/-!
# Names in a dump

Functions and function types are defined under their names as they are, everything that refers to
them goes through the name that is shown. The two are the same, and no symbol takes the name of
another, as long as the symbols that are renamed are not defined that way and take free names.
-/
namespace Liric.Guarantees.DumpedNames
open List
open Lib (foldl_numeral)
open LexedText (digits_decimalName)
open SymbolInterning (WellFormed)
open Source.Ir
open Source.Jit (localTag strstr)
open Source.Ll (decimalName isDigitAscii isIdentChar spelled)

variable {name a b : CStr} {site : NameSite}

/-- A name in quotes, from behind the opening one on. -/
def unescapeName : CStr → CStr
  | [] => []
  | [c] => if c = 34 then [] else [c]
  | c :: d :: rest =>
    if c = 92 then d :: unescapeName rest
    else if c = 34 then []
    else c :: unescapeName (d :: rest)

/-- The name behind a sigil. -/
def spelledName (text : CStr) : CStr :=
  match text.tail with
  | [] => []
  | c :: rest => if c = 34 then unescapeName rest else c :: rest

theorem unescapeName_slash (c : UInt8) (rest : CStr) :
    unescapeName (92 :: c :: rest) = c :: unescapeName rest := by
  simp [unescapeName]

theorem unescapeName_cons {c : UInt8} {rest : CStr} (hquote : c ≠ 34) (hslash : c ≠ 92) :
    unescapeName (c :: rest) = c :: unescapeName rest := by
  cases rest <;> simp [unescapeName, hquote, hslash]

theorem unescapeName_escapeName (name : CStr) : unescapeName (escapeName name ++ [34]) = name := by
  induction name with
  | nil => simp [escapeName, unescapeName]
  | cons c name ih =>
    unfold escapeName
    split
    · rw [cons_append, cons_append, unescapeName_slash, ih]
    · next hplain =>
      obtain ⟨hquote, hslash⟩ := not_or.1 hplain
      rw [cons_append, unescapeName_cons hquote hslash, ih]

theorem spelledName_escaped (sigil : UInt8) (name : CStr) :
    spelledName (sigil :: printIrEscapedName name) = name := by
  simp [spelledName, printIrEscapedName, unescapeName_escapeName]

/-- Without quotes. -/
theorem spelledName_plain (sigil : UInt8) (h : name.head? ≠ some 34) :
    spelledName (sigil :: name) = name := by
  cases name with
  | nil => simp [spelledName]
  | cons c name =>
    have hquote : c ≠ 34 := by simpa using h
    simp [spelledName, hquote]

/-- A symbol without a name is printed as a question mark where it is defined. -/
def rawName (name : CStr) : CStr := if name = [] then [63] else name

theorem spelledName_raw (name : CStr) : spelledName (rawSite name).text = rawName name := by
  unfold rawSite printIrSymbolRef rawName
  cases name with
  | nil => decide
  | cons c name =>
    simp only [isEmpty_cons, Bool.false_eq_true, if_false, reduceCtorEq]
    rw [if_pos (by decide), singleton_append]
    split
    · next hplain =>
      refine spelledName_plain 64 ?_
      intro hquote
      simp only [irNameIsPlain, all_cons, Bool.and_eq_true] at hplain
      cases hquote
      exact absurd hplain.2.1 (by decide)
    · exact spelledName_escaped 64 _

section Module
variable (flags : BitVec 32) (m : LrModule)

theorem spelledName_display (name : CStr) :
    spelledName (displaySite flags m name).text = adjustedName flags m name := by
  unfold displaySite printDisplaySymbolRef
  simp only
  split
  · next hplain =>
    refine spelledName_plain 64 ?_
    intro hquote
    simp only [Bool.and_eq_true, all_eq_true] at hplain
    have hident := hplain.2 34 (mem_of_mem_head? hquote)
    exact absurd hident (by decide)
  · exact spelledName_escaped 64 _

/-- What stands behind `.__liric_local.` is not shown. -/
def Scoped (name : CStr) : Prop :=
  preservesScopedLocals flags = false ∧ (strstr name localTag).isSome = true

/-- The number behind the last dot grows by that of the siblings with `_data`. -/
def Moved (name : CStr) : Prop :=
  ∃ base suffix, numberedName (displaySymbolName flags name) = some (base, suffix) ∧ 0 < suffix ∧
    suffix ≤ uint32Max ∧ 0 < countSiblingDataSuffixes flags m base suffix ∧
    base.length + 32 < 4096

def Renamed (name : CStr) : Prop := Scoped flags name ∨ Moved flags m name

theorem strstr_some {haystack needle : CStr} {i : Nat} (h : strstr haystack needle = some i) :
    ∃ rest, haystack = haystack.take i ++ needle ++ rest := by
  have hhead : needle.isPrefixOf (haystack.drop i) = true := by
    have hfound := find?_some h
    exact hfound
  obtain ⟨rest, hrest⟩ := isPrefixOf_iff_prefix.1 hhead
  refine ⟨rest, ?_⟩
  rw [append_assoc, hrest, take_append_drop]

/-- The number of a name is what stands behind its last dot. -/
theorem numberedName_some {base : CStr} {suffix : Nat}
    (h : numberedName name = some (base, suffix)) :
    ∃ digits, name = base ++ 46 :: digits ∧ suffix = strtoul digits := by
  unfold numberedName displayNameLastDot at h
  split at h
  · next b digits hdot =>
    split at hdot
    · cases hdot
    · next c rest hdrop =>
      cases hdot
      split at h
      · cases h
        refine ⟨(name.reverse.takeWhile (· != 46)).reverse, ?_, rfl⟩
        have hc : c = 46 := by
          have hhead := head?_dropWhile_not (· != 46) name.reverse
          rw [hdrop] at hhead
          simpa using hhead
        have hwhole := takeWhile_append_dropWhile (p := (· != 46)) (l := name.reverse)
        have hback := congrArg reverse hwhole
        rw [hdrop, hc, reverse_append, reverse_cons, reverse_reverse] at hback
        rw [append_assoc, singleton_append] at hback
        exact hback.symm
      · cases h
  · cases h

theorem strtoul_decimalName {n : Nat} (h : n < 2 ^ 64) : strtoul (decimalName n) = n := by
  unfold strtoul decimalName
  rw [foldl_numeral]
  omega

theorem dot_not_mem_decimalName (n : Nat) : 46 ∉ decimalName n := by
  intro h
  have hdigit := digits_decimalName n 46 h
  exact absurd hdigit (by decide)

variable {flags m}

theorem displaySymbolName_unscoped (h : ¬ Scoped flags name) :
    displaySymbolName flags name = name := by
  unfold displaySymbolName
  split
  · rfl
  · next hflag =>
    cases htag : strstr name localTag with
    | none => rfl
    | some i => exact absurd ⟨by simpa using hflag, by simp [htag]⟩ h

theorem adjustedName_unmoved (h : ¬ Moved flags m name) :
    adjustedName flags m name = displaySymbolName flags name := by
  unfold adjustedName
  simp only
  split
  · next base suffix hnumber =>
    split
    · next hrange =>
      split
      · next hextra =>
        exact absurd ⟨base, suffix, hnumber, hrange.1, hrange.2, hextra.1, hextra.2⟩ h
      · rfl
    · rfl
  · rfl

theorem adjustedName_moved (h : Moved flags m name) :
    ∃ base suffix extra, numberedName (displaySymbolName flags name) = some (base, suffix) ∧
      suffix < 2 ^ 32 ∧ 0 < extra ∧ extra < 2 ^ 32 ∧
      adjustedName flags m name = base ++ 46 :: decimalName ((suffix + extra) % 2 ^ 32) := by
  obtain ⟨base, suffix, hnumber, hpos, hmax, hextra, hlength⟩ := h
  refine ⟨base, suffix, countSiblingDataSuffixes flags m base suffix, hnumber, ?_, hextra, ?_, ?_⟩
  · unfold uint32Max at hmax
    omega
  · exact Nat.mod_lt _ (by decide)
  · unfold adjustedName
    simp only [hnumber, if_pos (And.intro hpos hmax), if_pos (And.intro hextra hlength)]
    have hdot : spelled "." = [46] := by decide
    rw [hdot, append_assoc, singleton_append]

/-- The tag is cut off, and no number takes its place. -/
theorem adjustedName_ne_of_scoped (h : Scoped flags name) : adjustedName flags m name ≠ name := by
  intro hsame
  obtain ⟨i, hi⟩ := Option.isSome_iff_exists.1 h.2
  obtain ⟨rest, hname⟩ := strstr_some hi
  have hdisplay : displaySymbolName flags name = name.take i := by
    simp [displaySymbolName, h.1, hi]
  by_cases hmoved : Moved flags m name
  · obtain ⟨base, suffix, extra, hnumber, -, -, -, hadjusted⟩ := adjustedName_moved hmoved
    obtain ⟨digits, hparts, -⟩ := numberedName_some hnumber
    rw [hdisplay] at hparts
    have htail : decimalName ((suffix + extra) % 2 ^ 32) = digits ++ localTag ++ rest := by
      have hboth := (hadjusted.symm.trans hsame).trans hname
      rw [hparts, append_assoc, append_assoc, append_cancel_left_eq,
        cons_append, cons.injEq] at hboth
      rw [hboth.2, append_assoc]
    have hdot : (46 : UInt8) ∈ localTag := by decide
    refine dot_not_mem_decimalName ((suffix + extra) % 2 ^ 32) ?_
    rw [htail]
    exact mem_append_left _ (mem_append_right _ hdot)
  · have htag : localTag.length = 15 := by decide
    have hcut := (adjustedName_unmoved hmoved).symm.trans hsame
    rw [hdisplay] at hcut
    have hlength := congrArg List.length hname
    rw [hcut, length_append, length_append] at hlength
    omega

/-- The number that is printed is another one. -/
theorem adjustedName_ne_of_moved (hscoped : ¬ Scoped flags name) (h : Moved flags m name) :
    adjustedName flags m name ≠ name := by
  intro hsame
  obtain ⟨base, suffix, extra, hnumber, hsuffix, hpos, hextra, hadjusted⟩ := adjustedName_moved h
  rw [displaySymbolName_unscoped hscoped] at hnumber
  obtain ⟨digits, hparts, hvalue⟩ := numberedName_some hnumber
  have hdigits : decimalName ((suffix + extra) % 2 ^ 32) = digits := by
    have hboth := (hadjusted.symm.trans hsame).trans hparts
    rw [append_cancel_left_eq, cons.injEq] at hboth
    exact hboth.2
  rw [← hdigits, strtoul_decimalName (by omega)] at hvalue
  omega

theorem adjustedName_eq_iff (name : CStr) :
    adjustedName flags m name = name ↔ ¬ Renamed flags m name := by
  constructor
  · intro hsame hrenamed
    by_cases hscoped : Scoped flags name
    · exact adjustedName_ne_of_scoped hscoped hsame
    · exact adjustedName_ne_of_moved hscoped (hrenamed.resolve_left hscoped) hsame
  · intro hkept
    obtain ⟨hscoped, hmoved⟩ := not_or.1 hkept
    rw [adjustedName_unmoved hmoved, displaySymbolName_unscoped hscoped]

theorem adjustedName_empty : adjustedName flags m [] = [] := by
  rw [adjustedName_eq_iff]
  rintro (hscoped | ⟨base, suffix, hnumber, -⟩)
  · exact absurd hscoped.2 (by decide)
  · have hnone : numberedName (displaySymbolName flags []) = none := by
      rw [displaySymbolName_unscoped fun h => absurd h.2 (by decide)]
      decide
    rw [hnone] at hnumber
    cases hnumber

variable (flags m)

/-- The names that are printed as they are. -/
def rawNames : List CStr := (m.globals.filter isFuncGlobal).map (·.name) ++ m.funcs.map (·.name)

/-- The names that are printed as they are shown. -/
def shownNames : List CStr :=
  (m.globals.filter fun g => !isFuncGlobal g).map (·.name) ++ undeclaredCallTargets m ++
    (referenceSites flags m).map (·.symbol)

variable {flags m}

theorem operandSite_some {op : LrOperand} (h : operandSite flags m op = some site) :
    site = displaySite flags m site.symbol := by
  unfold operandSite at h
  split at h
  · obtain ⟨name, -, rfl⟩ := Option.map_eq_some_iff.1 h
    rfl
  · cases h

/-- A reference is printed as it is shown. -/
theorem reference_shown (h : site ∈ referenceSites flags m) :
    site = displaySite flags m site.symbol := by
  rcases mem_append.1 h with hglobal | hfunc
  · obtain ⟨g, -, hsite⟩ := mem_flatMap.1 hglobal
    unfold globalReferences at hsite
    split at hsite
    · cases hsite
    · split at hsite
      · obtain ⟨r, -, rfl⟩ := mem_map.1 hsite
        rfl
      · cases hsite
  · obtain ⟨f, -, hsite⟩ := mem_flatMap.1 hfunc
    unfold funcReferences at hsite
    split at hsite
    · obtain ⟨op, -, hop⟩ := mem_filterMap.1 hsite
      exact operandSite_some hop
    · cases hsite

theorem mem_definitionSites :
    site ∈ definitionSites flags m ↔
      (∃ name ∈ rawNames m, site = rawSite name) ∨
        ∃ name ∈ (m.globals.filter fun g => !isFuncGlobal g).map (·.name) ++
          undeclaredCallTargets m, site = displaySite flags m name := by
  have hglobals : site ∈ m.globals.map (globalDefinition flags m) ↔
      (∃ g ∈ m.globals, isFuncGlobal g = true ∧ site = rawSite g.name) ∨
        ∃ g ∈ m.globals, isFuncGlobal g = false ∧ site = displaySite flags m g.name := by
    simp only [mem_map, globalDefinition]
    constructor
    · rintro ⟨g, hg, rfl⟩
      cases hfunc : isFuncGlobal g with
      | true => exact Or.inl ⟨g, hg, hfunc, by simp⟩
      | false => exact Or.inr ⟨g, hg, hfunc, by simp⟩
    · rintro (⟨g, hg, hfunc, rfl⟩ | ⟨g, hg, hfunc, rfl⟩)
      · exact ⟨g, hg, by simp [hfunc]⟩
      · exact ⟨g, hg, by simp [hfunc]⟩
  simp only [definitionSites, rawNames, mem_append, hglobals, mem_map, mem_filter,
    funcDefinition, Bool.not_eq_true']
  grind

theorem mem_sites :
    site ∈ definitionSites flags m ++ referenceSites flags m ↔
      (∃ name ∈ rawNames m, site = rawSite name) ∨
        ∃ name ∈ shownNames flags m, site = displaySite flags m name := by
  have hreferences : site ∈ referenceSites flags m ↔
      ∃ name ∈ (referenceSites flags m).map (·.symbol), site = displaySite flags m name := by
    constructor
    · intro h
      exact ⟨site.symbol, mem_map_of_mem h, reference_shown h⟩
    · rintro ⟨name, hname, rfl⟩
      obtain ⟨other, hother, rfl⟩ := mem_map.1 hname
      rw [← reference_shown hother]
      exact hother
  rw [mem_append, mem_definitionSites, hreferences, shownNames]
  simp only [mem_append]
  grind

variable (flags m)

/-- A symbol is defined under the name that refers to it. -/
def Consistent : Prop :=
  ∀ site ∈ definitionSites flags m, ∀ use ∈ referenceSites flags m,
    use.symbol = site.symbol → spelledName use.text = spelledName site.text

/-- No symbol has the name of another. -/
def Distinct : Prop :=
  ∀ a ∈ definitionSites flags m ++ referenceSites flags m,
    ∀ b ∈ definitionSites flags m ++ referenceSites flags m,
      a.symbol ≠ b.symbol → spelledName a.text ≠ spelledName b.text

structure NamesFit : Prop where
  /-- A function that is referred to has a name, and it is shown as it is. -/
  kept : ∀ name ∈ rawNames m, name ∈ (referenceSites flags m).map (·.symbol) →
    name ≠ [] ∧ ¬ Renamed flags m name
  /-- The new name of a renamed symbol is free. -/
  free : ∀ name ∈ shownNames flags m, Renamed flags m name →
    (∀ other ∈ shownNames flags m, other ≠ name →
      adjustedName flags m other ≠ adjustedName flags m name) ∧
    ∀ other ∈ rawNames m, other ≠ name → rawName other ≠ adjustedName flags m name
  /-- If a function has no name, there is no symbol `?`. -/
  named : [] ∈ rawNames m → [63] ∉ rawNames m ∧
    ∀ name ∈ shownNames flags m, name ≠ [] → adjustedName flags m name ≠ [63]

variable {flags m}

theorem consistent_iff : Consistent flags m ↔
    ∀ name ∈ rawNames m, name ∈ (referenceSites flags m).map (·.symbol) →
      name ≠ [] ∧ ¬ Renamed flags m name := by
  have hraw : ∀ name, adjustedName flags m name = rawName name ↔
      name ≠ [] ∧ ¬ Renamed flags m name := by
    intro name
    cases name with
    | nil => simp [adjustedName_empty, rawName]
    | cons c rest => simp [rawName, adjustedName_eq_iff]
  constructor
  · intro h name hname hused
    obtain ⟨use, huse, rfl⟩ := mem_map.1 hused
    have hsite : rawSite use.symbol ∈ definitionSites flags m :=
      mem_definitionSites.2 (Or.inl ⟨_, hname, rfl⟩)
    have hsame := h (rawSite use.symbol) hsite use huse rfl
    rw [reference_shown huse, spelledName_raw, spelledName_display] at hsame
    exact (hraw _).1 hsame
  · intro h site hsite use huse hsymbol
    rw [reference_shown huse, spelledName_display]
    rcases mem_definitionSites.1 hsite with ⟨name, hname, rfl⟩ | ⟨name, hname, rfl⟩
    · have hused : use.symbol ∈ (referenceSites flags m).map (·.symbol) := mem_map_of_mem huse
      rw [spelledName_raw]
      rw [show use.symbol = name from hsymbol] at hused ⊢
      exact (hraw name).2 (h name hname hused)
    · rw [spelledName_display]
      rw [show use.symbol = name from hsymbol]

theorem rawName_ne (h : a ≠ b) (ha : a = [] → b ≠ [63]) (hb : b = [] → a ≠ [63]) :
    rawName a ≠ rawName b := by
  unfold rawName
  split <;> split <;> grind

section Distinct
variable (h : Distinct flags m)
include h

theorem distinct_shown (ha : a ∈ shownNames flags m) (hb : b ∈ shownNames flags m) (hne : a ≠ b) :
    adjustedName flags m a ≠ adjustedName flags m b := by
  have hsites := h (displaySite flags m a) (mem_sites.2 (Or.inr ⟨a, ha, rfl⟩))
    (displaySite flags m b) (mem_sites.2 (Or.inr ⟨b, hb, rfl⟩)) hne
  rwa [spelledName_display, spelledName_display] at hsites

theorem distinct_raw (ha : a ∈ rawNames m) (hb : b ∈ rawNames m) (hne : a ≠ b) :
    rawName a ≠ rawName b := by
  have hsites := h (rawSite a) (mem_sites.2 (Or.inl ⟨a, ha, rfl⟩)) (rawSite b)
    (mem_sites.2 (Or.inl ⟨b, hb, rfl⟩)) hne
  rwa [spelledName_raw, spelledName_raw] at hsites

theorem distinct_rawShown (ha : a ∈ rawNames m) (hb : b ∈ shownNames flags m) (hne : a ≠ b) :
    rawName a ≠ adjustedName flags m b := by
  have hsites := h (rawSite a) (mem_sites.2 (Or.inl ⟨a, ha, rfl⟩)) (displaySite flags m b)
    (mem_sites.2 (Or.inr ⟨b, hb, rfl⟩)) hne
  rwa [spelledName_raw, spelledName_display] at hsites

end Distinct

section Fit
variable (h : NamesFit flags m)
include h

theorem fit_shown (ha : a ∈ shownNames flags m) (hb : b ∈ shownNames flags m) (hne : a ≠ b) :
    adjustedName flags m a ≠ adjustedName flags m b := by
  by_cases hfirst : Renamed flags m a
  · exact ((h.free a ha hfirst).1 b hb hne.symm).symm
  by_cases hsecond : Renamed flags m b
  · exact (h.free b hb hsecond).1 a ha hne
  · rw [(adjustedName_eq_iff a).2 hfirst, (adjustedName_eq_iff b).2 hsecond]
    exact hne

theorem fit_raw (ha : a ∈ rawNames m) (hb : b ∈ rawNames m) (hne : a ≠ b) :
    rawName a ≠ rawName b := by
  refine rawName_ne hne ?_ ?_
  · rintro rfl rfl
    exact (h.named ha).1 hb
  · rintro rfl rfl
    exact (h.named hb).1 ha

theorem fit_rawShown (ha : a ∈ rawNames m) (hb : b ∈ shownNames flags m) (hne : a ≠ b) :
    rawName a ≠ adjustedName flags m b := by
  by_cases hrenamed : Renamed flags m b
  · exact (h.free b hb hrenamed).2 a ha hne
  · have hsame := (adjustedName_eq_iff b).2 hrenamed
    unfold rawName
    split
    · next hempty =>
      subst hempty
      exact ((h.named ha).2 b hb (Ne.symm hne)).symm
    · rw [hsame]
      exact hne

theorem distinct_of_fit : Distinct flags m := by
  intro a ha b hb hne
  rcases mem_sites.1 ha with ⟨name, hname, rfl⟩ | ⟨name, hname, rfl⟩ <;>
    rcases mem_sites.1 hb with ⟨other, hother, rfl⟩ | ⟨other, hother, rfl⟩
  · rw [spelledName_raw, spelledName_raw]
    exact fit_raw h hname hother hne
  · rw [spelledName_raw, spelledName_display]
    exact fit_rawShown h hname hother hne
  · rw [spelledName_display, spelledName_raw]
    exact (fit_rawShown h hother hname (Ne.symm hne)).symm
  · rw [spelledName_display, spelledName_display]
    exact fit_shown h hname hother hne

end Fit

theorem fit_of_distinct (hconsistent : Consistent flags m) (h : Distinct flags m) :
    NamesFit flags m where
  kept := consistent_iff.1 hconsistent
  free name hname _ :=
    ⟨fun _ hother hne => distinct_shown h hother hname hne,
      fun _ hother hne => distinct_rawShown h hother hname hne⟩
  named hempty := by
    refine ⟨fun hmark => distinct_raw h hempty hmark (by decide) (by decide), ?_⟩
    intro name hname hne hmark
    refine distinct_rawShown h hempty hname (Ne.symm hne) ?_
    rw [hmark]
    rfl

/-- The names of a dump are consistent and distinct if and only if they fit. -/
theorem namesFit_iff (flags : BitVec 32) (m : LrModule) :
    Consistent flags m ∧ Distinct flags m ↔ NamesFit flags m :=
  ⟨fun h => fit_of_distinct h.1 h.2, fun h => ⟨consistent_iff.2 h.kept, distinct_of_fit h⟩⟩

end Module

/-- A function with a scoped name, and one that calls it. -/
def scopedCall : LrModule where
  funcs :=
    [{ name := spelled "f.__liric_local.0"
       symbolId := 0
       type := .func 20 (.scalar 0 .void) [] false
       retType := .scalar 0 .void
       paramTypes := []
       vararg := false
       blocks := [{ name := spelled "entry", id := 0,
                    insts := [lrInstCreate .retVoid none 0 []] }]
       numBlocks := 1 },
     { name := spelled "main"
       symbolId := 1
       type := .func 21 (.scalar 0 .void) [] false
       retType := .scalar 0 .void
       paramTypes := []
       vararg := false
       blocks := [{ name := spelled "entry", id := 0,
                    insts := [lrInstCreate .call (some (.scalar 0 .void)) 0 [lrOpGlobal 0 none],
                              lrInstCreate .retVoid none 0 []] }]
       numBlocks := 1 }]
  symbols := ((internAll .empty [spelled "f.__liric_local.0", spelled "main"]).map
    Prod.fst).getD .empty
  builtin := lrModuleCreateTypes 0
  nextAddr := 22

/-- The call is printed as one of `@f`. -/
theorem scoped_misses : ¬ (Consistent 0 scopedCall ∧ Distinct 0 scopedCall) := by
  unfold Consistent
  intro h
  have hnames : ∃ site ∈ definitionSites 0 scopedCall, ∃ use ∈ referenceSites 0 scopedCall,
      use.symbol = site.symbol ∧ spelledName use.text ≠ spelledName site.text := by
    decide +kernel
  obtain ⟨site, hsite, use, huse, hsymbol, hne⟩ := hnames
  exact hne (h.1 site hsite use huse hsymbol)

end Liric.Guarantees.DumpedNames
