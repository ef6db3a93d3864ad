import Liric.Source.Compat.LlSymbols

/-!
# Symbols of the lines of a text

A text is made of lines that define or declare a function, define a global, declare an
external one, or do something else. The scan of a text is what its lines say, and stays
inside the buffer, exactly if a NUL stands behind each definition of a global and before
any ` external `: the search for that word does not end with the line.
-/
namespace Liric.Guarantees.LlSymbols
open Source.Compat List

/-- A name as it is written: its bytes, or its bytes in quotes. -/
inductive LlName where
  | plain (name : Name) (h : ∀ b ∈ name.val, b ≠ 0 ∧ b ≠ 10 ∧ endsPlainName b = false)
    (hq : name.val.head? ≠ some 34)
  | quoted (name : Name) (h : ∀ b ∈ name.val, b ≠ 0 ∧ b ≠ 10 ∧ b ≠ 34)

def LlName.name : LlName → Name
  | .plain name _ _ => name
  | .quoted name _ => name

def LlName.text : LlName → List UInt8
  | .plain name _ _ => 64 :: name.val
  | .quoted name _ => 64 :: 34 :: (name.val ++ [34])

/-- What stands in a line. -/
abbrev Part := { s : List UInt8 // 10 ∉ s }

inductive LlLine where
  /-- `define`, then anything without `@`, the name, `(` and the rest. -/
  | define (head : { s : Part // 64 ∉ s.val }) (name : LlName) (tail : Part)
  | declare (head : { s : Part // 64 ∉ s.val }) (name : LlName) (tail : Part)
  | global (name : LlName) (tail : { s : Part // ¬ externalWord.tail <+: s.val })
  | external (name : LlName) (tail : Part)
  | other (text : { s : Part // ∀ word ∈ [defineWord, declareWord, [64]], ¬ word <+: s.val })

namespace LlLine

def text : LlLine → List UInt8
  | .define head name tail => defineWord ++ 32 :: (head.val.val ++ name.text ++ 40 :: tail.val)
  | .declare head name tail => declareWord ++ 32 :: (head.val.val ++ name.text ++ 40 :: tail.val)
  | .global name tail => name.text ++ 32 :: 61 :: 32 :: tail.val.val
  | .external name tail => name.text ++ 32 :: 61 :: (externalWord ++ tail.val)
  | .other text => text.val.val

def defs : LlLine → StringList
  | .define _ name _ | .global name _ => [name.name]
  | _ => []

def undefs : LlLine → StringList
  | .declare _ name _ | .external name _ =>
    if symbolDrivesArchiveSelection name.name then [name.name] else []
  | _ => []

def isGlobal : LlLine → Bool
  | .global .. => true
  | _ => false

end LlLine

def textOf : List LlLine → List UInt8
  | [] => []
  | [l] => l.text
  | l :: ls => l.text ++ 10 :: textOf ls

/-- What stands behind the first line. -/
def restOf : List LlLine → List UInt8
  | [] => []
  | ls => 10 :: textOf ls

theorem textOf_cons (l : LlLine) (ls : List LlLine) : textOf (l :: ls) = l.text ++ restOf ls := by
  cases ls <;> simp [textOf, restOf]

/-- The names of the lines, each by its own line. -/
def saidBy (ls : List LlLine) (s : LlSymbols) : LlSymbols :=
  ⟨s.defs ++ ls.flatMap LlLine.defs, s.undefs ++ ls.flatMap LlLine.undefs⟩

/-- Behind every definition of a global a NUL comes before any ` external `. -/
def Clear : List LlLine → Prop
  | [] => True
  | l :: ls =>
    (l.isGlobal = true → strstrFinds externalWord (textOf (l :: ls)) = some false) ∧ Clear ls

section Line
variable {s s' : LlSymbols} {rest p : List UInt8} {stop : UInt8}

theorem scanName_append {stops : UInt8 → Bool} {name : List UInt8}
    (h : ∀ b ∈ name, b ≠ 0 ∧ stops b = false) (hstop : stops stop = true) (rest : List UInt8) :
    scanName stops (name ++ stop :: rest) = some (name, stop :: rest) := by
  induction name with
  | nil => simp [scanName, hstop]
  | cons b name ih =>
    obtain ⟨⟨h0, hb⟩, hname⟩ := forall_mem_cons.1 h
    simp [scanName, h0, hb, ih hname]

theorem nameOf_val (name : Name) : nameOf name.val = some name := dif_neg name.2

variable (name : LlName)

theorem parse_name (hstop : endsPlainName stop = true) (rest : List UInt8) :
    parseIrSymbolAt (some (name.text ++ stop :: rest)) = some (some name.name) := by
  cases name with
  | plain name h hq =>
    have hscan := scanName_append (fun b hb => ⟨(h b hb).1, (h b hb).2.2⟩) hstop rest
    obtain ⟨q, start, hname⟩ := exists_cons_of_ne_nil name.2
    have hq34 : q ≠ 34 := by simpa [hname] using hq
    rw [hname] at hscan
    simp only [LlName.text, hname, cons_append, parseIrSymbolAt, if_neg hq34] at hscan ⊢
    simp [hscan, LlName.name, ← hname, nameOf_val]
  | quoted name h =>
    have hplain : ∀ b ∈ name.val, b ≠ 0 ∧ (b == 34) = false :=
      fun b hb => ⟨(h b hb).1, by simpa using (h b hb).2.2⟩
    have hscan := scanName_append hplain (beq_self_eq_true 34) (stop :: rest)
    simp [LlName.text, parseIrSymbolAt, LlName.name, hscan, nameOf_val]

theorem memchr_append {head : List UInt8} (tail rest : List UInt8) (h : 64 ∉ head) :
    memchr (head ++ (name.text ++ tail) ++ rest) 64 (head ++ (name.text ++ tail)).length =
      some (name.text ++ (tail ++ rest)) := by
  obtain ⟨more, hname⟩ : ∃ more, name.text = 64 :: more := by cases name <;> exact ⟨_, rfl⟩
  rw [memchr, take_left, if_pos (by simp [hname]), append_assoc,
    dropWhile_append_of_pos fun b hb => by simpa using fun heq : b = 64 => h (heq ▸ hb), hname]
  simp

theorem lineStarts_append {word line : List UInt8} (h : ¬ word <+: line) :
    lineStarts word (line ++ rest) line.length = false := by
  simp only [lineStarts, Bool.and_eq_false_imp, decide_eq_true_eq]
  intro hlen
  rw [Bool.eq_false_iff, ne_eq, isPrefixOf_iff_prefix]
  exact fun hpre => h (prefix_of_prefix_length_le hpre (prefix_append ..) (by omega))

/-- A line that begins with `@` and a name. -/
theorem collectLine_at (tail : List UInt8) :
    collectLine (name.text ++ 32 :: tail ++ rest) (name.text ++ 32 :: tail).length s =
      (lineIsExternal (name.text ++ 32 :: tail ++ rest)).map fun isExternal =>
        if isExternal then s.addUndef name.name else s.addDef name.name := by
  obtain ⟨more, hname⟩ : ∃ more, name.text = 64 :: more := by cases name <;> exact ⟨_, rfl⟩
  have hparse := parse_name name (show endsPlainName 32 = true from rfl) (tail ++ rest)
  simp only [append_assoc, cons_append, collectLine, hparse]
  simp [hname, lineStarts, defineWord, declareWord]

theorem finds_append {w pre : List UInt8} (hw : w ≠ []) (hpre : 0 ∉ pre) (more : List UInt8) :
    strstrFinds w (pre ++ (w ++ more)) = some true := by
  induction pre with
  | nil =>
    obtain ⟨b, w, rfl⟩ := exists_cons_of_ne_nil hw
    simp [strstrFinds]
  | cons b pre ih =>
    rw [mem_cons, not_or] at hpre
    rw [cons_append, strstrFinds, if_neg (Ne.symm hpre.1), ih hpre.2]
    split <;> rfl

theorem not_prefix_of_finds {w : List UInt8} (h : strstrFinds w p = some false) :
    w.isPrefixOf p = false := by
  cases p with
  | nil => cases h
  | cons c p =>
    rw [strstrFinds] at h
    split at h
    · cases h
    · next hnot => exact eq_false_of_ne_true hnot

theorem finds_cons {w : List UInt8} {b : UInt8} (hb : b ≠ 0) (h : strstrFinds w p = some false) :
    strstrFinds (b :: w) p = some false := by
  induction p with
  | nil => exact h
  | cons c p ih =>
    have hnot := not_prefix_of_finds h
    rw [strstrFinds, hnot, if_neg Bool.false_ne_true] at h
    rw [strstrFinds, isPrefixOf_cons_cons]
    split at h
    · next hzero => simp [hzero, hb]
    · next hzero => simp [hzero, not_prefix_of_finds h, ih h]

theorem zero_notMem_text : 0 ∉ name.text := by
  cases name with
  | plain name h hq => simpa [LlName.text] using fun hmem => (h 0 hmem).1 rfl
  | quoted name h => simpa [LlName.text] using fun hmem => (h 0 hmem).1 rfl

/-- A line that is no definition of a global is read by itself. -/
theorem collectLine_says {l : LlLine} (h : l.isGlobal = false) :
    collectLine (l.text ++ rest) l.text.length s = some (saidBy [l] s) := by
  cases l with
  | define head name tail =>
    have hword : (64 : UInt8) ∉ defineWord ++ 32 :: head.val.val := by
      simpa [defineWord] using head.2
    have hat := memchr_append name (40 :: tail.val) rest hword
    have htext : (LlLine.define head name tail).text =
        defineWord ++ 32 :: head.val.val ++ (name.text ++ 40 :: tail.val) := by
      simp [LlLine.text]
    rw [collectLine, htext, hat, cons_append, parse_name name rfl _]
    simp [lineStarts, LlSymbols.addDef, saidBy, LlLine.defs, LlLine.undefs]
  | declare head name tail =>
    have hword : (64 : UInt8) ∉ declareWord ++ 32 :: head.val.val := by
      simpa [declareWord] using head.2
    have hat := memchr_append name (40 :: tail.val) rest hword
    have htext : (LlLine.declare head name tail).text =
        declareWord ++ 32 :: head.val.val ++ (name.text ++ 40 :: tail.val) := by
      simp [LlLine.text]
    rw [collectLine, htext, hat, cons_append, parse_name name rfl _]
    simp [lineStarts, declareWord, defineWord, LlSymbols.addUndef, saidBy, LlLine.defs, LlLine.undefs]
    split <;> simp
  | global name tail => cases h
  | external name tail =>
    have hpre : (0 : UInt8) ∉ name.text ++ [32, 61] := by simpa using zero_notMem_text name
    have hfinds := finds_append (show externalWord ≠ [] by decide) hpre (tail.val ++ rest)
    have hsplit : name.text ++ 32 :: 61 :: (externalWord ++ tail.val) ++ rest =
        name.text ++ [32, 61] ++ (externalWord ++ (tail.val ++ rest)) := by simp
    rw [LlLine.text, collectLine_at, lineIsExternal, hsplit, hfinds]
    simp [LlSymbols.addUndef, saidBy, LlLine.defs, LlLine.undefs]
    split <;> simp
  | other text =>
    have hno : ∀ word ∈ [defineWord, declareWord, [64]],
        lineStarts word (text.val.val ++ rest) text.val.val.length = false :=
      fun word hword => lineStarts_append (text.2 word hword)
    simp only [forall_mem_cons] at hno
    simp [LlLine.text, collectLine, hno, saidBy, LlLine.defs, LlLine.undefs]

theorem collectLine_global (tail : List UInt8) :
    collectLine (name.text ++ 32 :: tail ++ rest) (name.text ++ 32 :: tail).length s =
      (strstrFinds externalWord (name.text ++ 32 :: tail ++ rest)).map fun found =>
        if found then s.addUndef name.name else s.addDef name.name := by
  rw [collectLine_at, lineIsExternal]
  cases hfinds : strstrFinds externalWord (name.text ++ 32 :: tail ++ rest) with
  | none => rfl
  | some found =>
    cases found with
    | true => rfl
    | false => simp [-append_assoc, finds_cons (b := 61) (by decide) hfinds]

end Line

section Text
variable {l : LlLine} {ls : List LlLine} {s s' : LlSymbols} {fuel : Nat}

theorem newline_notMem_name (name : LlName) : 10 ∉ name.text := by
  cases name with
  | plain name h hq => simpa [LlName.text] using fun hmem => (h 10 hmem).2.1 rfl
  | quoted name h => simpa [LlName.text] using fun hmem => (h 10 hmem).2.1 rfl

theorem newline_notMem (l : LlLine) : 10 ∉ l.text := by
  cases l with
  | define head name tail =>
    simpa [LlLine.text, defineWord] using ⟨head.val.2, newline_notMem_name name, tail.2⟩
  | declare head name tail =>
    simpa [LlLine.text, declareWord] using ⟨head.val.2, newline_notMem_name name, tail.2⟩
  | global name tail => simpa [LlLine.text] using ⟨newline_notMem_name name, tail.val.2⟩
  | external name tail =>
    simpa [LlLine.text, externalWord] using ⟨newline_notMem_name name, tail.2⟩
  | other text => exact text.val.2

theorem takeWhile_text (l : LlLine) (ls : List LlLine) :
    (textOf (l :: ls)).takeWhile (· != 10) = l.text := by
  have hall : ∀ b ∈ l.text, (b != 10) = true := by
    intro b hb
    simpa using fun heq : b = 10 => newline_notMem l (heq ▸ hb)
  rw [textOf_cons, takeWhile_append_of_pos hall]
  cases ls <;> simp [restOf]

theorem drop_text (l : LlLine) (ls : List LlLine) :
    (textOf (l :: ls)).drop (l.text.length + 1) = textOf ls := by
  rw [textOf_cons, ← drop_drop, drop_left]
  cases ls <;> rfl

theorem collectLines_cons (h : textOf (l :: ls) ≠ []) :
    collectLines (fuel + 1) (textOf (l :: ls)) s =
      (collectLine (l.text ++ restOf ls) l.text.length s).bind (collectLines fuel (textOf ls)) := by
  rw [collectLines, if_neg h, takeWhile_text]
  simp only [drop_text]
  rw [textOf_cons]
  rfl

theorem saidBy_cons (l : LlLine) (ls : List LlLine) (s : LlSymbols) :
    saidBy (l :: ls) s = saidBy ls (saidBy [l] s) := by
  simp [saidBy]

/-- The search behind a definition of a global stops at a NUL. -/
def LineClear (l : LlLine) (rest : List UInt8) : Prop :=
  l.isGlobal = true → strstrFinds externalWord (l.text ++ rest) = some false

theorem collectLine_clear {rest : List UInt8} (h : LineClear l rest) :
    collectLine (l.text ++ rest) l.text.length s = some (saidBy [l] s) := by
  cases hglobal : l.isGlobal with
  | false => exact collectLine_says hglobal
  | true =>
    have hfinds := h hglobal
    cases l with
    | global name tail =>
      rw [LlLine.text] at hfinds ⊢
      rw [collectLine_global, hfinds]
      simp [LlSymbols.addDef, saidBy, LlLine.defs, LlLine.undefs]
    | define | declare | external | other => cases hglobal

/-- A line that is not clear defines nothing. -/
theorem collectLine_unclear {rest : List UInt8} (h : ¬ LineClear l rest)
    (hline : collectLine (l.text ++ rest) l.text.length s = some s') :
    s'.defs = s.defs ∧ l.defs.length = 1 := by
  obtain ⟨hglobal, hfinds⟩ := Classical.not_imp.1 h
  cases l with
  | global name tail =>
    rw [LlLine.text] at hfinds hline
    rw [collectLine_global] at hline
    obtain ⟨found, hfound, rfl⟩ := Option.map_eq_some_iff.1 hline
    cases found with
    | true =>
      rw [if_pos rfl, LlSymbols.addUndef]
      exact ⟨by split <;> rfl, rfl⟩
    | false => exact absurd hfound hfinds
  | define | declare | external | other => cases hglobal

theorem collectLines_bound (h : collectLines fuel (textOf ls) s = some s') :
    s'.defs.length ≤ s.defs.length + (ls.flatMap LlLine.defs).length := by
  induction ls generalizing fuel s with
  | nil =>
    cases fuel <;> cases h <;> simp
  | cons l ls ih =>
    cases fuel with
    | zero => cases h; omega
    | succ fuel =>
      by_cases hempty : textOf (l :: ls) = []
      · rw [collectLines, if_pos hempty] at h
        cases h
        omega
      · rw [collectLines_cons hempty] at h
        obtain ⟨s₁, hline, hrest⟩ := Option.bind_eq_some_iff.1 h
        have hbound := ih hrest
        rw [flatMap_cons, length_append]
        by_cases hclear : LineClear l (restOf ls)
        · rw [collectLine_clear hclear] at hline
          cases hline
          simp [saidBy] at hbound ⊢
          omega
        · rw [(collectLine_unclear hclear hline).1] at hbound
          omega

/-- A text that is empty says nothing. -/
theorem empty_text (h : textOf (l :: ls) = []) :
    l.isGlobal = false ∧ saidBy [l] s = s ∧ ls = [] := by
  rw [textOf_cons, append_eq_nil_iff] at h
  cases ls with
  | cons => cases h.2
  | nil =>
    cases l with
    | other text => exact ⟨rfl, by simp [saidBy, LlLine.defs, LlLine.undefs], rfl⟩
    | define | declare => simp [LlLine.text, defineWord, declareWord] at h
    | global | external => simp [LlLine.text] at h

theorem collectLines_iff (hfuel : (textOf ls).length ≤ fuel) :
    collectLines fuel (textOf ls) s = some (saidBy ls s) ↔ Clear ls := by
  induction ls generalizing fuel s with
  | nil => cases fuel <;> simp [textOf, collectLines, saidBy, Clear]
  | cons l ls ih =>
    by_cases hempty : textOf (l :: ls) = []
    · obtain ⟨hglobal, hsaid, rfl⟩ := empty_text (s := s) hempty
      rw [hempty, hsaid]
      cases fuel <;> simp [collectLines, Clear, hglobal]
    · obtain ⟨fuel, rfl⟩ : ∃ n, fuel = n + 1 :=
        ⟨fuel - 1, by have := length_pos_iff.2 hempty; omega⟩
      have hrest : (textOf ls).length ≤ fuel := by
        rw [textOf_cons, length_append] at hfuel
        cases ls with
        | nil => exact Nat.zero_le _
        | cons => simp only [restOf, length_cons] at hfuel; omega
      have hhead : (l.isGlobal = true →
          strstrFinds externalWord (textOf (l :: ls)) = some false) ↔ LineClear l (restOf ls) := by
        rw [textOf_cons, LineClear]
      rw [collectLines_cons hempty, Clear, hhead, saidBy_cons]
      by_cases hclear : LineClear l (restOf ls)
      · rw [collectLine_clear hclear, Option.bind_some, ih hrest]
        exact ⟨fun h => ⟨hclear, h⟩, And.right⟩
      · refine ⟨fun h => ?_, fun h => absurd h.1 hclear⟩
        obtain ⟨s₁, hline, hlines⟩ := Option.bind_eq_some_iff.1 h
        obtain ⟨hdefs, hone⟩ := collectLine_unclear hclear hline
        have hbound := collectLines_bound hlines
        simp [saidBy, hdefs, hone] at hbound

/-- The scan of a text in the buffer, with the names of its lines. -/
theorem collect_iff (ls : List LlLine) (s : LlSymbols) :
    (collectLlSymbols (textOf ls) s).map Prod.snd = some (saidBy ls s) ↔ Clear ls := by
  have h := collectLines_iff (s := s) (Nat.le_refl (textOf ls).length)
  rw [← h, collectLlSymbols]
  split
  · next hempty => simp [hempty, collectLines]
  · simp [Option.map_map, Function.comp_def]

end Text

/-- `@a = global` and then `@b = external global`. -/
def mixedLines : List LlLine :=
  [.global (.plain ⟨[97], by decide⟩ (by decide +kernel) (by decide))
      ⟨⟨[103, 108, 111, 98, 97, 108], by decide⟩, by decide⟩,
    .external (.plain ⟨[98], by decide⟩ (by decide +kernel) (by decide))
      ⟨[103, 108, 111, 98, 97, 108], by decide⟩]

theorem collect_mixed : (collectLlSymbols (textOf mixedLines) ⟨[], []⟩).map Prod.snd ≠
    some (saidBy mixedLines ⟨[], []⟩) := by
  decide +kernel

end Liric.Guarantees.LlSymbols
