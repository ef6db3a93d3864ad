import Liric.Guarantees.ConstantAddresses
import Liric.Guarantees.TypeTokens

/-!
# Types in the text of a dump

The parser makes a type of the tokens of a printed type that is equal to it, and no text stands
for any other type.
-/
namespace Liric.Guarantees.TypeTexts
open Lib ConstantAddresses LexedText TypeTokens Source.Ir Source.Ll List Bool

variable {type : LrType} {t close : Token} {rest : List Token} {fuel addr : Nat}

mutual
/-- The types that have a text that stands for them: the lexer has no keyword `fp128`, and the
parser room for 256 parameters. -/
def Parsable : LrType → Prop
  | .scalar _ kind => kind ≠ .fp128
  | .ptr .. => True
  | .array _ elem _ => Parsable elem
  | .vector _ elem _ => Parsable elem
  | .struct _ fields _ _ => AllParsable fields
  | .func _ ret params _ => params.length ≤ 256 ∧ Parsable ret ∧ AllParsable params

def AllParsable : List LrType → Prop
  | [] => True
  | type :: rest => Parsable type ∧ AllParsable rest
end

mutual
/-- The calls of `parse_type` in one another. -/
def typeDepth : LrType → Nat
  | .scalar .. => 0
  | .ptr .. => 0
  | .array _ elem _ => typeDepth elem + 1
  | .vector _ elem _ => typeDepth elem + 1
  | .struct _ fields _ _ => typesDepth fields + 1
  | .func _ ret params _ => max (typeDepth ret) (typesDepth params + 1)

def typesDepth : List LrType → Nat
  | [] => 0
  | type :: rest => max (typeDepth type) (typesDepth rest)
end

theorem typeDepth_le {types : List LrType} (h : type ∈ types) :
    typeDepth type ≤ typesDepth types := by
  induction types with
  | nil => cases h
  | cons first types ih =>
    rw [typesDepth]
    rcases mem_cons.1 h with rfl | h
    · exact le_max_left _ _
    · exact le_trans (ih h) (le_max_right _ _)

/-- The parser behind a type: only addresses were handed out. -/
def behind (p : Parser) (rest : List Token) (n : Nat) : Parser :=
  { p with toks := rest, nextAddr := n }

/-- No star and no parameter list is in front. -/
def Ends (rest : List Token) : Prop := ∀ t ∈ rest.head?, t.kind ≠ .tokStar ∧ t.kind ≠ .tokLparen

/-- `elem` reads the type where nothing continues it. -/
def Reads (elem : P LrType) (type : LrType) : Prop :=
  ∀ (p : Parser) (rest : List Token) (addr : Nat), p.toks = typeTokens type ++ rest →
    p.builtin = lrModuleCreateTypes addr → Ends rest →
    ∃ ty n, typeEqualsRecursive type ty = true ∧ elem p = some (ty, behind p rest n)

/-- The type is read, and what can continue a type is looked for. -/
def Read (type : LrType) : Prop :=
  ∀ depth ≥ typeDepth type, ∀ (p : Parser) (rest : List Token) (addr : Nat),
    p.toks = typeTokens type ++ rest → p.builtin = lrModuleCreateTypes addr →
    ∃ ty n fuel, typeEqualsRecursive type ty = true ∧ rest.length < fuel ∧
      parseType (depth + 1) p = suffixLoop (parseType depth) fuel ty (behind p rest n)

section Miss
variable {p : Parser} {kind : TokKind}

theorem accept_other (h : p.cur.kind ≠ kind) : accept kind p = some (false, p) := by
  rw [accept, if_neg h]

theorem curTok_run (h : p.toks = t :: rest) : curTok p = some (t, p) := by
  rw [curTok, cur_kind h]

theorem get_run (p : Parser) : (get : P Parser) p = some (p, p) := rfl

theorem check_run (p : Parser) (kind : TokKind) : check kind p = some (p.cur.kind == kind, p) := rfl

theorem suffixLoop_ends {elem : P LrType} {ty : LrType} (hfuel : 0 < fuel) (h : Ends p.toks) :
    suffixLoop elem fuel ty p = some (ty, p) := by
  obtain ⟨fuel, rfl⟩ := Nat.exists_eq_succ_of_ne_zero (ne_of_gt hfuel)
  have hcur : p.cur.kind ≠ .tokStar ∧ p.cur.kind ≠ .tokLparen := by
    unfold Parser.cur
    cases htoks : p.toks with
    | nil => simp
    | cons t rest => exact h t (by rw [htoks]; rfl)
  rw [suffixLoop, run_bind (accept_other hcur.1)]
  simp only [false_eq_true, if_false]
  rw [run_bind (accept_other hcur.2)]
  rfl

end Miss

theorem Read.reads (h : Read type) {depth : Nat} (hdepth : depth ≥ typeDepth type) :
    Reads (parseType (depth + 1)) type := by
  intro p rest addr htoks hbuiltin hends
  obtain ⟨ty, n, fuel, heq, hfuel, hrun⟩ := h depth hdepth p rest addr htoks hbuiltin
  exact ⟨ty, n, heq, hrun.trans (suffixLoop_ends (Nat.zero_lt_of_lt hfuel) hends)⟩

/-- A head that is not a function. -/
theorem read_of_head
    (h : ∀ depth ≥ typeDepth type, ∀ (p : Parser) (rest : List Token) (addr : Nat),
      p.toks = typeTokens type ++ rest → p.builtin = lrModuleCreateTypes addr →
      ∃ ty n, typeEqualsRecursive type ty = true ∧
        parseTypeHead (parseType depth) p = some (ty, behind p rest n)) : Read type := by
  intro depth hdepth p rest addr htoks hbuiltin
  obtain ⟨ty, n, heq, hhead⟩ := h depth hdepth p rest addr htoks hbuiltin
  refine ⟨ty, n, rest.length + 1, heq, Nat.lt_succ_self _, ?_⟩
  rw [parseType, run_bind hhead]
  rfl

/-- The token of a type that is one word. -/
def scalarToken : ScalarKind → TokKind
  | .void => .tokVoid
  | .i1 => .tokI1
  | .i8 => .tokI8
  | .i16 => .tokI16
  | .i32 => .tokI32
  | .i64 => .tokI64
  | .float => .tokFloat
  | .double => .tokDouble
  | .x86Fp80 => .tokX86Fp80
  | .fp128 => .tokLocalId

theorem identKind_typeName (kind : ScalarKind) : identKind (typeName kind) = scalarToken kind := by
  cases kind <;> decide +kernel

variable {kind : ScalarKind}

theorem typeName_builtin (addr : Nat) (h : kind ≠ .fp128) :
    ∃ a, builtinType (lrModuleCreateTypes addr) (identKind (typeName kind)) =
      some (.scalar a kind) := by
  rw [identKind_typeName]
  cases kind with
  | fp128 => exact absurd rfl h
  | _ => exact ⟨_, rfl⟩

variable {p : Parser}

/-- A type that is one token. -/
theorem parseTypeHead_builtin {ty : LrType} (elem : P LrType) (h : p.toks = t :: rest)
    (hty : builtinType p.builtin t.kind = some ty) :
    parseTypeHead elem p = some (ty, behind p rest p.nextAddr) := by
  rw [parseTypeHead, run_bind (curTok_run h), run_bind (get_run p), hty]
  change (next >>= fun _ => pure ty) p = _
  rw [run_bind (next_run h)]
  rfl

theorem read_scalar (a : Nat) (h : kind ≠ .fp128) : Read (.scalar a kind) := by
  apply read_of_head
  intro depth _ p rest addr htoks hbuiltin
  obtain ⟨b, hb⟩ := typeName_builtin addr h
  have heq : typeEqualsRecursive (.scalar a kind) (.scalar b kind) = true := by
    simp [typeEqualsRecursive]
  exact ⟨_, _, heq, parseTypeHead_builtin _ htoks (hbuiltin ▸ hb)⟩

theorem read_ptr (a : Nat) (elem : Option LrType) : Read (.ptr a elem) := by
  apply read_of_head
  intro depth _ p rest addr htoks hbuiltin
  have heq : typeEqualsRecursive (.ptr a elem) (lrModuleCreateTypes addr).typePtr = true := rfl
  exact ⟨_, _, heq, parseTypeHead_builtin _ htoks (hbuiltin ▸ rfl)⟩

theorem ends_cons (rest : List Token) (h : t.kind ≠ .tokStar ∧ t.kind ≠ .tokLparen) :
    Ends (t :: rest) := by
  simpa [Ends] using h

/-- The count of an array or a vector, its element and what closes it. -/
def countedTokens (count : BitVec 64) (type : LrType) (close : Token) : List Token :=
  ⟨.tokIntLit, decimalName count.toNat, count, 0⟩ :: plain .tokX [120] ::
    (typeTokens type ++ [close])

theorem parseCounted_run {elem : P LrType} (helem : Reads elem type)
    (hclose : close.kind ≠ .tokStar ∧ close.kind ≠ .tokLparen)
    (mk : Nat → LrType → BitVec 64 → LrType) (count : BitVec 64)
    (htoks : p.toks = countedTokens count type close ++ rest)
    (hbuiltin : p.builtin = lrModuleCreateTypes addr) :
    ∃ ty n m, typeEqualsRecursive type ty = true ∧
      parseCounted elem close.kind mk p = some (mk n ty count, behind p rest m) := by
  simp only [countedTokens, cons_append, append_assoc, nil_append] at htoks
  let q : Parser := { p with toks := typeTokens type ++ close :: rest }
  obtain ⟨ty, n, heq, hrun⟩ := helem q (close :: rest) addr rfl hbuiltin (ends_cons rest hclose)
  have hskip : expect .tokX { p with toks := plain .tokX [120] :: q.toks } = some ((), q) :=
    expect_hit rfl rfl
  have hlast : expect close.kind (behind q (close :: rest) n) = some ((), behind q rest n) :=
    expect_hit rfl rfl
  refine ⟨ty, n, n + 1, heq, ?_⟩
  rw [parseCounted, run_bind (curTok_run htoks), run_bind (expect_hit htoks rfl), run_bind hskip,
    run_bind hrun, run_bind hlast]
  rfl

/-- The calls behind the depth of a type with parts. -/
theorem reads_part {part : LrType} (h : Read part) (hpart : typeDepth part < typeDepth type)
    {depth : Nat} (hdepth : depth ≥ typeDepth type) : Reads (parseType depth) part := by
  obtain ⟨d, rfl⟩ : ∃ d, depth = d + 1 := ⟨depth - 1, by omega⟩
  exact h.reads (by omega)

/-- A head that starts with a bracket. -/
theorem parseTypeHead_lbracket (elem : P LrType) (h : p.toks = t :: rest)
    (hkind : t.kind = .tokLbracket) :
    parseTypeHead elem p = parseCounted elem .tokRbracket .array (behind p rest p.nextAddr) := by
  rw [parseTypeHead, run_bind (curTok_run h), run_bind (get_run p), hkind]
  change (next >>= fun _ => parseCounted elem .tokRbracket .array) p = _
  rw [run_bind (next_run h)]
  rfl

theorem read_array (a : Nat) {elem : LrType} (count : BitVec 64) (helem : Read elem) :
    Read (.array a elem count) := by
  apply read_of_head
  intro depth hdepth p rest addr htoks hbuiltin
  have hread : Reads (parseType depth) elem := reads_part helem (Nat.lt_succ_self _) hdepth
  have hhead : p.toks = plain .tokLbracket [91] ::
      (countedTokens count elem (plain .tokRbracket [93]) ++ rest) := by
    simpa [typeTokens, countedTokens] using htoks
  have hclose : (plain .tokRbracket [93]).kind ≠ .tokStar ∧
      (plain .tokRbracket [93]).kind ≠ .tokLparen := by decide
  obtain ⟨ty, n, m, heq, hrun⟩ := parseCounted_run hread hclose .array count
    (p := behind p _ p.nextAddr) rfl hbuiltin
  refine ⟨.array n ty count, m, ?_, ?_⟩
  · simpa [typeEqualsRecursive] using heq
  · rw [parseTypeHead_lbracket _ hhead rfl]
    exact hrun

theorem parseTypeHead_langle (elem : P LrType) (h : p.toks = t :: rest)
    (hkind : t.kind = .tokLangle) :
    parseTypeHead elem p = (check .tokIntLit >>= fun counted =>
      if counted then parseCounted elem .tokRangle .vector
      else expect .tokLbrace >>= fun _ => parseStruct elem true) (behind p rest p.nextAddr) := by
  rw [parseTypeHead, run_bind (curTok_run h), run_bind (get_run p), hkind]
  change (next >>= fun _ => check .tokIntLit >>= fun counted => if counted then
    parseCounted elem .tokRangle .vector else expect .tokLbrace >>= fun _ =>
      parseStruct elem true) p = _
  rw [run_bind (next_run h)]
  rfl

theorem parseTypeHead_vector {count : Token} (elem : P LrType) (h : p.toks = t :: count :: rest)
    (hkind : t.kind = .tokLangle) (hcount : count.kind = .tokIntLit) :
    parseTypeHead elem p =
      parseCounted elem .tokRangle .vector (behind p (count :: rest) p.nextAddr) := by
  rw [parseTypeHead_langle elem h hkind, run_bind (check_run _ _)]
  simp [Parser.cur, hcount, behind]

theorem read_vector (a : Nat) {elem : LrType} (count : BitVec 64) (helem : Read elem) :
    Read (.vector a elem count) := by
  apply read_of_head
  intro depth hdepth p rest addr htoks hbuiltin
  have hread : Reads (parseType depth) elem := reads_part helem (Nat.lt_succ_self _) hdepth
  have hhead : p.toks = plain .tokLangle [60] ::
      (countedTokens count elem (plain .tokRangle [62]) ++ rest) := by
    simpa [typeTokens, countedTokens] using htoks
  have hclose : (plain .tokRangle [62]).kind ≠ .tokStar ∧
      (plain .tokRangle [62]).kind ≠ .tokLparen := by decide
  obtain ⟨ty, n, m, heq, hrun⟩ := parseCounted_run hread hclose .vector count
    (p := behind p _ p.nextAddr) rfl hbuiltin
  refine ⟨.vector n ty count, m, ?_, ?_⟩
  · simpa [typeEqualsRecursive] using heq
  · rw [parseTypeHead_vector _ hhead rfl rfl]
    exact hrun

/-- Types behind the first one. -/
def moreTokens (types : List LrType) : List Token :=
  types.flatMap (fun type => plain .tokComma [44] :: typeTokens type)

theorem typesTokens_cons (type : LrType) (types : List LrType) :
    typesTokens (type :: types) = typeTokens type ++ moreTokens types := by
  induction types generalizing type with
  | nil => simp [typesTokens, moreTokens]
  | cons next types ih => simp [typesTokens, ih next, moreTokens]

theorem length_le_moreTokens (types : List LrType) : types.length ≤ (moreTokens types).length := by
  induction types with
  | nil => exact le_refl 0
  | cons type types ih =>
    simp only [moreTokens, flatMap_cons, length_append, length_cons] at ih ⊢
    omega

/-- A token that starts a type. -/
def Starts (t : Token) : Prop :=
  t.kind ≠ .tokRbrace ∧ t.kind ≠ .tokRparen ∧ t.kind ≠ .tokDotdotdot

instance (t : Token) : Decidable (Starts t) := inferInstanceAs (Decidable (_ ∧ _))

theorem typeTokens_starts : (type : LrType) → ∃ t ts, typeTokens type = t :: ts ∧ Starts t
  | .scalar _ kind => by
    refine ⟨_, _, rfl, ?_⟩
    cases kind <;> decide +kernel
  | .ptr .. => ⟨_, _, rfl, by decide⟩
  | .array .. => ⟨_, _, rfl, by decide⟩
  | .vector .. => ⟨_, _, rfl, by decide⟩
  | .struct _ fields packed _ => by
    cases packed with
    | false => exact ⟨_, _, rfl, by decide⟩
    | true => exact ⟨_, _, rfl, by decide⟩
  | .func _ ret params vararg => by
    obtain ⟨t, ts, htoks, hstarts⟩ := typeTokens_starts ret
    exact ⟨t, _, by rw [typeTokens, htoks]; rfl, hstarts⟩

/-- A token behind the last of a list of types. -/
def Closes (t : Token) : Prop :=
  t.kind ≠ .tokStar ∧ t.kind ≠ .tokLparen ∧ t.kind ≠ .tokComma

instance (t : Token) : Decidable (Closes t) := inferInstanceAs (Decidable (_ ∧ _))

theorem ends_more (types : List LrType) (hclose : Closes close) (rest : List Token) :
    Ends (moreTokens types ++ close :: rest) := by
  cases types with
  | nil => exact ends_cons rest ⟨hclose.1, hclose.2.1⟩
  | cons type types => exact ends_cons _ (by decide)

theorem pushBounded_run {types : List LrType} (h : types.length < 256) (type : LrType)
    (p : Parser) : pushBounded types type p = some (types ++ [type], p) := by
  rw [pushBounded, if_pos (show types.length < localArrayCap from h)]
  rfl

variable {fields : List LrType}

section Lists
variable {elem : P LrType} {types : List LrType}

/-- The fields behind the first one. -/
theorem fieldsLoop_run (hread : ∀ type ∈ types, Reads elem type) (hclose : Closes close)
    (hfuel : types.length < fuel) (hlen : fields.length + types.length ≤ 256) (htoks : p.toks = moreTokens types ++ close :: rest)
    (hbuiltin : p.builtin = lrModuleCreateTypes addr) :
    ∃ tys n, fieldsEqualRecursive types tys = true ∧
      fieldsLoop elem fuel fields p = some (fields ++ tys, behind p (close :: rest) n) := by
  induction types generalizing fuel fields p with
  | nil =>
    obtain ⟨fuel, rfl⟩ := Nat.exists_eq_succ_of_ne_zero (ne_of_gt hfuel)
    refine ⟨[], p.nextAddr, rfl, ?_⟩
    rw [fieldsLoop, run_bind (accept_miss htoks hclose.2.2)]
    simp only [append_nil]
    rw [show close :: rest = p.toks from htoks.symm]
    rfl
  | cons type types ih =>
    obtain ⟨fuel, rfl⟩ := Nat.exists_eq_succ_of_ne_zero (ne_of_gt (Nat.zero_lt_of_lt hfuel))
    simp only [length_cons] at hfuel hlen
    have hcons : p.toks = plain .tokComma [44] ::
        (typeTokens type ++ (moreTokens types ++ close :: rest)) := by
      simpa [moreTokens] using htoks
    let q : Parser := { p with toks := typeTokens type ++ (moreTokens types ++ close :: rest) }
    obtain ⟨ty, n, heq, hrun⟩ := hread type (mem_cons_self ..) q _ addr rfl hbuiltin
      (ends_more types hclose rest)
    have hlen' : (fields ++ [ty]).length + types.length ≤ 256 := by
      rw [length_append, length_singleton]
      omega
    obtain ⟨tys, m, heqs, hloop⟩ := ih (fun type h => hread type (mem_cons_of_mem _ h))
      (Nat.lt_of_succ_lt_succ hfuel) hlen'
      (p := behind q (moreTokens types ++ close :: rest) n) rfl hbuiltin
    refine ⟨ty :: tys, m, by simp [fieldsEqualRecursive, heq, heqs], ?_⟩
    have hcomma : accept .tokComma p = some (true, q) := accept_hit hcons rfl
    rw [fieldsLoop, run_bind hcomma]
    change (elem >>= fun x => pushBounded fields x >>= fun fields => fieldsLoop elem fuel fields) q
      = _
    rw [run_bind hrun, run_bind (pushBounded_run (by omega) ty _), hloop]
    simp [behind, q]

/-- The fields of a struct. -/
theorem parseFields_run (hread : ∀ type ∈ types, Reads elem type) (hlen : types.length ≤ 256) (hclose : close.kind = .tokRbrace)
    (htoks : p.toks = typesTokens types ++ close :: rest)
    (hbuiltin : p.builtin = lrModuleCreateTypes addr) :
    ∃ tys n, fieldsEqualRecursive types tys = true ∧
      parseFields elem p = some (tys, behind p (close :: rest) n) := by
  have hcloses : Closes close := by
    rw [Closes, hclose]
    decide
  cases types with
  | nil =>
    refine ⟨[], p.nextAddr, rfl, ?_⟩
    have htoks : p.toks = close :: rest := htoks
    rw [parseFields, run_bind (check_run _ _), cur_kind htoks, hclose, ← htoks]
    rfl
  | cons type types =>
    rw [typesTokens_cons, append_assoc] at htoks
    obtain ⟨t, ts, hhead, hstarts⟩ := typeTokens_starts type
    have hcur : p.cur = t := cur_kind (by rw [htoks, hhead]; rfl)
    obtain ⟨ty, n, heq, hrun⟩ := hread type (mem_cons_self ..) p _ addr htoks hbuiltin
      (ends_more types hcloses rest)
    have hfuel : types.length < (moreTokens types ++ close :: rest).length + 1 := by
      have := length_le_moreTokens types
      simp only [length_append]
      omega
    have hlen' : [ty].length + types.length ≤ 256 := by
      simpa [Nat.add_comm] using hlen
    obtain ⟨tys, m, heqs, hloop⟩ :=
      fieldsLoop_run (fun type h => hread type (mem_cons_of_mem _ h)) hcloses hfuel hlen'
        (p := behind p (moreTokens types ++ close :: rest) n) rfl hbuiltin
    refine ⟨ty :: tys, m, by simp [fieldsEqualRecursive, heq, heqs], ?_⟩
    rw [parseFields, run_bind (check_run _ _), hcur, show (t.kind == .tokRbrace) = false by
      simpa using hstarts.1]
    change (elem >>= fun first => withTokenFuel fun fuel => fieldsLoop elem fuel [first]) p = _
    rw [run_bind hrun]
    exact hloop

end Lists

theorem parseStruct_run {elem : P LrType} {types : List LrType} (packed : Bool)
    (hread : ∀ type ∈ types, Reads elem type) (hlen : types.length ≤ 256)
    (htoks : p.toks = typesTokens types ++ plain .tokRbrace [125] ::
      ((if packed then [plain .tokRangle [62]] else []) ++ rest))
    (hbuiltin : p.builtin = lrModuleCreateTypes addr) :
    ∃ tys n m, fieldsEqualRecursive types tys = true ∧
      parseStruct elem packed p = some (.struct n tys packed none, behind p rest m) := by
  obtain ⟨tys, n, heqs, hrun⟩ := parseFields_run hread hlen rfl htoks hbuiltin
  refine ⟨tys, n, n + 1, heqs, ?_⟩
  rw [parseStruct, run_bind hrun]
  cases packed with
  | false =>
    have hclose : expect .tokRbrace (behind p (plain .tokRbrace [125] :: rest) n) =
        some ((), behind p rest n) := expect_hit rfl rfl
    exact (run_bind hclose).trans rfl
  | true =>
    have hclose : expect .tokRbrace
        (behind p (plain .tokRbrace [125] :: plain .tokRangle [62] :: rest) n) =
        some ((), behind p (plain .tokRangle [62] :: rest) n) := expect_hit rfl rfl
    have hangle : expectIf true .tokRangle (behind p (plain .tokRangle [62] :: rest) n) =
        some ((), behind p rest n) := expect_hit rfl rfl
    exact (run_bind hclose).trans ((run_bind hangle).trans rfl)

theorem parseTypeHead_lbrace (elem : P LrType) (h : p.toks = t :: rest)
    (hkind : t.kind = .tokLbrace) :
    parseTypeHead elem p = parseStruct elem false (behind p rest p.nextAddr) := by
  rw [parseTypeHead, run_bind (curTok_run h), run_bind (get_run p), hkind]
  change (next >>= fun _ => parseStruct elem false) p = _
  rw [run_bind (next_run h)]
  rfl

theorem parseTypeHead_packed {brace : Token} (elem : P LrType) (h : p.toks = t :: brace :: rest)
    (hkind : t.kind = .tokLangle) (hbrace : brace.kind = .tokLbrace) :
    parseTypeHead elem p = parseStruct elem true (behind p rest p.nextAddr) := by
  let q := behind p (brace :: rest) p.nextAddr
  have hcheck : check .tokIntLit q = some (false, q) := by
    rw [check_run, cur_kind (show q.toks = brace :: rest from rfl), hbrace]
    rfl
  have hexpect : expect .tokLbrace q = some ((), behind p rest p.nextAddr) := expect_hit rfl hbrace
  rw [parseTypeHead_langle elem h hkind, run_bind hcheck]
  exact run_bind hexpect

theorem read_struct (a : Nat) (packed : Bool) (name : Option CStr)
    (hlen : fields.length ≤ 256) (hfields : ∀ field ∈ fields, Read field) :
    Read (.struct a fields packed name) := by
  apply read_of_head
  intro depth hdepth p rest addr htoks hbuiltin
  have hread : ∀ field ∈ fields, Reads (parseType depth) field := by
    intro field hfield
    have hpart : typeDepth field < typeDepth (.struct a fields packed name) :=
      Nat.lt_succ_of_le (typeDepth_le hfield)
    exact reads_part (hfields field hfield) hpart hdepth
  let toks := typesTokens fields ++ plain .tokRbrace [125] ::
    ((if packed then [plain .tokRangle [62]] else []) ++ rest)
  have hhead : parseTypeHead (parseType depth) p =
      parseStruct (parseType depth) packed (behind p toks p.nextAddr) := by
    cases packed with
    | false =>
      have hfirst : p.toks = plain .tokLbrace [123] :: toks := by
        simpa [typeTokens, toks] using htoks
      exact parseTypeHead_lbrace _ hfirst rfl
    | true =>
      have hfirst : p.toks = plain .tokLangle [60] :: plain .tokLbrace [123] :: toks := by
        simpa [typeTokens, toks] using htoks
      exact parseTypeHead_packed _ hfirst rfl rfl
  obtain ⟨tys, n, m, heqs, hrun⟩ := parseStruct_run packed hread hlen
    (p := behind p toks p.nextAddr) rfl hbuiltin
  exact ⟨_, m, by simp [typeEqualsRecursive, heqs], hhead.trans hrun⟩

/-- The dots of a parameter list and the closing parenthesis. -/
def dotsTokens (first vararg : Bool) : List Token :=
  (if vararg then (if first then [] else [plain .tokComma [44]]) ++
    [plain .tokDotdotdot [46, 46, 46]] else [])

variable {params : List LrType}

section Params
variable {elem : P LrType} {types : List LrType}

theorem ends_dots (types : List LrType) (vararg : Bool) (hclose : Closes close)
    (rest : List Token) :
    Ends (moreTokens types ++ (dotsTokens false vararg ++ close :: rest)) := by
  cases types with
  | nil =>
    cases vararg with
    | false => exact ends_cons rest ⟨hclose.1, hclose.2.1⟩
    | true => exact ends_cons _ (by decide)
  | cons type types => exact ends_cons _ (by decide)

/-- The parameters behind the first one. -/
theorem paramsLoop_run (hread : ∀ type ∈ types, Reads elem type) (vararg : Bool)
    (hclose : Closes close) (hfuel : types.length < fuel)
    (hlen : params.length + types.length ≤ 256)
    (htoks : p.toks = moreTokens types ++ (dotsTokens false vararg ++ close :: rest))
    (hbuiltin : p.builtin = lrModuleCreateTypes addr) :
    ∃ tys n, fieldsEqualRecursive types tys = true ∧
      paramsLoop elem fuel params p =
        some ((params ++ tys, vararg), behind p (close :: rest) n) := by
  induction types generalizing fuel params p with
  | nil =>
    obtain ⟨fuel, rfl⟩ := Nat.exists_eq_succ_of_ne_zero (ne_of_gt hfuel)
    refine ⟨[], p.nextAddr, rfl, ?_⟩
    rw [paramsLoop]
    cases vararg with
    | false =>
      have htoks : p.toks = close :: rest := htoks
      rw [run_bind (accept_miss htoks hclose.2.2), ← htoks]
      simp only [append_nil]
      rfl
    | true =>
      let q : Parser := { p with toks := plain .tokDotdotdot [46, 46, 46] :: close :: rest }
      have hcomma : accept .tokComma p = some (true, q) := accept_hit htoks rfl
      have hdots : accept .tokDotdotdot q = some (true, { p with toks := close :: rest }) :=
        accept_hit rfl rfl
      rw [run_bind hcomma]
      change (accept .tokDotdotdot >>= fun dots => if dots then pure (params, true) else
        elem >>= fun x => pushBounded params x >>= fun params => paramsLoop elem fuel params) q = _
      rw [run_bind hdots]
      simp only [append_nil]
      rfl
  | cons type types ih =>
    obtain ⟨fuel, rfl⟩ := Nat.exists_eq_succ_of_ne_zero (ne_of_gt (Nat.zero_lt_of_lt hfuel))
    simp only [length_cons] at hfuel hlen
    let tail := moreTokens types ++ (dotsTokens false vararg ++ close :: rest)
    have hcons : p.toks = plain .tokComma [44] :: (typeTokens type ++ tail) := by
      simpa [moreTokens, tail] using htoks
    let q : Parser := { p with toks := typeTokens type ++ tail }
    have hcomma : accept .tokComma p = some (true, q) := accept_hit hcons rfl
    have hdots : accept .tokDotdotdot q = some (false, q) := by
      obtain ⟨t, ts, hhead, hstarts⟩ := typeTokens_starts type
      exact accept_miss (show q.toks = t :: (ts ++ tail) by simp [q, hhead]) hstarts.2.2
    obtain ⟨ty, n, heq, hrun⟩ := hread type (mem_cons_self ..) q tail addr rfl hbuiltin
      (ends_dots types vararg hclose rest)
    have hlen' : (params ++ [ty]).length + types.length ≤ 256 := by
      rw [length_append, length_singleton]
      omega
    obtain ⟨tys, m, heqs, hloop⟩ := ih (fun type h => hread type (mem_cons_of_mem _ h))
      (Nat.lt_of_succ_lt_succ hfuel) hlen'
      (p := behind q tail n) rfl hbuiltin
    refine ⟨ty :: tys, m, by simp [fieldsEqualRecursive, heq, heqs], ?_⟩
    rw [paramsLoop, run_bind hcomma]
    change (accept .tokDotdotdot >>= fun dots => if dots then pure (params, true) else
      elem >>= fun x => pushBounded params x >>= fun params => paramsLoop elem fuel params) q = _
    rw [run_bind hdots]
    change (elem >>= fun x => pushBounded params x >>= fun params => paramsLoop elem fuel params) q
      = _
    rw [run_bind hrun, run_bind (pushBounded_run (by omega) ty _), hloop]
    simp [behind, q]

end Params

theorem parseParams_run {elem : P LrType} {types : List LrType}
    (hread : ∀ type ∈ types, Reads elem type) (vararg : Bool) (hlen : types.length ≤ 256) (hclose : close.kind = .tokRparen)
    (htoks : p.toks = typesTokens types ++ (dotsTokens types.isEmpty vararg ++ close :: rest))
    (hbuiltin : p.builtin = lrModuleCreateTypes addr) :
    ∃ tys n, fieldsEqualRecursive types tys = true ∧
      parseParams elem p = some ((tys, vararg), behind p (close :: rest) n) := by
  have hcloses : Closes close := by
    rw [Closes, hclose]
    decide
  cases types with
  | nil =>
    refine ⟨[], p.nextAddr, rfl, ?_⟩
    rw [parseParams, run_bind (check_run _ _)]
    cases vararg with
    | false =>
      have htoks : p.toks = close :: rest := htoks
      rw [cur_kind htoks, hclose, ← htoks]
      rfl
    | true =>
      have htoks : p.toks = plain .tokDotdotdot [46, 46, 46] :: close :: rest := htoks
      have hdots : accept .tokDotdotdot p = some (true, { p with toks := close :: rest }) :=
        accept_hit htoks rfl
      rw [cur_kind htoks]
      exact (run_bind hdots).trans rfl
  | cons type types =>
    rw [typesTokens_cons, append_assoc] at htoks
    let tail := moreTokens types ++ (dotsTokens false vararg ++ close :: rest)
    have htoks : p.toks = typeTokens type ++ tail := htoks
    obtain ⟨t, ts, hhead, hstarts⟩ := typeTokens_starts type
    have hfirst : p.toks = t :: (ts ++ tail) := by rw [htoks, hhead]; rfl
    obtain ⟨ty, n, heq, hrun⟩ := hread type (mem_cons_self ..) p tail addr htoks hbuiltin
      (ends_dots types vararg hcloses rest)
    have hfuel : types.length < tail.length + 1 := by
      have := length_le_moreTokens types
      simp only [tail, length_append]
      omega
    have hlen' : [ty].length + types.length ≤ 256 := by
      simpa [Nat.add_comm] using hlen
    obtain ⟨tys, m, heqs, hloop⟩ :=
      paramsLoop_run (fun type h => hread type (mem_cons_of_mem _ h)) vararg hcloses hfuel
        hlen' (p := behind p tail n) rfl hbuiltin
    refine ⟨ty :: tys, m, by simp [fieldsEqualRecursive, heq, heqs], ?_⟩
    rw [parseParams, run_bind (check_run _ _), cur_kind hfirst,
      show (t.kind == .tokRparen) = false by simpa using hstarts.2.1]
    change (accept .tokDotdotdot >>= fun dots => if dots then pure ([], true) else
      elem >>= fun first => withTokenFuel fun fuel => paramsLoop elem fuel [first]) p = _
    rw [run_bind (accept_miss hfirst hstarts.2.2)]
    change (elem >>= fun first => withTokenFuel fun fuel => paramsLoop elem fuel [first]) p = _
    rw [run_bind hrun]
    exact hloop

theorem read_func (a : Nat) {ret : LrType} (vararg : Bool)
    (hlen : params.length ≤ 256) (hret : Read ret) (hparams : ∀ param ∈ params, Read param) :
    Read (.func a ret params vararg) := by
  intro depth hdepth p rest addr htoks hbuiltin
  have hread : ∀ param ∈ params, Reads (parseType depth) param := by
    intro param hparam
    have hpart : typeDepth param < typeDepth (.func a ret params vararg) :=
      lt_of_lt_of_le (Nat.lt_succ_of_le (typeDepth_le hparam)) (le_max_right _ _)
    exact reads_part (hparams param hparam) hpart hdepth
  let close := plain .tokRparen [41] :: rest
  let tail := typesTokens params ++ (dotsTokens params.isEmpty vararg ++ close)
  have htoks : p.toks = typeTokens ret ++ plain .tokLparen [40] :: tail := by
    simpa [typeTokens, dotsTokens, tail, close] using htoks
  have hlong : rest.length < tail.length := by
    simp only [tail, close, length_append, length_cons]
    omega
  obtain ⟨ty, n, fuel, heq, hfuel, hrun⟩ :=
    hret depth (le_trans (le_max_left _ _) hdepth) p _ addr htoks hbuiltin
  obtain ⟨tys, m, heqs, hargs⟩ := parseParams_run hread vararg hlen (p := behind p tail n) rfl rfl
    hbuiltin
  obtain ⟨fuel, rfl⟩ := Nat.exists_eq_succ_of_ne_zero (ne_of_gt (Nat.zero_lt_of_lt hfuel))
  refine ⟨.func m ty tys vararg, m + 1, fuel, by simp [typeEqualsRecursive, heq, heqs], ?_, ?_⟩
  · simp only [length_cons] at hfuel
    omega
  · let q := behind p (plain .tokLparen [40] :: tail) n
    have hstar : accept .tokStar q = some (false, q) := accept_miss rfl (by decide)
    have hparen : accept .tokLparen q = some (true, behind p tail n) := accept_hit rfl rfl
    have hclose : expect .tokRparen (behind p close m) = some ((), behind p rest m) :=
      expect_hit rfl rfl
    rw [hrun, suffixLoop, run_bind hstar]
    simp only [false_eq_true, if_false]
    rw [run_bind hparen]
    simp only [if_true]
    rw [run_bind hargs]
    exact (run_bind hclose).trans rfl

mutual
/-- The tokens of a type are read as the type. -/
theorem read_type : (type : LrType) → Literal type → Parsable type → Read type
  | .scalar a _, _, hparsable => read_scalar a hparsable
  | .ptr a elem, _, _ => read_ptr a elem
  | .array a elem count, hliteral, hparsable =>
    read_array a count (read_type elem hliteral hparsable)
  | .vector a elem count, hliteral, hparsable =>
    read_vector a count (read_type elem hliteral hparsable)
  | .struct a fields packed name, hliteral, hparsable =>
    read_struct a packed name hliteral.2.1 (read_types fields hliteral.2.2 hparsable)
  | .func a ret params vararg, hliteral, hparsable =>
    read_func a vararg hparsable.1 (read_type ret hliteral.1 hparsable.2.1)
      (read_types params hliteral.2 hparsable.2.2)

theorem read_types : (types : List LrType) → AllLiteral types → AllParsable types →
    ∀ type ∈ types, Read type
  | [], _, _, _, h => absurd h not_mem_nil
  | first :: types, hliteral, hparsable, type, h => by
    rcases mem_cons.1 h with hfirst | h
    · rw [hfirst]
      exact read_type first hliteral.1 hparsable.1
    · exact read_types types hliteral.2 hparsable.2 type h
end

/-- The module has its types, and no type name stands for a type without a text. -/
def Clean (p : Parser) : Prop :=
  (∃ addr, p.builtin = lrModuleCreateTypes addr) ∧ ∀ e ∈ p.typeMap, Parsable e.type

section Clean

theorem clean_of_same {q : Parser} (h : Clean p) (hbuiltin : q.builtin = p.builtin)
    (hmap : q.typeMap = p.typeMap) : Clean q := by
  rw [Clean, hbuiltin, hmap]
  exact h

theorem clean_curTok : Stays Clean curTok := by
  refine ⟨fun p a q h hrun => ?_⟩
  cases hrun
  exact h

theorem clean_check (kind : TokKind) : Stays Clean (check kind) := by
  refine ⟨fun p a q h hrun => ?_⟩
  cases hrun
  exact h

theorem clean_next : Stays Clean next := by
  refine ⟨fun p a q h hrun => ?_⟩
  cases hrun
  exact clean_of_same h rfl rfl

theorem clean_reportError (e : ParseError) : Stays Clean (reportError e) := by
  refine ⟨fun p a q h hrun => ?_⟩
  cases hrun
  exact clean_of_same h rfl rfl

theorem clean_accept (kind : TokKind) : Stays Clean (accept kind) := by
  refine ⟨fun p a q h hrun => ?_⟩
  unfold accept at hrun
  split at hrun
  · cases hrun
    exact clean_of_same h rfl rfl
  · cases hrun
    exact h

theorem clean_expect (kind : TokKind) : Stays Clean (expect kind) :=
  Stays.bind (clean_accept kind) (fun _ => Stays.ite (Stays.pure _)
    (Stays.bind clean_curTok (fun _ => clean_reportError _)))

/-- A type with a text. -/
def Good (type : LrType) (p : Parser) : Prop := Parsable type ∧ Clean p

/-- Types that fit an array of parameters. -/
def GoodList (types : List LrType) (p : Parser) : Prop :=
  (types.length ≤ 256 ∧ AllParsable types) ∧ Clean p

theorem good_allocType {mk : Nat → LrType} (h : ∀ addr, Parsable (mk addr)) :
    Partial Clean (allocType mk) Good := by
  intro p a q hp hrun
  cases hrun
  exact ⟨h _, clean_of_same hp rfl rfl⟩

theorem good_resolveOrCreateForwardType (name : CStr) :
    Partial Clean (resolveOrCreateForwardType name) Good := by
  intro p ty q hp hrun
  obtain ⟨known, p', hresolve, hrest⟩ := run_bind_inv hrun
  cases hresolve
  cases hfind : p.typeMap.find? (fun e => e.name == name) with
  | some entry =>
    rw [hfind] at hrest
    cases hrest
    exact ⟨hp.2 entry (mem_of_find?_eq_some hfind), hp⟩
  | none =>
    rw [hfind] at hrest
    cases hrest
    refine ⟨trivial, hp.1, ?_⟩
    intro e he
    rcases mem_append.1 he with he | he
    · exact hp.2 e he
    · rw [mem_singleton.1 he]
      trivial

theorem allParsable_snoc {types : List LrType} (htypes : AllParsable types)
    (htype : Parsable type) : AllParsable (types ++ [type]) := by
  induction types with
  | nil => exact ⟨htype, trivial⟩
  | cons first types ih => exact ⟨htypes.1, ih htypes.2⟩

theorem good_pushBounded {types : List LrType} :
    Partial (fun p => AllParsable types ∧ Good type p) (pushBounded types type) GoodList := by
  rintro p a q ⟨htypes, htype, hp⟩ hrun
  unfold pushBounded at hrun
  split at hrun
  · rename_i hlen
    cases hrun
    refine ⟨⟨?_, allParsable_snoc htypes htype⟩, hp⟩
    rw [length_append, length_singleton]
    exact hlen
  · cases hrun

variable {elem : P LrType} (helem : Partial Clean elem Good)
include helem

theorem good_fieldsLoop (fuel : Nat) (fields : List LrType) :
    Partial (GoodList fields) (fieldsLoop elem fuel fields) GoodList := by
  induction fuel generalizing fields with
  | zero => exact fun p a q hp hrun => absurd hrun (by simp [fieldsLoop, undefined])
  | succ fuel ih =>
    refine Partial.assume fun hfields => ?_
    refine Partial.bind (clean_accept _).run fun _ => Partial.ite ?_ (Partial.pure fun p hp =>
      ⟨hfields, hp⟩)
    refine Partial.bind helem fun type => ?_
    intro p a q hp hrun
    obtain ⟨types, r, hpush, hrest⟩ := run_bind_inv hrun
    exact ih types r a q (good_pushBounded p types r ⟨hfields.2, hp⟩ hpush) hrest

omit helem in
theorem goodList_single (h : Good type p) : GoodList [type] p :=
  ⟨⟨by simp, h.1, trivial⟩, h.2⟩

theorem good_parseFields : Partial Clean (parseFields elem) GoodList := by
  refine Partial.bind (clean_check _).run fun empty => ?_
  apply Partial.ite
  · exact Partial.pure fun p hp => ⟨⟨by simp, trivial⟩, hp⟩
  · refine Partial.bind helem fun first => ?_
    intro p types q hp hrun
    exact good_fieldsLoop helem _ _ p types q (goodList_single hp) hrun

theorem good_parseCounted (closing : TokKind) {mk : Nat → LrType → BitVec 64 → LrType}
    (hmk : ∀ addr elem count, Parsable elem → Parsable (mk addr elem count)) :
    Partial Clean (parseCounted elem closing mk) Good := by
  refine Partial.bind clean_curTok.run fun count => ?_
  refine Partial.bind (clean_expect _).run fun _ => ?_
  refine Partial.bind (clean_expect _).run fun _ => ?_
  refine Partial.bind helem fun type => ?_
  apply Partial.assume
  intro htype
  refine Partial.bind (clean_expect _).run fun _ => ?_
  exact good_allocType fun addr => hmk addr type _ htype

theorem good_paramsLoop (fuel : Nat) (params : List LrType) :
    Partial (GoodList params) (paramsLoop elem fuel params) (fun result => GoodList result.1) := by
  induction fuel generalizing params with
  | zero => exact fun p a q hp hrun => absurd hrun (by simp [paramsLoop, undefined])
  | succ fuel ih =>
    apply Partial.assume
    intro hparams
    have hdone : ∀ vararg : Bool, Partial Clean (pure (params, vararg) : P (List LrType × Bool))
        (fun result => GoodList result.1) := fun vararg => Partial.pure fun p hp => ⟨hparams, hp⟩
    refine Partial.bind (clean_accept _).run fun comma => ?_
    apply Partial.ite
    · refine Partial.bind (clean_accept _).run fun dots => ?_
      apply Partial.ite (hdone true)
      refine Partial.bind helem fun type => ?_
      intro p result q hp hrun
      obtain ⟨types, r, hpush, hrest⟩ := run_bind_inv hrun
      exact ih types r result q (good_pushBounded p types r ⟨hparams.2, hp⟩ hpush) hrest
    · exact hdone false

theorem good_parseParams : Partial Clean (parseParams elem) (fun result => GoodList result.1) := by
  have hempty : ∀ vararg : Bool, Partial Clean (pure ([], vararg) : P (List LrType × Bool))
      (fun result => GoodList result.1) := fun vararg =>
    Partial.pure fun p hp => ⟨⟨by simp, trivial⟩, hp⟩
  refine Partial.bind (clean_check _).run fun empty => ?_
  apply Partial.ite (hempty false)
  refine Partial.bind (clean_accept _).run fun dots => ?_
  apply Partial.ite (hempty true)
  refine Partial.bind helem fun first => ?_
  intro p result q hp hrun
  exact good_paramsLoop helem _ _ p result q (goodList_single hp) hrun

theorem good_suffixLoop (fuel : Nat) (type : LrType) :
    Partial (Good type) (suffixLoop elem fuel type) Good := by
  induction fuel generalizing type with
  | zero => exact fun p a q hp hrun => absurd hrun (by simp [suffixLoop, undefined])
  | succ fuel ih =>
    apply Partial.assume
    intro htype
    refine Partial.bind (clean_accept _).run fun star => ?_
    apply Partial.ite
    · intro p ty q hp hrun
      obtain ⟨addr, hbuiltin⟩ := hp.1
      have hptr : Parsable p.builtin.typePtr := by
        rw [hbuiltin]
        trivial
      exact ih _ p ty q ⟨hptr, hp⟩ hrun
    · refine Partial.bind (clean_accept _).run fun paren => ?_
      apply Partial.ite
      · refine Partial.bind (good_parseParams helem) fun result => ?_
        apply Partial.assume
        intro hparams
        refine Partial.bind (clean_expect _).run fun _ => ?_
        exact Partial.bind (good_allocType fun addr => ⟨hparams.1, htype, hparams.2⟩) ih
      · exact Partial.pure fun p hp => ⟨htype, hp⟩

theorem good_parseStruct (packed : Bool) : Partial Clean (parseStruct elem packed) Good := by
  have hangle : Stays Clean (expectIf packed .tokRangle) :=
    Stays.ite (clean_expect _) (Stays.pure _)
  refine Partial.bind (good_parseFields helem) fun fields => ?_
  apply Partial.assume
  intro hfields
  refine Partial.bind (clean_expect _).run fun _ => ?_
  refine Partial.bind hangle.run fun _ => ?_
  exact good_allocType fun addr => hfields.2

omit helem in
theorem parsable_builtin {kind : TokKind}
    (h : builtinType (lrModuleCreateTypes addr) kind = some type) : Parsable type := by
  unfold builtinType at h
  split at h <;> cases h <;> simp [lrModuleCreateTypes, Parsable]

omit helem in
theorem good_typeVoid :
    Partial Clean (get >>= fun p : Parser => pure p.builtin.typeVoid : P LrType) Good := by
  intro p type q hp hrun
  obtain ⟨addr, hbuiltin⟩ := hp.1
  cases hrun
  refine ⟨?_, hp⟩
  rw [hbuiltin]
  simp [lrModuleCreateTypes, Parsable]

omit helem in
theorem clean_get :
    Partial Clean (get : P Parser) (fun p q => (∃ a, p.builtin = lrModuleCreateTypes a) ∧ Clean q) :=
  Partial.get fun _ hp => ⟨hp.1, hp⟩

theorem good_parseTypeHead : Partial Clean (parseTypeHead elem) Good := by
  refine Partial.bind clean_curTok.run fun t => Partial.bind clean_get fun p => Partial.assume ?_
  rintro ⟨addr, hbuiltin⟩
  cases hkind : builtinType p.builtin t.kind with
  | some ty =>
    have hty : Parsable ty := parsable_builtin (hbuiltin ▸ hkind)
    exact Partial.bind clean_next.run (fun _ => Partial.pure fun p hp => ⟨hty, hp⟩)
  | none =>
    refine Partial.ite ?_ (Partial.ite ?_ (Partial.ite ?_ (Partial.ite ?_ ?_)))
    · exact Partial.bind clean_next.run fun _ => good_resolveOrCreateForwardType _
    · exact Partial.bind clean_next.run fun _ => good_parseCounted helem _ fun _ _ _ h => h
    · exact Partial.bind clean_next.run fun _ => good_parseStruct helem false
    · exact Partial.bind clean_next.run fun _ => Partial.bind (clean_check _).run fun _ =>
        Partial.ite (good_parseCounted helem _ fun _ _ _ h => h)
          (Partial.bind (clean_expect _).run fun _ => good_parseStruct helem true)
    · exact Partial.bind (clean_reportError _).run fun _ => good_typeVoid

omit helem in
/-- Only types with a text come out of `parse_type`. -/
theorem good_parseType (depth : Nat) : Partial Clean (parseType depth) Good := by
  induction depth with
  | zero => exact fun p a q hp hrun => absurd hrun (by simp [parseType, undefined])
  | succ depth ih =>
    refine Partial.bind (good_parseTypeHead ih) fun type => ?_
    intro p ty q hp hrun
    exact good_suffixLoop ih _ type p ty q hp hrun

end Clean

mutual
theorem Parsable.of_equal : (type ty : LrType) → typeEqualsRecursive type ty = true →
    Parsable ty → Parsable type
  | .scalar _ k, .scalar _ l, h, hty => by
    rw [typeEqualsRecursive, decide_eq_true_eq] at h
    rw [h]
    exact hty
  | .ptr .., .ptr .., _, _ => trivial
  | .array _ e _, .array _ f _, h, hty => by
    rw [typeEqualsRecursive, and_eq_true] at h
    exact Parsable.of_equal e f h.2 hty
  | .vector _ e _, .vector _ f _, h, hty => by
    rw [typeEqualsRecursive, and_eq_true] at h
    exact Parsable.of_equal e f h.2 hty
  | .struct _ fs _ _, .struct _ gs _ _, h, hty => by
    rw [typeEqualsRecursive, and_eq_true] at h
    exact (AllParsable.of_equal fs gs h.2 hty).2
  | .func _ r ps _, .func _ s qs _, h, hty => by
    rw [typeEqualsRecursive, and_eq_true, and_eq_true] at h
    have hparams := AllParsable.of_equal ps qs h.2 hty.2.2
    exact ⟨hparams.1 ▸ hty.1, Parsable.of_equal r s h.1.1 hty.2.1, hparams.2⟩

theorem AllParsable.of_equal : (types tys : List LrType) → fieldsEqualRecursive types tys = true →
    AllParsable tys → tys.length = types.length ∧ AllParsable types
  | [], [], _, _ => ⟨rfl, trivial⟩
  | f :: fs, g :: gs, h, hty => by
    rw [fieldsEqualRecursive, and_eq_true] at h
    have hrest := AllParsable.of_equal fs gs h.2 hty.2
    exact ⟨by simp [hrest.1], Parsable.of_equal f g h.1 hty.1, hrest.2⟩
end

/-- A type whose structs are literal and have at most 256 fields. -/
structure LiteralType where
  type : LrType
  literal : Literal type

/-- The text of the type is read to its end, and what it is read as is equal to the type. -/
def RoundTrips (t : LiteralType) : Prop :=
  ∀ (strtod : CStr → BitVec 64) (p : Parser) (addr : Nat), p.builtin = lrModuleCreateTypes addr →
    p.toks = lexText strtod (printType t.type) →
    ∃ d, ∀ depth ≥ d, ∃ ty q, parseType depth p = some (ty, q) ∧ q.toks = [] ∧
      q.error = p.error ∧ typeEqualsRecursive t.type ty = true

theorem roundTrips_of_parsable {t : LiteralType} (h : Parsable t.type) : RoundTrips t := by
  intro strtod p addr hbuiltin htoks
  have hlexed : Lexes strtod (printType t.type ++ []) (typeTokens t.type) [] :=
    lexes_type t.type t.literal breaks_nil
  have hend : lexText strtod [] = [] := lexText_end drop_nil
  have htokens : p.toks = typeTokens t.type ++ [] := by
    rw [htoks, ← append_nil (printType t.type), hlexed, hend]
  refine ⟨typeDepth t.type + 1, fun depth hdepth => ?_⟩
  obtain ⟨d, rfl⟩ : ∃ d, depth = d + 1 := ⟨depth - 1, by omega⟩
  have hreads : Reads (parseType (d + 1)) t.type :=
    (read_type t.type t.literal h).reads (Nat.le_of_succ_le_succ hdepth)
  obtain ⟨ty, n, heq, hrun⟩ := hreads p [] addr htokens hbuiltin (by simp [Ends])
  exact ⟨ty, behind p [] n, hrun, rfl, rfl, heq⟩

theorem parsable_of_roundTrips {t : LiteralType} (h : RoundTrips t) : Parsable t.type := by
  let p : Parser :=
    { toks := lexText (fun _ => 0) (printType t.type)
      builtin := lrModuleCreateTypes 0
      symbols := .empty
      nextAddr := 0 }
  obtain ⟨d, hdepth⟩ := h (fun _ => 0) p 0 rfl rfl
  obtain ⟨ty, q, hrun, -, -, heq⟩ := hdepth d (le_refl d)
  have hclean : Clean p := ⟨⟨0, rfl⟩, by simp [p]⟩
  exact Parsable.of_equal t.type ty heq (good_parseType d p ty q hclean hrun).1

/-- Without `fp128` and with at most 256 parameters in each function, and only then, a type is
the same behind its text. -/
theorem roundTrips_iff (t : LiteralType) : RoundTrips t ↔ Parsable t.type :=
  ⟨parsable_of_roundTrips, roundTrips_of_parsable⟩

/-- To the lexer `fp128` is a name. -/
theorem fp128_lost : ¬ RoundTrips ⟨.scalar 0 .fp128, trivial⟩ := by
  intro h
  exact parsable_of_roundTrips h rfl

end Liric.Guarantees.TypeTexts
