import Liric.Source.Object.CompileFunction

/-!
# Compiling into a buffer that may be too small

A first attempt that needs more code than there is room for is taken back and made again in a
buffer of the size that it has counted. The result is that of one attempt in a buffer that is
large enough, for every capacity and every place of the function in the code.
-/
namespace Liric.Guarantees.CompileRetry
open Lib Lib.BoundedEmit Lib.BoundedEmit.Code Source.Ir Source.X8664 Source.Object List

variable {i need : Nat} {result : ObjCodeResult × Option Nat}

section Symbols
variable (remap : CStr → CStr) (oc : ObjfileCtx)

/-- A reference adds a symbol at most. -/
theorem ensureReference_eq (name : CStr) :
    ensureReference remap oc name =
      match oc.symbols.findIdx? fun sym => sym.name == remap name with
      | some i => (oc, i)
      | none => ({ oc with symbols := oc.symbols ++ [{
          name := remap name
          hash := symbolHash (remap name)
          offset := 0
          sectionId := 0
          isDefined := false
          isLocal := false
          isWeak := false }] }, oc.symbols.length) := by
  have hdefine : defineSymbol false 0 0 = id := by
    funext sym
    simp [defineSymbol]
  unfold ensureReference lrObjEnsureSymbol
  cases hfind : oc.symbols.findIdx? fun sym => sym.name == remap name with
  | some i =>
    have hmodify : oc.symbols.modify i (defineSymbol false 0 0) = oc.symbols := by
      rw [hdefine, modify_id]
    simp only [hfind, hmodify]
  | none =>
    simp only [hfind, Bool.false_and]

theorem ensureReference_known (name : CStr) (i : Nat) :
    ensureReference remap oc name = (oc, i) ↔
      oc.symbols.findIdx? (fun sym => sym.name == remap name) = some i := by
  rw [ensureReference_eq]
  cases hfind : oc.symbols.findIdx? fun sym => sym.name == remap name with
  | some j => simp
  | none =>
    simp only [Prod.mk.injEq, reduceCtorEq, iff_false, not_and]
    intro hsame
    have hlen := congrArg (fun oc : ObjfileCtx => oc.symbols.length) hsame
    simp at hlen

theorem ensureReference_symbols (name : CStr) :
    ∃ more, (ensureReference remap oc name).1.symbols = oc.symbols ++ more := by
  rw [ensureReference_eq]
  split
  · exact ⟨[], (append_nil _).symm⟩
  · exact ⟨_, rfl⟩

theorem ensureReference_relocs (name : CStr) :
    (ensureReference remap oc name).1.relocs = oc.relocs := by
  rw [ensureReference_eq]
  split <;> rfl

/-- Symbols keep their places. -/
theorem ensureReference_stable : Stable (ensureReference remap) := by
  constructor
  · intro oc name
    have hfound : (ensureReference remap oc name).1.symbols.findIdx?
        (fun sym => sym.name == remap name) = some (ensureReference remap oc name).2 := by
      rw [ensureReference_eq]
      cases hfind : oc.symbols.findIdx? fun sym => sym.name == remap name with
      | some i => exact hfind
      | none => simp [findIdx?_append, hfind]
    exact (ensureReference_known remap _ name _).2 hfound
  · intro oc name i other h
    obtain ⟨more, hmore⟩ := ensureReference_symbols remap oc other
    rw [ensureReference_known] at h ⊢
    rw [hmore, findIdx?_append, h]
    rfl

end Symbols

section Patches
variable {σ : Type} {x : X86Selection σ} {raws : Bool} {p : Nat} {c : X86Direct σ}

/-- All places that are patched at the end are of code that is emitted. -/
structure Placed (c : X86Direct σ) (p : Nat) : Prop where
  prologue : c.prologuePatchPos + 4 ≤ p
  fixups : ∀ fixup ∈ c.fixups, fixup.pos + 4 ≤ p

theorem Placed.later (h : Placed c p) {p' : Nat} (hle : p ≤ p') : Placed c p' :=
  ⟨le_trans h.prologue hle, fun fixup hmem => le_trans (h.fixups fixup hmem) hle⟩

theorem Placed.congr {c' : X86Direct σ} (h : Placed c p)
    (hprologue : c'.prologuePatchPos = c.prologuePatchPos) (hfixups : c'.fixups = c.fixups) :
    Placed c' p :=
  ⟨by rw [hprologue]; exact h.prologue, by rw [hfixups]; exact h.fixups⟩

/-- Code goes on behind `p`, and the places are all in it. -/
def Goes (p : Nat) (c : X86Direct σ) (p' : Nat) : Prop := p ≤ p' ∧ Placed c p'

theorem Goes.from {q p' : Nat} (h : Goes p c p') (hle : q ≤ p) : Goes q c p' :=
  ⟨le_trans hle h.1, h.2⟩

theorem behind_pure (h : Placed c p) : (pure c : X86Code (X86Direct σ)).Behind raws p (Goes p) :=
  ⟨le_refl p, h⟩

theorem behind_emitByte (b : UInt8) : (emitByte b).Behind raws p fun _ p' => p' = p + 1 := rfl

theorem behind_emitU32 (v : BitVec 32) : (emitU32 v).Behind raws p fun _ p' => p' = p + 4 := by
  have h : (emitU32 v).Behind raws p _ := behind_putAll _
  rwa [length_leBytes] at h

/-- Code of the selection. -/
theorem behind_plain {code : PlainCode CStr ObjReloc σ} {f : σ → X86Direct σ}
    (h : ∀ cc, Placed (f cc) p) :
    (do let cc ← code.code; pure (f cc) : X86Code (X86Direct σ)).Behind raws p (Goes p) := by
  apply code.plain.behind.seq
  intro cc p' hle
  exact ⟨hle, (h cc).later hle⟩

theorem behind_emitJmpSourced (h : Placed c p) (target source : Nat) :
    (emitJmpSourced c target source).Behind raws p (Goes p) := by
  apply (behind_emitByte 0xE9).seq
  rintro _ _ rfl
  apply Behind.bind
  change (emitU32 0 >>= _ : X86Code (X86Direct σ)).Behind raws (p + 1) _
  apply (behind_emitU32 0).seq
  rintro _ _ rfl
  refine ⟨by omega, ⟨?_, ?_⟩⟩
  · have hprologue := h.prologue
    change c.prologuePatchPos + 4 ≤ _
    omega
  · intro fixup hmem
    rcases mem_append.1 hmem with hold | hnew
    · have hfixup := h.fixups fixup hold
      omega
    · rw [mem_singleton.1 hnew]

theorem behind_emitPhiCopies (h : Placed c p) (pred succ : Nat) (onlyUnemitted : Bool) :
    (emitPhiCopies x c pred succ onlyUnemitted).Behind raws p (Goes p) := by
  unfold emitPhiCopies
  lift_lets
  intro copies
  split
  · exact behind_pure h
  · exact behind_plain fun _ => h.congr rfl rfl

theorem behind_encodeTestByte :
    (encodeTestByte 0 0).Behind raws p fun _ p' => p ≤ p' := by
  change p ≤ p + 1 + 1
  omega

theorem behind_emitEpilogue : emitEpilogue.Behind raws p fun _ p' => p ≤ p' := by
  change p ≤ p + 1 + 1 + 1 + 1 + 1
  omega

theorem behind_emitCondbr (h : Placed c p) (blockId : Nat) (cond : LrOperand)
    (trueId falseId : Nat) :
    (emitCondbr x c blockId cond trueId falseId).Behind raws p (Goes p) := by
  apply (x.loadRax cond c.cc).plain.behind.seq
  intro cc p₁ h₁
  apply behind_encodeTestByte.seq
  intro _ p₂ h₂
  apply (behind_emitByte 0x0F).seq
  rintro _ _ rfl
  apply (behind_emitByte 0x85).seq
  rintro _ _ rfl
  change (emitU32 0 >>= _ : X86Code (X86Direct σ)).Behind raws (p₂ + 1 + 1) _
  apply (behind_emitU32 0).seq
  rintro _ _ rfl
  have hcc : Placed { c with cc := cc } (p₂ + 1 + 1 + 4) := (h.later (by omega)).congr rfl rfl
  apply (behind_emitPhiCopies hcc blockId falseId false).seq
  rintro c₃ p₃ ⟨h₃, hplaced₃⟩
  apply (behind_emitJmpSourced hplaced₃ falseId blockId).seq
  rintro c₄ p₄ ⟨h₄, hplaced₄⟩
  -- the field of the JCC is patched here
  refine ⟨by omega, ?_⟩
  have hinvalid : Placed { c₄ with cc := x.invalidate c₄.cc } p₄ := hplaced₄.congr rfl rfl
  apply (behind_emitPhiCopies hinvalid blockId trueId false).seq
  rintro c₅ p₅ ⟨h₅, hplaced₅⟩
  exact (behind_emitJmpSourced hplaced₅ trueId blockId).mono fun _ _ hgoes =>
    hgoes.from (by omega)

theorem behind_emitTerm (h : Placed c p) (dt : DirectTerm) :
    (emitTerm x c dt).Behind raws p (Goes p) := by
  have hleave : (do emitEpilogue; pure c : X86Code (X86Direct σ)).Behind raws p (Goes p) := by
    apply behind_emitEpilogue.seq
    intro _ p' hle
    exact ⟨hle, h.later hle⟩
  unfold emitTerm
  lift_lets
  intro op
  split
  · apply (x.returnValue (op 0) c.cc).plain.behind.seq
    intro cc p₁ h₁
    apply behind_emitEpilogue.seq
    intro _ p₂ h₂
    exact ⟨by omega, (h.later (by omega)).congr rfl rfl⟩
  · exact hleave
  · exact hleave
  · apply (behind_emitPhiCopies h dt.blockId (blockIdOf (op 0)) false).seq
    rintro c₁ p₁ ⟨h₁, hplaced₁⟩
    exact (behind_emitJmpSourced hplaced₁ _ _).mono fun _ _ hgoes => hgoes.from h₁
  · exact behind_emitCondbr h ..
  · exact behind_pure h

theorem behind_flush (h : Placed c p) : (flushDeferredTerminator x c).Behind raws p (Goes p) := by
  unfold flushDeferredTerminator
  split
  · exact behind_pure h
  · next dt _ =>
    have hwaiting : Placed { c with deferred := none } p := h.congr rfl rfl
    exact behind_emitTerm hwaiting dt

theorem behind_flushIf (h : Placed c p) (flush : Bool) :
    (flushIf x flush c).Behind raws p (Goes p) := by
  unfold flushIf
  split
  · exact behind_flush h
  · exact behind_pure h

theorem behind_setBlock (h : Placed c p) (blockId : Nat) :
    (x8664CompileSetBlock x c blockId).Behind raws p (Goes p) := by
  unfold x8664CompileSetBlock
  split
  · trivial
  · apply (behind_flushIf h _).seq
    rintro c₁ p₁ ⟨h₁, hplaced₁⟩
    exact ⟨h₁, hplaced₁.congr rfl rfl⟩

theorem behind_emitPrelude (h : Placed c p) (inst : LrInst) (current : Nat) :
    (emitPrelude x c inst current).Behind raws p (Goes p) := by
  unfold emitPrelude
  split
  · exact behind_pure h
  · apply (behind_flushIf h _).seq
    rintro c₁ p₁ ⟨h₁, hplaced₁⟩
    exact ⟨h₁, hplaced₁.congr rfl rfl⟩

/-- UITOFP of an operand of at most 32 bits. -/
def IsNarrowUitofp (inst : LrInst) : Prop :=
  inst.op = .uitofp ∧ (inst.operands.getD 0 nullOperand).type.elim 0 lrTypeSize ≤ 4

theorem behind_emitUitofp {cc : σ} {inst : LrInst} (hraws : IsNarrowUitofp inst → raws = true)
    (hop : inst.op = .uitofp) :
    (emitUitofp x cc inst).Behind raws p fun _ p' => p ≤ p' := by
  apply (x.loadRax (inst.operands.getD 0 nullOperand) cc).plain.behind.seq
  intro cc₁ p₁ h₁
  have hwiden : (codeIf ((inst.operands.getD 0 nullOperand).type.elim 0 lrTypeSize ≤ 4)
      emitMovEaxRaw).Behind raws p₁ fun _ p' => p₁ ≤ p' := by
    unfold codeIf
    split
    · next hnarrow =>
      have hraw := hraws ⟨hop, hnarrow⟩
      exact ⟨hraw, hraw, Nat.le_add_right p₁ 2⟩
    · exact le_refl p₁
  apply hwiden.seq
  intro _ p₂ h₂
  apply (x.convertRax inst cc₁).plain.behind.mono
  intro _ p₃ h₃
  omega

theorem behind_compileEmit (h : Placed c p) {inst : LrInst}
    (hraws : IsNarrowUitofp inst → raws = true) :
    (x8664CompileEmit x c inst).Behind raws p (Goes p) := by
  unfold x8664CompileEmit
  split
  · trivial
  · next current _ =>
    apply (behind_emitPrelude h inst current).seq
    rintro c₁ p₁ ⟨h₁, hplaced₁⟩
    have hnoted : Placed { c₁ with cc := x.noteVregs inst c₁.cc } p₁ := hplaced₁.congr rfl rfl
    split
    all_goals try exact ⟨h₁, hnoted.congr rfl rfl⟩
    · next hop =>
      apply (behind_emitUitofp hraws hop).seq
      intro cc p₂ h₂
      exact ⟨by omega, (hnoted.later h₂).congr rfl rfl⟩
    · apply (x.select inst (x.noteVregs inst c₁.cc)).plain.behind.seq
      intro cc p₂ h₂
      exact ⟨by omega, (hnoted.later h₂).congr rfl rfl⟩

theorem behind_lateStub (h : Placed c p) (fi : Nat) : (lateStub x c fi).Behind raws p (Goes p) := by
  unfold lateStub
  split
  · exact behind_pure h
  · next fixup hfixup =>
    have hfield : fixup.pos + 4 ≤ p := h.fixups fixup (mem_of_getElem? hfixup)
    split
    · exact behind_pure h
    · split
      · have hinvalid : Placed { c with cc := x.invalidate c.cc } p := h.congr rfl rfl
        change (emitPhiCopies x _ _ _ _ >>= _).Behind raws p _
        apply (behind_emitPhiCopies hinvalid fixup.source fixup.target true).seq
        rintro c₁ p₁ ⟨h₁, hplaced₁⟩
        have hinvalid₁ : Placed { c₁ with cc := x.invalidate c₁.cc } p₁ := hplaced₁.congr rfl rfl
        apply (behind_emitJmpSourced hinvalid₁ fixup.target uint32Max).seq
        rintro c₂ p₂ ⟨h₂, hplaced₂⟩
        refine ⟨by omega, by omega, hplaced₂.prologue, fun other hmem => ?_⟩
        rcases mem_or_eq_of_mem_set hmem with hold | rfl
        · exact hplaced₂.fixups other hold
        · change fixup.pos + 4 ≤ p₂
          omega
      · exact behind_pure h

theorem behind_bindFixups {fixups : List X86Fixup} (h : ∀ fixup ∈ fixups, fixup.pos + 4 ≤ p) :
    (fixups.forM (bindFixup c)).Behind raws p fun _ p' => p ≤ p' := by
  induction fixups with
  | nil => exact le_refl p
  | cons fixup fixups ih =>
    have hfirst : (bindFixup c fixup).Behind raws p fun _ p' => p' = p := by
      unfold bindFixup
      split
      · rfl
      · split
        · rfl
        · exact ⟨h fixup mem_cons_self, rfl⟩
    change (bindFixup c fixup >>= fun _ => fixups.forM (bindFixup c)).Behind raws p _
    apply hfirst.seq
    rintro _ _ rfl
    exact ih fun other hmem => h other (mem_cons_of_mem _ hmem)

theorem behind_compileEnd (h : Placed c p) :
    (x8664CompileEnd x c).Behind raws p fun _ p' => p ≤ p' := by
  apply (behind_flush h).seq
  rintro c₁ p₁ ⟨h₁, hplaced₁⟩
  have hlate : ((range c₁.fixups.length).foldlM (lateStub x) c₁).Behind raws p₁
      (Goes p₁) := by
    apply Behind.foldlM _ _ ⟨le_refl p₁, hplaced₁⟩
    rintro c₂ p₂ fi - ⟨h₂, hplaced₂⟩
    exact (behind_lateStub hplaced₂ fi).mono fun _ _ hgoes => hgoes.from h₂
  apply hlate.seq
  rintro c₂ p₂ ⟨h₂, hplaced₂⟩
  apply (behind_bindFixups hplaced₂.fixups).seq
  intro _ p₃ h₃
  have hprologue := hplaced₂.prologue
  have hend : p ≤ p₃ := by omega
  exact ⟨by omega, hend⟩

/-- Phi copies are registered without code. -/
theorem placed_replayPhiCopies (f : LrFunc) (h : Placed c p) :
    Placed (replayPhiCopies x f c) p := by
  have hfold : ∀ {γ : Type} (g : X86Direct σ → γ → X86Direct σ) (l : List γ),
      (∀ c a, Placed c p → Placed (g c a) p) → ∀ {c}, Placed c p → Placed (l.foldl g c) p := by
    intro γ g l hg
    induction l with
    | nil => exact fun h => h
    | cons a l ih => exact fun h => ih (hg _ a h)
  apply hfold _ _ _ h
  intro c b hc
  apply hfold _ _ _ hc
  intro c inst hc
  apply hfold _ _ _ hc
  intro c pair hc
  exact hc.congr rfl rfl

theorem behind_replayBlock (h : Placed c p) {b : LrBlock}
    (hraws : ∀ inst ∈ b.insts, IsNarrowUitofp inst → raws = true) :
    (replayBlock x c b).Behind raws p (Goes p) := by
  apply (behind_setBlock h b.id).seq
  rintro c₁ p₁ ⟨h₁, hplaced₁⟩
  have hinsts : (b.insts.foldlM (x8664CompileEmit x) c₁).Behind raws p₁ (Goes p₁) := by
    apply Behind.foldlM _ _ ⟨le_refl p₁, hplaced₁⟩
    rintro c₂ p₂ inst hmem ⟨h₂, hplaced₂⟩
    exact (behind_compileEmit hplaced₂ (hraws inst hmem)).mono fun _ _ hgoes => hgoes.from h₂
  apply hinsts.seq
  rintro c₂ p₂ ⟨h₂, hplaced₂⟩
  split
  · exact ⟨by omega, hplaced₂⟩
  · have hnarrow : IsNarrowUitofp (lrInstCreate .unreachable none 0 []) → raws = true := by
      rintro ⟨hop, -⟩
      cases hop
    exact (behind_compileEmit hplaced₂ hnarrow).mono fun _ _ hgoes => hgoes.from (by omega)

theorem behind_emitPrologue :
    emitPrologue.Behind raws p fun immPos p' => immPos + 4 ≤ p' := by
  change p + 1 + 1 + 1 + 1 + 1 + 1 + 1 + 4 ≤ _
  exact le_rfl

/-- Functions write raw bytes only in a UITOFP. -/
theorem behind_compileFunction (x : X86Selection σ) (f : LrFunc)
    (hraws : ∀ b ∈ f.blocks, ∀ inst ∈ b.insts, IsNarrowUitofp inst → raws = true) :
    (compileFunction x f).Behind raws 0 fun _ _ => True := by
  have hbegin : (x8664CompileBegin x f).Behind raws 0 fun c p => Placed c p := by
    apply behind_emitPrologue.seq
    intro immPos p₁ h₁
    apply (x.storeParams f (x.start f)).plain.behind.seq
    intro cc p₂ h₂
    exact ⟨le_trans h₁ h₂, by simp⟩
  apply hbegin.seq
  intro c p hplaced
  have hblocks : (f.blocks.foldlM (replayBlock x) (replayPhiCopies x f c)).Behind raws p
      fun c' p' => Placed c' p' := by
    apply Behind.foldlM _ _ (placed_replayPhiCopies f hplaced)
    intro c₁ p₁ b hmem hplaced₁
    exact (behind_replayBlock hplaced₁ (hraws b hmem)).mono fun _ _ hgoes => hgoes.2
  apply hblocks.seq
  intro c₁ p₁ hplaced₁
  exact (behind_compileEnd hplaced₁).mono fun _ _ _ => trivial

end Patches

section Attempt
variable {σ : Type} (x : X86Selection σ) (remap : CStr → CStr) (f : LrFunc) (ctx : ObjfileCtx)

/-- An attempt, of which only the bytes depend on the buffer. -/
def attempt (window : List UInt8) : Option Unit × Machine ObjfileCtx ObjReloc :=
  (compileFunction x f).run (ensureReference remap) { buffer := { bytes := window }, env := ctx }

/-- The length of the code. -/
def codeLength : Nat := (attempt x remap f ctx []).2.buffer.pos

/-- Where the code has the bytes of a MOV that are written without a look at the size. -/
def movPlaces : List Nat := (compileFunction x f).rawPlaces (ensureReference remap) ctx 0

/-- The target finds no error in the function. -/
def Compiles : Prop := (attempt x remap f ctx []).1 = some ()

/-- The context that a finished attempt leaves. -/
def finalCtx : ObjfileCtx :=
  { (attempt x remap f ctx []).2.env with
    relocs := ctx.relocs ++ (attempt x remap f ctx []).2.notes }

theorem attempt_blind (w : List UInt8) :
    (attempt x remap f ctx w).1 = (attempt x remap f ctx []).1 ∧
      Blind (attempt x remap f ctx []).2 (attempt x remap f ctx w).2 :=
  run_blind (compileFunction x f) ⟨rfl, rfl, rfl⟩

variable {x remap f ctx} {w w' : List UInt8}

theorem movPlaces_lt : ∀ p ∈ movPlaces x remap f ctx, p < codeLength x remap f ctx :=
  rawPlaces_lt (compileFunction x f) { buffer := { bytes := [] }, env := ctx }

theorem attempt_relocs (w : List UInt8) : (attempt x remap f ctx w).2.env.relocs = ctx.relocs := by
  have hkeeps : ∀ oc name, oc.relocs = ctx.relocs →
      (ensureReference remap oc name).1.relocs = ctx.relocs := fun oc name h =>
    (ensureReference_relocs remap oc name).trans h
  exact run_env hkeeps (compileFunction x f) rfl

theorem compile_stray (w : List UInt8) :
    (lrTargetCompile x remap f w ctx).stray =
      (movPlaces x remap f ctx).filter fun p => w.length ≤ p := by
  have hstray : (attempt x remap f ctx w).2.buffer.stray =
      [] ++ (movPlaces x remap f ctx).filter fun p => w.length ≤ p :=
    run_stray (compileFunction x f) { buffer := { bytes := w }, env := ctx }
  rw [nil_append] at hstray
  rw [← hstray, lrTargetCompile]
  split <;> rfl

theorem compile_window (w : List UInt8) :
    (lrTargetCompile x remap f w ctx).window = (attempt x remap f ctx w).2.buffer.bytes := by
  rw [lrTargetCompile]
  split <;> rfl

theorem compile_ctx (w : List UInt8) :
    (lrTargetCompile x remap f w ctx).ctx = finalCtx x remap f ctx := by
  obtain ⟨-, hblind⟩ := attempt_blind x remap f ctx w
  have hctx : (lrTargetCompile x remap f w ctx).ctx = { (attempt x remap f ctx w).2.env with
      relocs := (attempt x remap f ctx w).2.env.relocs ++ (attempt x remap f ctx w).2.notes } := by
    rw [lrTargetCompile]
    split <;> rfl
  rw [hctx, attempt_relocs, hblind.env, hblind.notes]
  rfl

theorem compile_done (h : Compiles x remap f ctx) (w : List UInt8) :
    (lrTargetCompile x remap f w ctx).rc = decide (codeLength x remap f ctx ≤ w.length) ∧
      (lrTargetCompile x remap f w ctx).need = codeLength x remap f ctx := by
  obtain ⟨hvalue, hblind⟩ := attempt_blind x remap f ctx w
  have hdone : (attempt x remap f ctx w).1 = some () := hvalue.trans h
  have hpos : (attempt x remap f ctx w).2.buffer.pos = codeLength x remap f ctx := hblind.pos
  unfold attempt at hdone hpos
  simp [lrTargetCompile, hdone, hpos]

theorem compile_failed (h : ¬ Compiles x remap f ctx) (w : List UInt8) :
    (lrTargetCompile x remap f w ctx).rc = false ∧ (lrTargetCompile x remap f w ctx).need = 0 := by
  obtain ⟨hvalue, -⟩ := attempt_blind x remap f ctx w
  have hnone : (attempt x remap f ctx w).1 = none := by
    rw [hvalue]
    cases hcase : (attempt x remap f ctx []).1 with
    | none => rfl
    | some u => exact absurd hcase h
  unfold attempt at hnone
  simp [lrTargetCompile, hnone]

/-- Two buffers that are large enough get the same code. -/
theorem compile_bytes (hw : codeLength x remap f ctx ≤ w.length)
    (hw' : codeLength x remap f ctx ≤ w'.length) (hi : i < codeLength x remap f ctx) :
    (lrTargetCompile x remap f w' ctx).window[i]? = (lrTargetCompile x remap f w ctx).window[i]? := by
  obtain ⟨-, hblind⟩ := attempt_blind x remap f ctx w
  obtain ⟨-, hblind'⟩ := attempt_blind x remap f ctx w'
  have hbehind : (compileFunction x f).Behind true 0 fun _ _ => True :=
    behind_compileFunction x f fun _ _ _ _ _ => rfl
  have halike : (attempt x remap f ctx w).2.buffer.Alike (attempt x remap f ctx w').2.buffer :=
    run_fresh (compileFunction x f) hbehind ctx w w'
      (le_trans (le_of_eq hblind.pos) hw) (le_trans (le_of_eq hblind'.pos) hw')
  rw [compile_window, compile_window]
  apply halike.bytes
  rw [hblind.pos]
  exact hi

/-- An attempt that is taken back leaves its symbols, and the next one does the same. -/
theorem compile_again (w w' : List UInt8) :
    lrTargetCompile x remap f w'
        { (lrTargetCompile x remap f w ctx).ctx with
          relocs := (lrTargetCompile x remap f w ctx).ctx.relocs.take ctx.relocs.length } =
      lrTargetCompile x remap f w' ctx := by
  obtain ⟨-, hblind⟩ := attempt_blind x remap f ctx w'
  have hrelocs : (attempt x remap f ctx []).2.env.relocs = ctx.relocs := attempt_relocs []
  have hback : { (lrTargetCompile x remap f w ctx).ctx with
      relocs := (lrTargetCompile x remap f w ctx).ctx.relocs.take ctx.relocs.length } =
      (attempt x remap f ctx w').2.env := by
    rw [compile_ctx, finalCtx, hblind.env]
    simp only [take_left]
    rw [← hrelocs]
  rw [hback]
  have hagain := run_again (ensureReference_stable remap) (compileFunction x f)
    { buffer := { bytes := w' }, env := ctx } fun _ _ h => h
  have hsame : (compileFunction x f).run (ensureReference remap)
      { buffer := { bytes := w' }, env := (attempt x remap f ctx w').2.env } =
      attempt x remap f ctx w' := hagain
  unfold lrTargetCompile
  rw [hsame]
  rfl

end Attempt

theorem doubleCap_ge {fuel cap : Nat} (h : need ≤ cap * 2 ^ fuel) :
    need ≤ doubleCap need fuel cap := by
  induction fuel generalizing cap with
  | zero => simpa [doubleCap] using h
  | succ fuel ih =>
    rw [doubleCap]
    split
    · apply ih
      rwa [Nat.mul_assoc, Nat.mul_comm 2, ← Nat.pow_succ]
    · next hcap => exact Nat.not_lt.1 hcap

theorem objGrowBuffer_ge {cap cap' : Nat} (h : objGrowBuffer cap need = some cap') :
    need ≤ cap' := by
  unfold objGrowBuffer at h
  split at h
  · next hfits =>
    cases h
    exact hfits
  · obtain ⟨hbound, h⟩ := Option.ite_none_left_eq_some.1 h
    cases h
    apply doubleCap_ge
    split <;> omega

variable {buf' : List UInt8}

theorem objEnsureCodeCapacity_spec {buf : List UInt8}
    (h : objEnsureCodeCapacity buf need = some buf') :
    need ≤ buf'.length ∧ buf.length ≤ buf'.length ∧ ∀ i < buf.length, buf'[i]? = buf[i]? := by
  obtain ⟨cap, hgrow, rfl⟩ := Option.map_eq_some_iff.1 h
  have hneed := objGrowBuffer_ge hgrow
  refine ⟨?_, ?_, fun i hi => ?_⟩
  · rw [length_append, length_replicate]
    omega
  · rw [length_append]
    omega
  · rw [getElem?_append_left hi]

theorem objEnsureCodeCapacity_fits {buf : List UInt8} (h : need ≤ buf.length) :
    objEnsureCodeCapacity buf need = some buf := by
  simp [objEnsureCodeCapacity, objGrowBuffer, h]

section Loop
variable {σ : Type} (x : X86Selection σ) (remap : CStr → CStr) (f : LrFunc) (codeOff : Nat)
  (out : ObjCodeResult)

/-- What a finished call leaves is what one attempt in the buffer `window` leaves; the code of
other functions in front of it stays. -/
structure AsOnce (window : List UInt8) (out' : ObjCodeResult) (len : Nat) : Prop where
  rc : (lrTargetCompile x remap f window out.ctx).rc = true
  need : (lrTargetCompile x remap f window out.ctx).need = len
  ctx : (lrTargetCompile x remap f window out.ctx).ctx = out'.ctx
  code : ∀ i < len, out'.codeBuf[codeOff + i]? =
    (lrTargetCompile x remap f window out.ctx).window[i]?
  before : ∀ i < codeOff, i < out.codeBuf.length → out'.codeBuf[i]? = out.codeBuf[i]?

/-- For every capacity the call ends, writes in its buffer and leaves the same. -/
structure CapacityFree : Prop where
  ends : ∃ result, ∀ fuel ≥ 2, objCompileFunction x remap fuel f codeOff out = some result
  inside : ∀ fuel out' len, objCompileFunction x remap fuel f codeOff out = some (out', len) →
    out'.stray = out.stray
  once : ∀ fuel out' len, objCompileFunction x remap fuel f codeOff out = some (out', some len) →
    ∀ window : List UInt8, len ≤ window.length → AsOnce x remap f codeOff out window out' len

/-- The MOVs that are written without a look at the size are in the buffer of the first
attempt. -/
def MovsFit : Prop :=
  ∀ buf, objEnsureCodeCapacity out.codeBuf (codeOff + 1) = some buf →
    ∀ p ∈ movPlaces x remap f out.ctx, codeOff + p < buf.length

/-- What one more turn of the loop leaves. -/
def afterAttempt (buf : List UInt8) : ObjCodeResult where
  codeBuf := buf.take codeOff ++ (lrTargetCompile x remap f (buf.drop codeOff) out.ctx).window
  ctx := finalCtx x remap f out.ctx
  stray := out.stray ++
    ((movPlaces x remap f out.ctx).filter fun p => buf.length - codeOff ≤ p).map (codeOff + ·)

/-- The attempt is taken back. -/
def takenBack (buf : List UInt8) : ObjCodeResult :=
  { afterAttempt x remap f codeOff out buf with
    ctx := { finalCtx x remap f out.ctx with
      relocs := (finalCtx x remap f out.ctx).relocs.take out.ctx.relocs.length } }

variable {x remap f codeOff out} {buf : List UInt8} {saved fuel : Nat}

theorem objCompileLoop_more (h : objCompileLoop x remap f codeOff saved fuel out = some result) :
    objCompileLoop x remap f codeOff saved (fuel + 1) out = some result := by
  induction fuel generalizing out with
  | zero => cases h
  | succ fuel ih =>
    rw [objCompileLoop] at h ⊢
    cases hgrow : objEnsureCodeCapacity out.codeBuf (codeOff + 1) with
    | none => simpa only [hgrow] using h
    | some buf =>
      simp only [hgrow] at h ⊢
      generalize lrTargetCompile x remap f (buf.drop codeOff) out.ctx = r at h ⊢
      by_cases hrc : r.rc = true
      · simpa only [hrc, if_true] using h
      · rw [if_neg hrc] at h ⊢
        by_cases hneed : r.need ≤ buf.length - codeOff
        · simpa only [if_pos hneed] using h
        · rw [if_neg hneed] at h ⊢
          cases hagain : objEnsureCodeCapacity (buf.take codeOff ++ r.window) (codeOff + r.need) with
          | none => simpa only [hagain] using h
          | some buf' =>
            simp only [hagain] at h ⊢
            exact ih h

theorem objCompileLoop_le {fuel' : Nat} (hle : fuel ≤ fuel')
    (h : objCompileLoop x remap f codeOff saved fuel out = some result) :
    objCompileLoop x remap f codeOff saved fuel' out = some result := by
  induction hle with
  | refl => exact h
  | step _ ih => exact objCompileLoop_more ih

theorem loop_full (hgrow : objEnsureCodeCapacity out.codeBuf (codeOff + 1) = none) :
    objCompileLoop x remap f codeOff saved (fuel + 1) out = some (out, none) := by
  simp only [objCompileLoop, hgrow]

theorem attempt_stray (buf : List UInt8) :
    (lrTargetCompile x remap f (buf.drop codeOff) out.ctx).stray =
      (movPlaces x remap f out.ctx).filter fun p => buf.length - codeOff ≤ p := by
  rw [compile_stray, length_drop]

section
variable (hgrow : objEnsureCodeCapacity out.codeBuf (codeOff + 1) = some buf)
include hgrow

theorem loop_done (hcompiles : Compiles x remap f out.ctx)
    (hroom : codeLength x remap f out.ctx ≤ buf.length - codeOff) :
    objCompileLoop x remap f codeOff saved (fuel + 1) out =
      some (afterAttempt x remap f codeOff out buf, some (codeLength x remap f out.ctx)) := by
  have hdone := compile_done hcompiles (buf.drop codeOff)
  simp [objCompileLoop, hgrow, hdone, hroom, afterAttempt, compile_ctx, attempt_stray]

theorem loop_failed (hcompiles : ¬ Compiles x remap f out.ctx) :
    objCompileLoop x remap f codeOff saved (fuel + 1) out =
      some (afterAttempt x remap f codeOff out buf, none) := by
  have hfailed := compile_failed hcompiles (buf.drop codeOff)
  simp [objCompileLoop, hgrow, hfailed, afterAttempt, compile_ctx, attempt_stray]

theorem loop_short (hcompiles : Compiles x remap f out.ctx)
    (hroom : ¬ codeLength x remap f out.ctx ≤ buf.length - codeOff) :
    objCompileLoop x remap f codeOff out.ctx.relocs.length (fuel + 1) out =
      match objEnsureCodeCapacity (afterAttempt x remap f codeOff out buf).codeBuf
        (codeOff + codeLength x remap f out.ctx) with
      | none => some (takenBack x remap f codeOff out buf, none)
      | some buf' => objCompileLoop x remap f codeOff out.ctx.relocs.length fuel
          { takenBack x remap f codeOff out buf with codeBuf := buf' } := by
  have hdone := compile_done hcompiles (buf.drop codeOff)
  simp [objCompileLoop, hgrow, hdone, hroom, afterAttempt, takenBack, compile_ctx,
    attempt_stray] <;> rfl

end

variable (x remap f codeOff out) in
/-- A function that is compiled has the code of a buffer that is large enough. -/
structure Done (result : ObjCodeResult × Option Nat) : Prop where
  compiles : Compiles x remap f out.ctx
  len : result.2 = some (codeLength x remap f out.ctx)
  ctx : result.1.ctx = finalCtx x remap f out.ctx
  code : ∃ window, codeLength x remap f out.ctx ≤ window.length ∧
    ∀ i < codeLength x remap f out.ctx, result.1.codeBuf[codeOff + i]? =
      (lrTargetCompile x remap f window out.ctx).window[i]?
  before : ∀ i < codeOff, i < out.codeBuf.length → result.1.codeBuf[i]? = out.codeBuf[i]?

theorem compiled_code (hoff : codeOff ≤ buf.length) (window : List UInt8) (i : Nat) :
    (buf.take codeOff ++ window)[codeOff + i]? = window[i]? := by
  have hlen : (buf.take codeOff).length = codeOff := by simp [hoff]
  rw [getElem?_append_right (by omega), hlen, Nat.add_sub_cancel_left]

theorem compiled_before (hoff : codeOff ≤ buf.length) (window : List UInt8) (hi : i < codeOff) :
    (buf.take codeOff ++ window)[i]? = buf[i]? := by
  have hlen : (buf.take codeOff).length = codeOff := by simp [hoff]
  rw [getElem?_append_left (by omega), getElem?_take_of_lt hi]

theorem grown_before (hgrow : objEnsureCodeCapacity out.codeBuf need = some buf)
    (hi : i < out.codeBuf.length) : buf[i]? = out.codeBuf[i]? :=
  (objEnsureCodeCapacity_spec hgrow).2.2 i hi

/-- The attempt whose buffer is large enough. -/
theorem done_of_room (hcompiles : Compiles x remap f out.ctx)
    (hoff : codeOff ≤ buf.length) (hroom : codeLength x remap f out.ctx ≤ buf.length - codeOff)
    (hbefore : ∀ i < codeOff, i < out.codeBuf.length → buf[i]? = out.codeBuf[i]?)
    (stray : List Nat) :
    Done x remap f codeOff out
      ({ codeBuf := buf.take codeOff ++
          (lrTargetCompile x remap f (buf.drop codeOff) out.ctx).window
         ctx := finalCtx x remap f out.ctx
         stray := stray }, some (codeLength x remap f out.ctx)) where
  compiles := hcompiles
  len := rfl
  ctx := rfl
  code := by
    refine ⟨buf.drop codeOff, by rwa [length_drop], fun i _ => ?_⟩
    exact compiled_code hoff _ i
  before := by
    intro i hi hold
    exact (compiled_before hoff _ hi).trans (hbefore i hi hold)

theorem movsFit_iff (hgrow : objEnsureCodeCapacity out.codeBuf (codeOff + 1) = some buf) :
    MovsFit x remap f codeOff out ↔
      (movPlaces x remap f out.ctx).filter (fun p => buf.length - codeOff ≤ p) = [] := by
  have hoff : codeOff + 1 ≤ buf.length := (objEnsureCodeCapacity_spec hgrow).1
  simp only [MovsFit, hgrow, Option.some.injEq, forall_eq', filter_eq_nil_iff, decide_eq_true_eq]
  apply forall_congr'
  intro p
  apply imp_congr_right
  intro _
  omega

/-- The second attempt is in a buffer of the size that the first one has counted. -/
theorem loop_again (hgrow : objEnsureCodeCapacity out.codeBuf (codeOff + 1) = some buf)
    (hcompiles : Compiles x remap f out.ctx)
    (hroom : ¬ codeLength x remap f out.ctx ≤ buf.length - codeOff)
    (hagain : objEnsureCodeCapacity (afterAttempt x remap f codeOff out buf).codeBuf
      (codeOff + codeLength x remap f out.ctx) = some buf') :
    objCompileLoop x remap f codeOff saved (fuel + 1)
        { takenBack x remap f codeOff out buf with codeBuf := buf' } =
      some ({ codeBuf := buf'.take codeOff ++
                (lrTargetCompile x remap f (buf'.drop codeOff) out.ctx).window
              ctx := finalCtx x remap f out.ctx
              stray := (afterAttempt x remap f codeOff out buf).stray },
        some (codeLength x remap f out.ctx)) := by
  have hneed : codeOff + codeLength x remap f out.ctx ≤ buf'.length :=
    (objEnsureCodeCapacity_spec hagain).1
  have hfits : objEnsureCodeCapacity buf' (codeOff + 1) = some buf' := objEnsureCodeCapacity_fits (by omega)
  have hsame : lrTargetCompile x remap f (buf'.drop codeOff)
      (takenBack x remap f codeOff out buf).ctx =
      lrTargetCompile x remap f (buf'.drop codeOff) out.ctx := by
    have hback : lrTargetCompile x remap f (buf'.drop codeOff) _ =
        lrTargetCompile x remap f (buf'.drop codeOff) out.ctx :=
      compile_again (buf.drop codeOff) (buf'.drop codeOff)
    rwa [compile_ctx] at hback
  have hdone := compile_done hcompiles (buf'.drop codeOff)
  have hlen : codeLength x remap f out.ctx ≤ buf'.length - codeOff := by omega
  have hnone : ((movPlaces x remap f out.ctx).filter fun p => buf'.length - codeOff ≤ p) = [] := by
    apply filter_eq_nil_iff.2
    intro p hp
    have hlt := movPlaces_lt p hp
    simp only [decide_eq_true_eq]
    omega
  simp only [objCompileLoop, hfits, hsame, attempt_stray, hnone]
  simp [hdone, hlen, compile_ctx, takenBack]

variable (x remap f codeOff out) in
/-- Two turns are enough. -/
theorem objCompileFunction_settled :
    ∃ result, (∀ fuel ≥ 2, objCompileFunction x remap fuel f codeOff out = some result) ∧
      (result.1.stray = out.stray ↔ MovsFit x remap f codeOff out) ∧
      ∀ len, result.2 = some len → Done x remap f codeOff out result := by
  suffices h : ∃ result, objCompileFunction x remap 2 f codeOff out = some result ∧
      (result.1.stray = out.stray ↔ MovsFit x remap f codeOff out) ∧
      ∀ len, result.2 = some len → Done x remap f codeOff out result by
    obtain ⟨result, hrun, hspec⟩ := h
    exact ⟨result, fun fuel hfuel => objCompileLoop_le hfuel hrun, hspec⟩
  cases hgrow : objEnsureCodeCapacity out.codeBuf (codeOff + 1) with
  | none =>
    refine ⟨_, loop_full hgrow, ?_, fun len h => by cases h⟩
    simp [MovsFit, hgrow]
  | some buf =>
    have hoff : codeOff + 1 ≤ buf.length := (objEnsureCodeCapacity_spec hgrow).1
    have hstray : (afterAttempt x remap f codeOff out buf).stray = out.stray ↔
        MovsFit x remap f codeOff out := by
      rw [movsFit_iff hgrow]
      simp [afterAttempt]
    by_cases hcompiles : Compiles x remap f out.ctx
    · by_cases hroom : codeLength x remap f out.ctx ≤ buf.length - codeOff
      · refine ⟨_, loop_done hgrow hcompiles hroom, hstray, fun _ _ => ?_⟩
        exact done_of_room hcompiles (by omega) hroom (fun i _ => grown_before hgrow) _
      · have hshort : objCompileFunction x remap 2 f codeOff out = _ :=
          loop_short hgrow hcompiles hroom
        cases hagain : objEnsureCodeCapacity (afterAttempt x remap f codeOff out buf).codeBuf
            (codeOff + codeLength x remap f out.ctx) with
        | none =>
          rw [hagain] at hshort
          exact ⟨_, hshort, hstray, fun len h => by cases h⟩
        | some buf' =>
          rw [hagain] at hshort
          have hneed : codeOff + codeLength x remap f out.ctx ≤ buf'.length :=
            (objEnsureCodeCapacity_spec hagain).1
          refine ⟨_, hshort.trans (loop_again hgrow hcompiles hroom hagain), hstray, fun _ _ => ?_⟩
          apply done_of_room hcompiles (by omega) (by omega)
          intro i hi hold
          calc buf'[i]? = (afterAttempt x remap f codeOff out buf).codeBuf[i]? := by
                apply (objEnsureCodeCapacity_spec hagain).2.2
                simp only [afterAttempt, length_append, length_take]
                omega
            _ = buf[i]? := compiled_before (by omega) _ hi
            _ = out.codeBuf[i]? := grown_before hgrow hold
    · exact ⟨_, loop_failed hgrow hcompiles, hstray, fun len h => by cases h⟩

theorem Done.asOnce (h : Done x remap f codeOff out result) {window : List UInt8}
    (hwindow : codeLength x remap f out.ctx ≤ window.length) :
    AsOnce x remap f codeOff out window result.1 (codeLength x remap f out.ctx) where
  rc := by
    rw [(compile_done h.compiles window).1]
    exact decide_eq_true hwindow
  need := (compile_done h.compiles window).2
  ctx := (compile_ctx window).trans h.ctx.symm
  code := by
    obtain ⟨window', hwindow', hcode⟩ := h.code
    intro i hi
    rw [hcode i hi]
    exact compile_bytes hwindow hwindow' hi
  before := h.before

/-- The code does not depend on the capacity if and only if no MOV of a UITOFP is behind the
buffer of the first attempt. -/
theorem capacityFree_iff : CapacityFree x remap f codeOff out ↔ MovsFit x remap f codeOff out := by
  obtain ⟨result, hends, hstray, hdone⟩ := objCompileFunction_settled x remap f codeOff out
  have honly : ∀ {fuel other}, objCompileFunction x remap fuel f codeOff out = some other →
      other = result := by
    intro fuel other hother
    have hmore := objCompileLoop_le (le_max_left fuel 2) hother
    exact Option.some.inj (hmore.symm.trans (hends _ (le_max_right fuel 2)))
  constructor
  · intro hfree
    exact hstray.1 (hfree.inside 2 _ _ (hends 2 (le_refl 2)))
  · intro hfit
    refine ⟨⟨result, hends⟩, fun fuel out' len hrun => ?_, fun fuel out' len hrun window hlen => ?_⟩
    · cases honly hrun
      exact hstray.2 hfit
    · cases honly hrun
      have hdone := hdone len rfl
      cases Option.some.inj hdone.len
      exact hdone.asOnce hlen

end Loop

section Conversion

theorem plain_putAll (bs : List UInt8) : (putAll bs : X86Code Unit).Plain := by
  induction bs with
  | nil => trivial
  | cons b bs ih => exact ih

/-- The same bytes for every instruction. -/
def always (bs : List UInt8) : PlainCode CStr ObjReloc Unit := ⟨putAll bs, plain_putAll bs⟩

/-- The code of `uitofp i32 7 to double`: `mov rax, 7` is in front of the MOV, `cvtsi2sd xmm0, rax`
and `movsd [rbp-8], xmm0` are behind it. -/
def convertSeven : X86Selection Unit where
  start := fun _ => ()
  storeParams := fun _ _ => always []
  stackSize := fun _ => 8
  invalidate := id
  noteVregs := fun _ => id
  allocPhi := fun _ => id
  allocPhiCopy := fun _ _ => id
  loadRax := fun _ _ => always [0x48, 0xC7, 0xC0, 7, 0, 0, 0]
  returnValue := fun _ _ => always []
  phiCopies := fun _ _ => always []
  convertRax := fun _ _ => always [0xF2, 0x48, 0x0F, 0x2A, 0xC0, 0xF2, 0x0F, 0x11, 0x45, 0xF8]
  select := fun _ _ => always []

def convertFunc : LrFunc where
  name := [102]
  symbolId := 0
  type := .func 11 (.scalar 1 .void) [] false
  retType := .scalar 1 .void
  paramTypes := []
  vararg := false
  blocks := [{
    name := [101]
    id := 0
    insts := [
      lrInstCreate .uitofp (some (.scalar 7 .double)) 1 [lrOpImmI64 7 (some (.scalar 4 .i32))],
      lrInstCreate .retVoid none 0 []] }]
  numBlocks := 1
  nextVreg := 2

/-- The second byte of the MOV is written behind a buffer of 19 bytes. -/
theorem mov_behind_buffer : ¬ CapacityFree convertSeven id convertFunc 0
    { codeBuf := replicate 19 0, ctx := ⟨[], [], []⟩ } := by
  intro h
  have hstray : (objCompileFunction convertSeven id 2 convertFunc 0
      { codeBuf := replicate 19 0, ctx := ⟨[], [], []⟩ }).map (fun r => r.1.stray) = some [19] := by
    decide +kernel
  obtain ⟨⟨out', len⟩, hrun⟩ := h.ends
  have hinside := h.inside 2 out' len (hrun 2 (le_refl 2))
  rw [hrun 2 (le_refl 2), Option.map_some, hinside] at hstray
  cases hstray

end Conversion

end Liric.Guarantees.CompileRetry
