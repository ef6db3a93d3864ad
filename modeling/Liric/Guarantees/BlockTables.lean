import Liric.Source.Session.Modes
import Liric.Guarantees.SessionBuilding
import Liric.Guarantees.SwitchLowering

/-!
# The table of blocks and the end of a function

While a function is current its table of blocks holds blocks of that function under their
ids, and a function that is validated ends each of its blocks with a terminator, as long as
`lr_session_bind_ir` and `lr_session_adopt_block` take over no entry and no flag that an
earlier function left: pointers are never cleared, and `lr_session_bind_ir` clears nothing.
-/
namespace Liric.Guarantees.BlockTables
open Source.Ir Source.Object Source.Session Source.Session.Modes SessionRuns SessionBuilding Option
open List
open SwitchLowering (Numbered)
open Lib (runSteps)

def endsInTerminator (blk : LrBlock) : Bool :=
  blk.insts.getLast?.any fun inst => isTerminator inst.op

/-- `b` is the block of `r` with this id. -/
def IsBlock (modules : List LrModule) (r : FuncRef) (id : Nat) (b : BlockRef) : Prop :=
  b.func = r ∧ ∃ blk ∈ findBlock modules b, blk.id = id

/-- Entry `i` is null or block `i` of `r`. -/
def EntryOf (s : LrSession) (r : FuncRef) (i : Nat) : Prop :=
  ∀ b ∈ (s.blocks[i]?).join, IsBlock s.modules r i b

/-- The flags say that block `i` is terminated. -/
def flagged (s : LrSession) (i : Nat) : Bool :=
  (s.blockSeen[i]?).getD false && (s.blockTerminated[i]?).getD false

/-- Block `i` of `r` ends with a terminator. -/
def EndsAt (modules : List LrModule) (r : FuncRef) (i : Nat) : Prop :=
  ∃ f ∈ findFunc modules r, ∃ blk ∈ f.blocks, blk.id = i ∧ endsInTerminator blk = true

/-- Each entry below `block_count` is null or the block of the current function with
that id. -/
def TableOwn (s : LrSession) : Prop :=
  ∀ r ∈ s.curFunc, ∀ i < s.blockCount, EntryOf s r i

/-- Where the validation succeeds every block of the current function ends with a
terminator. -/
def ValidatesEnded (s : LrSession) : Prop :=
  (validateBlockTermination s).2 = true →
    ∀ r ∈ s.curFunc, ∀ f ∈ findFunc (validateBlockTermination s).1.modules r,
      ∀ blk ∈ f.blocks, endsInTerminator blk = true

/-- The blocks of every function have their places as ids, as `lr_block_create` gives them. -/
def ModulesNumbered (modules : List LrModule) : Prop :=
  ∀ r, ∀ f ∈ findFunc modules r, Numbered f

inductive BlockCall where
  | funcBegin (name : CStr) (ret : Option LrType) (params : List LrType) (vararg : Bool)
  | funcBeginExisting (module : Nat) (func : FuncRef)
  | bindIr (module : Nat) (func : FuncRef) (block : BlockRef)
  | block
  | setBlock (id : Nat)
  | adoptBlock (id : Nat) (block : BlockRef)
  | emit (inst : InstDesc)
  | funcEnd (outAddr : Bool)

/-- The state after a call, whatever the call returned. -/
def blockCall (env : ModeEnv) (s : LrSession) : BlockCall → Option LrSession
  | .funcBegin name ret params vararg =>
    (Modes.lrSessionFuncBegin env s name ret params vararg).map fun q => q.1
  | .funcBeginExisting module r =>
    (Modes.lrSessionFuncBeginExisting env s module r).map fun q => q.1
  | .bindIr module r b => some (lrSessionBindIr s module r b).1
  | .block => some (lrSessionBlock s).1
  | .setBlock id => (lrSessionSetBlock s id).map fun q => q.1
  | .adoptBlock id b => (lrSessionAdoptBlock s id b).map fun q => q.1
  | .emit inst => (lrSessionEmit s inst).map fun q => q.1
  | .funcEnd outAddr => some (Modes.lrSessionFuncEnd env s outAddr).1

def runCalls (env : ModeEnv) : LrSession → List BlockCall → Option LrSession :=
  runSteps (blockCall env)

/-- What a call takes over from the table is the function's own. A bound block makes its
function current: the entries below the new count, its own apart, and the flags that are set
are of that function. An adopted block is the current function's block with the id it is
adopted under, and so are the entries that are counted with it. -/
def TakesOwn (s : LrSession) : BlockCall → Prop
  | .bindIr module r b =>
    ∀ blk ∈ findBlock s.modules b, b.func = r → (s.modules[module]?).isSome →
      (∀ i < max s.blockCount (blk.id + 1), i ≠ blk.id → EntryOf s r i) ∧
        ∀ i < s.blockCount, flagged s i = true → EndsAt s.modules r i
  | .adoptBlock id b =>
    ∀ r ∈ s.curFunc, (findBlock s.modules b).isSome →
      IsBlock s.modules r id b ∧ ∀ i < id, s.blockCount ≤ i → EntryOf s r i
  | _ => True

section Decide
variable (modules : List LrModule) (s : LrSession) (r : FuncRef) (i : Nat) (b : BlockRef)

instance : Decidable (IsBlock modules r i b) :=
  inferInstanceAs (Decidable (b.func = r ∧ ∃ blk ∈ findBlock modules b, blk.id = i))

instance : Decidable (EntryOf s r i) :=
  inferInstanceAs (Decidable (∀ b ∈ (s.blocks[i]?).join, IsBlock s.modules r i b))

instance : Decidable (EndsAt modules r i) :=
  inferInstanceAs (Decidable (∃ f ∈ findFunc modules r, ∃ blk ∈ f.blocks,
    blk.id = i ∧ endsInTerminator blk = true))

instance : Decidable (TableOwn s) :=
  inferInstanceAs (Decidable (∀ r ∈ s.curFunc, ∀ i < s.blockCount, EntryOf s r i))

instance : Decidable (ValidatesEnded s) :=
  inferInstanceAs (Decidable ((validateBlockTermination s).2 = true →
    ∀ r ∈ s.curFunc, ∀ f ∈ findFunc (validateBlockTermination s).1.modules r,
      ∀ blk ∈ f.blocks, endsInTerminator blk = true))

instance TakesOwn.decide (s : LrSession) : ∀ c : BlockCall, Decidable (TakesOwn s c)
  | .bindIr module r b =>
    inferInstanceAs (Decidable (∀ blk ∈ findBlock s.modules b, b.func = r →
      (s.modules[module]?).isSome →
        (∀ i < max s.blockCount (blk.id + 1), i ≠ blk.id → EntryOf s r i) ∧
          ∀ i < s.blockCount, flagged s i = true → EndsAt s.modules r i))
  | .adoptBlock id b =>
    inferInstanceAs (Decidable (∀ r ∈ s.curFunc, (findBlock s.modules b).isSome →
      IsBlock s.modules r id b ∧ ∀ i < id, s.blockCount ≤ i → EntryOf s r i))
  | .funcBegin .. | .funcBeginExisting .. | .block | .setBlock _ | .emit _ | .funcEnd _ =>
    .isTrue trivial

end Decide

variable {i : Nat}

section Modules
variable {ms ms' ms'' : List LrModule} {r : FuncRef} {b c : BlockRef}

theorem isBlock_iff (h : ModulesNumbered ms) :
    IsBlock ms r i b ↔ b = ⟨r, i⟩ ∧ (findBlock ms b).isSome := by
  have hid : ∀ blk, findBlock ms b = some blk → blk.id = b.block := by
    intro blk hblk
    obtain ⟨f, hf, hget⟩ := bind_eq_some_iff.1 hblk
    exact (h b.func f hf).ids b.block blk hget
  constructor
  · rintro ⟨hfunc, blk, hblk, hblkId⟩
    refine ⟨?_, isSome_iff_exists.2 ⟨blk, hblk⟩⟩
    rw [hid blk hblk] at hblkId
    cases b
    subst hfunc hblkId
    rfl
  · rintro ⟨rfl, hsome⟩
    obtain ⟨blk, hblk⟩ := isSome_iff_exists.1 hsome
    exact ⟨rfl, blk, hblk, hid blk hblk⟩

theorem endsAt_iff (h : ModulesNumbered ms) :
    EndsAt ms r i ↔ ∃ blk ∈ findBlock ms ⟨r, i⟩, endsInTerminator blk = true := by
  constructor
  · rintro ⟨f, hf, blk, hblk, hid, hends⟩
    obtain ⟨p, hp⟩ := mem_iff_getElem?.1 hblk
    have hplace : p = i := ((h r f hf).ids p blk hp).symm.trans hid
    refine ⟨blk, ?_, hends⟩
    rw [← hplace]
    exact bind_eq_some_iff.2 ⟨f, hf, hp⟩
  · rintro ⟨blk, hblk, hends⟩
    obtain ⟨f, hf, hget⟩ := bind_eq_some_iff.1 hblk
    exact ⟨f, hf, blk, mem_of_getElem? hget, (h r f hf).ids i blk hget, hends⟩

/-- The numbering stays and so do all blocks, the instructions of `out` apart. -/
structure Keeps (out : Option BlockRef) (ms ms' : List LrModule) : Prop where
  numbered : ModulesNumbered ms → ModulesNumbered ms'
  same : ∀ b blk, some b ≠ out → findBlock ms b = some blk → findBlock ms' b = some blk
  kept : ∀ b, (findBlock ms b).isSome → (findBlock ms' b).isSome

variable {out : Option BlockRef}

theorem Keeps.refl (out : Option BlockRef) (ms : List LrModule) : Keeps out ms ms :=
  ⟨id, fun _ _ _ => id, fun _ => id⟩

theorem Keeps.trans (h : Keeps out ms ms') (h' : Keeps out ms' ms'') : Keeps out ms ms'' :=
  ⟨fun hnum => h'.numbered (h.numbered hnum),
    fun b blk hb hblk => h'.same b blk hb (h.same b blk hb hblk),
    fun b hb => h'.kept b (h.kept b hb)⟩

theorem Keeps.weaken (h : Keeps none ms ms') (out : Option BlockRef) : Keeps out ms ms' :=
  ⟨h.numbered, fun b blk _ hblk => h.same b blk (by simp) hblk, h.kept⟩

theorem Keeps.isBlock (h : Keeps out ms ms') (hnum : ModulesNumbered ms)
    (hb : IsBlock ms r i b) : IsBlock ms' r i b := by
  obtain ⟨heq, hsome⟩ := (isBlock_iff hnum).1 hb
  exact (isBlock_iff (h.numbered hnum)).2 ⟨heq, h.kept b hsome⟩

theorem Keeps.endsAt (h : Keeps out ms ms') (hnum : ModulesNumbered ms)
    (hout : some ⟨r, i⟩ ≠ out) (hends : EndsAt ms r i) : EndsAt ms' r i := by
  obtain ⟨blk, hblk, hterm⟩ := (endsAt_iff hnum).1 hends
  exact (endsAt_iff (h.numbered hnum)).2 ⟨blk, h.same _ blk hout hblk, hterm⟩

variable {q : FuncRef} {change : LrFunc → LrFunc} {f : LrModule → LrModule}

theorem findFunc_change (h : ChangesFunc q.func change f) (r : FuncRef) :
    findFunc (ms.modify q.module f) r =
      if r = q then (findFunc ms r).map change else findFunc ms r := by
  split
  · next hr =>
    subst hr
    exact findFunc_changed h
  · next hr => exact (modulesTouch_changed h).others r hr

theorem findBlock_change (h : ChangesFunc q.func change f) (b : BlockRef) :
    findBlock (ms.modify q.module f) b =
      if b.func = q then (findFunc ms b.func).bind fun g => (change g).blocks[b.block]?
      else findBlock ms b := by
  unfold findBlock
  rw [findFunc_change h]
  split
  · rw [bind_map]
    rfl
  · rfl

theorem numbered_change (h : ChangesFunc q.func change f)
    (hnum : ∀ g, Numbered g → Numbered (change g)) (hms : ModulesNumbered ms) :
    ModulesNumbered (ms.modify q.module f) := by
  intro r g hg
  have hfound : (if r = q then (findFunc ms r).map change else findFunc ms r) = some g :=
    (findFunc_change h r).symm.trans hg
  split at hfound
  · obtain ⟨g', hg', rfl⟩ := map_eq_some_iff.1 hfound
    exact hnum g' (hms r g' hg')
  · exact hms r g hfound

/-- A change of one function that keeps its numbering and its blocks. -/
theorem keeps_change (h : ChangesFunc q.func change f)
    (hnum : ∀ g, Numbered g → Numbered (change g))
    (hsame : ∀ (g : LrFunc) (i : Nat) (blk : LrBlock), g.blocks[i]? = some blk →
      (change g).blocks[i]? = some blk) :
    Keeps none ms (ms.modify q.module f) := by
  have hsame' : ∀ b blk, findBlock ms b = some blk →
      findBlock (ms.modify q.module f) b = some blk := by
    intro b blk hblk
    rw [findBlock_change h]
    split
    · obtain ⟨g, hg, hget⟩ := bind_eq_some_iff.1 hblk
      exact bind_eq_some_iff.2 ⟨g, hg, hsame g b.block blk hget⟩
    · exact hblk
  refine ⟨numbered_change h hnum, fun b blk _ => hsame' b blk, ?_⟩
  intro b hb
  obtain ⟨blk, hblk⟩ := isSome_iff_exists.1 hb
  exact isSome_iff_exists.2 ⟨blk, hsame' b blk hblk⟩

theorem numbered_of_blocks {g g' : LrFunc} (h : Numbered g) (hblocks : g'.blocks = g.blocks)
    (hcount : g'.numBlocks = g.numBlocks) : Numbered g' := by
  refine ⟨?_, ?_⟩
  · rw [hcount, hblocks, h.count]
  · intro i blk hblk
    rw [hblocks] at hblk
    exact h.ids i blk hblk

/-- A field of the function that has nothing to do with its blocks. -/
theorem keeps_field (h : ChangesFunc q.func change f) (hblocks : ∀ g, (change g).blocks = g.blocks)
    (hcount : ∀ g, (change g).numBlocks = g.numBlocks) :
    Keeps none ms (ms.modify q.module f) :=
  keeps_change h (fun g hg => numbered_of_blocks hg (hblocks g) (hcount g))
    fun g i blk hblk => by rw [hblocks]; exact hblk

theorem keeps_create (name : CStr) (r : FuncRef) :
    Keeps none ms (ms.modify r.module fun m => updateFunc m r.func (blockCreate name)) :=
  keeps_change (changesFunc_updateFunc r.func _) (fun _ hg => hg.create name) fun g i blk hblk => by
    have hi : i < g.blocks.length := (List.getElem?_eq_some_iff.1 hblk).1
    rw [SwitchLowering.create_old hi]
    exact hblk

theorem findBlock_append (b c : BlockRef) (inst : LrInst) :
    findBlock (ms.modify b.func.module fun m => lrBlockAppend m b.func.func b.block inst) c =
      if c = b then (findBlock ms c).map fun blk => { blk with insts := blk.insts ++ [inst] }
      else findBlock ms c := by
  rw [findBlock_change (changesFunc_append b.func.func b.block inst)]
  by_cases hcb : c = b
  · subst hcb
    rw [if_pos rfl, if_pos rfl]
    unfold findBlock
    cases findFunc ms c.func with
    | none => rfl
    | some g => simp [appendToBlock]
  · rw [if_neg hcb]
    split
    · next hfunc =>
      have hplace : b.block ≠ c.block := fun hplace => hcb (by cases b; cases c; simp_all)
      unfold findBlock
      cases findFunc ms c.func with
      | none => rfl
      | some g => simp [appendToBlock, hplace]
    · rfl

theorem numbered_append {g : LrFunc} (h : Numbered g) (block : Nat) (inst : LrInst) :
    Numbered (appendToBlock block inst g) := by
  refine ⟨?_, ?_⟩
  · simp only [appendToBlock, length_modify]
    exact h.count
  · intro i blk hblk
    simp only [appendToBlock, getElem?_modify] at hblk
    obtain ⟨blk', hget, rfl⟩ := map_eq_some_iff.1 hblk
    have hid := h.ids i blk' hget
    split <;> exact hid

/-- An instruction is appended to `b`. -/
theorem keeps_append (b : BlockRef) (inst : LrInst) :
    Keeps (some b) ms
      (ms.modify b.func.module fun m => lrBlockAppend m b.func.func b.block inst) := by
  refine ⟨?_, ?_, ?_⟩
  · exact numbered_change (changesFunc_append b.func.func b.block inst) fun g hg =>
      numbered_append hg b.block inst
  · intro c blk hne hblk
    rw [findBlock_append, if_neg fun hcb => hne (congrArg some hcb)]
    exact hblk
  · intro c hc
    rw [findBlock_append]
    split
    · rw [isSome_map]
      exact hc
    · exact hc

theorem endsAt_append (hnum : ModulesNumbered ms) (hb : (findBlock ms b).isSome) {inst : LrInst}
    (hterm : isTerminator inst.op = true) :
    EndsAt (ms.modify b.func.module fun m => lrBlockAppend m b.func.func b.block inst)
      b.func b.block := by
  obtain ⟨blk, hblk⟩ := isSome_iff_exists.1 hb
  refine (endsAt_iff ((keeps_append b inst).numbered hnum)).2
    ⟨{ blk with insts := blk.insts ++ [inst] }, ?_, ?_⟩
  · rw [findBlock_append, if_pos rfl, hblk]
    rfl
  · simp [endsInTerminator, hterm]

end Modules

/-- What holds of the current function. -/
structure Built (r : FuncRef) (s : LrSession) : Prop where
  entries : ∀ i < s.blockCount, EntryOf s r i
  flags : ∀ i, flagged s i = true → EndsAt s.modules r i
  curBlock : ∀ b ∈ s.curBlock, IsBlock s.modules r b.block b ∧ b.block < s.blockCount

/-- No flag is left beyond the count. -/
structure Counted (s : LrSession) : Prop where
  numbered : ModulesNumbered s.modules
  clean : ∀ i, s.blockCount ≤ i → flagged s i = false

/-- Nothing is streamed into the target, and the current function is as it should be. -/
structure Tracked (s : LrSession) : Prop extends Counted s where
  idle : s.curFunc = none → s.blockCount = 0
  quiet : s.compileActive = true → s.compileDeferred = true ∧ s.module ∈ s.objCtxModules
  built : ∀ r ∈ s.curFunc, Built r s

/-- Only the modules differ. -/
structure Edits (out : Option BlockRef) (s s' : LrSession) : Prop where
  keeps : Keeps out s.modules s'.modules
  same : s' = { s with modules := s'.modules }

section State
variable {s s' s'' : LrSession} {r : FuncRef} {b : BlockRef} {out : Option BlockRef}

theorem Counted.congr (h : Counted s) (hcore : core s' = core s) : Counted s' := by
  cases s
  cases s'
  cases hcore
  exact ⟨h.numbered, h.clean⟩

theorem Tracked.congr (h : Tracked s) (hcore : core s' = core s) : Tracked s' := by
  have hcounted := h.toCounted.congr hcore
  cases s
  cases s'
  cases hcore
  exact ⟨hcounted, h.idle, h.quiet, fun r hr =>
    ⟨(h.built r hr).entries, (h.built r hr).flags, (h.built r hr).curBlock⟩⟩

theorem Tracked.ofCur (h : Tracked s) (hcur : s.curFunc = some r) : Built r s := h.built r hcur

variable {ms : List LrModule}

/-- What the function keeps while modules change. -/
theorem Built.keeps (h : Built r s) (hnum : ModulesNumbered s.modules)
    (hkeeps : Keeps none s.modules ms) : Built r { s with modules := ms } where
  entries := fun i hi b hb => hkeeps.isBlock hnum (h.entries i hi b hb)
  flags := fun i hi => hkeeps.endsAt hnum (by simp) (h.flags i hi)
  curBlock := fun b hb =>
    ⟨hkeeps.isBlock hnum (h.curBlock b hb).1, (h.curBlock b hb).2⟩

theorem Tracked.keeps (h : Tracked s) (hkeeps : Keeps none s.modules ms) :
    Tracked { s with modules := ms } :=
  ⟨⟨hkeeps.numbered h.numbered, h.clean⟩, h.idle, h.quiet,
    fun r hr => (h.built r hr).keeps h.numbered hkeeps⟩

theorem Edits.refl (out : Option BlockRef) (s : LrSession) : Edits out s s :=
  ⟨.refl out s.modules, rfl⟩

theorem Edits.trans (h : Edits out s s') (h' : Edits out s' s'') : Edits out s s'' where
  keeps := h.keeps.trans h'.keeps
  same := by
    have hsame := h'.same
    rw [h.same] at hsame
    exact hsame

theorem edits_nextVreg (s : LrSession) (r : FuncRef) (next : LrFunc → Nat) (out : Option BlockRef) :
    Edits out s (updateFuncRef s r fun f => { f with nextVreg := next f }) :=
  ⟨(keeps_field (changesFunc_updateFunc r.func fun f => { f with nextVreg := next f })
    (fun _ => rfl) fun _ => rfl).weaken out, rfl⟩

theorem edits_vregNew (s : LrSession) (r : FuncRef) (out : Option BlockRef) :
    Edits out s (lrVregNew s r).1 :=
  edits_nextVreg s r (fun f => (f.nextVreg + 1) % 2 ^ 32) out

theorem edits_appendInst (s : LrSession) (b : BlockRef) (inst : LrInst) :
    Edits (some b) s (appendInst s b inst) :=
  ⟨keeps_append b inst, rfl⟩

theorem edits_instDest (s : LrSession) (r : FuncRef) (inst : InstDesc) (itype : Option LrType)
    (out : Option BlockRef) : Edits out s (instDest s r inst itype).1 := by
  unfold instDest
  split
  · split
    · exact edits_vregNew s r out
    · split
      · exact edits_nextVreg s r (fun _ => (inst.dest + 1) % 2 ^ 32) out
      · exact .refl out s
  · exact .refl out s

theorem edits_canonicalize (s : LrSession) (b : BlockRef) (r : FuncRef) (idxOp : LrOperand) :
    Edits (some b) s (lrCanonicalizeGepIndex s b r idxOp).1 := by
  obtain htyped | hextend | hsame := canonicalize_cases idxOp
  · rw [htyped]
    exact .refl _ s
  · rw [hextend]
    exact (edits_vregNew s r (some b)).trans (edits_appendInst _ b _)
  · rw [hsame]
    exact .refl _ s

theorem edits_indices (s : LrSession) (b : BlockRef) (r : FuncRef) (ops : List LrOperand) :
    Edits (some b) s (canonicalizeIndices b r s ops).1 := by
  induction ops generalizing s with
  | nil => exact .refl _ s
  | cons op rest ih => exact (edits_canonicalize s b r op).trans (ih _)

theorem edits_emittedOperands (s : LrSession) (b : BlockRef) (r : FuncRef) (inst : InstDesc) :
    Edits (some b) s (emittedOperands s b r inst).1 := by
  unfold emittedOperands
  split
  · exact edits_indices s b r _
  · exact .refl _ s

theorem instOf_op (inst : InstDesc) (ops : List LrOperand) : (instOf inst ops).op = inst.op := by
  unfold instOf
  simp only
  split <;> rfl

theorem edits_emitIr (s : LrSession) (b : BlockRef) (r : FuncRef) (inst : InstDesc) :
    Edits (some b) s (emitIrInstruction s b r inst) :=
  (edits_emittedOperands s b r inst).trans (edits_appendInst _ b _)

/-- A terminator ends the block that it is emitted into. -/
theorem endsAt_emitIr (hnum : ModulesNumbered s.modules) (hb : (findBlock s.modules b).isSome)
    {inst : InstDesc} (hterm : isTerminator inst.op = true) :
    EndsAt (emitIrInstruction s b r inst).modules b.func b.block := by
  have hops := (edits_emittedOperands s b r inst).keeps
  exact endsAt_append (hops.numbered hnum) (hops.kept b hb)
    (by rw [instOf_op]; exact hterm)

theorem flagged_set_ne {id : Nat} (hne : i ≠ id) (seen terminated : Bool) (n : Nat) :
    flagged { s with
      blockSeen := s.blockSeen.set id seen
      blockTerminated := s.blockTerminated.set id terminated
      emittedCount := n } i = flagged s i := by
  simp [flagged, getElem?_set_ne hne.symm]

variable {terminated : Bool}

theorem flagged_set_self {id : Nat} {seen : Bool} {n : Nat}
    (h : flagged { s with
      blockSeen := s.blockSeen.set id seen
      blockTerminated := s.blockTerminated.set id terminated
      emittedCount := n } id = true) : terminated = true := by
  simp only [flagged, Bool.and_eq_true, getElem?_set] at h
  obtain ⟨-, h⟩ := h
  split at h
  · split at h
    · exact h
    · cases h
  · simp at *

/-- An instruction was put into the current block. -/
theorem tracked_flags {s₁ : LrSession} {n : Nat} (h : Tracked s)
    (hcur : s.curFunc = some r) (hb : s.curBlock = some b) (hedits : Edits (some b) s s₁)
    (hends : terminated = true → EndsAt s₁.modules r b.block) :
    Tracked { s₁ with
      blockSeen := s₁.blockSeen.set b.block true
      blockTerminated := s₁.blockTerminated.set b.block terminated
      emittedCount := n } := by
  obtain ⟨hkeeps, hsame⟩ := hedits
  obtain ⟨hentries, hflags, hcurBlock⟩ := h.ofCur hcur
  obtain ⟨hisBlock, hcounted⟩ := hcurBlock b hb
  generalize s₁.modules = ms at hkeeps hsame hends
  subst hsame
  refine ⟨⟨hkeeps.numbered h.numbered, ?_⟩, h.idle, h.quiet, ?_⟩
  · intro i hi
    have hne : i ≠ b.block := by
      have hcount : s.blockCount ≤ i := hi
      omega
    rw [flagged_set_ne hne]
    exact h.clean i hi
  · intro q hq
    obtain rfl : r = q := Option.some.inj (hcur.symm.trans hq)
    refine ⟨?_, ?_, ?_⟩
    · exact fun i hi c hc => hkeeps.isBlock h.numbered (hentries i hi c hc)
    · intro i hi
      by_cases hne : i = b.block
      · subst hne
        exact hends (flagged_set_self hi)
      · rw [flagged_set_ne hne] at hi
        refine hkeeps.endsAt h.numbered ?_ (hflags i hi)
        intro heq
        exact hne (congrArg BlockRef.block (Option.some.inj heq))
    · exact fun c hc => ⟨hkeeps.isBlock h.numbered (hcurBlock c hc).1, (hcurBlock c hc).2⟩

end State

section Entries
variable {s : LrSession} {r : FuncRef} {b : BlockRef} {id : Nat}

/-- A larger table has the same entries and flags. -/
theorem ensureCapacity_cases (s : LrSession) (need : Nat) : ∃ blocks seen terminated,
    ensureBlockCapacity s need =
        { s with blocks := blocks, blockSeen := seen, blockTerminated := terminated } ∧
      (∀ i : Nat, (blocks[i]?).join = (s.blocks[i]?).join) ∧
      ∀ i : Nat, flagged (ensureBlockCapacity s need) i = flagged s i := by
  have hflag : ∀ (xs : List Bool) (cap i : Nat),
      ((padTo xs cap false)[i]?).getD false = (xs[i]?).getD false := by
    intro xs cap i
    obtain hsame | ⟨hnone, hfill⟩ := getElem?_padTo xs cap false i
    · rw [hsame]
    · rw [hnone, hfill]
      rfl
  unfold ensureBlockCapacity
  split
  · exact ⟨s.blocks, s.blockSeen, s.blockTerminated, rfl, fun _ => rfl, fun _ => rfl⟩
  · refine ⟨_, _, _, rfl, ?_, ?_⟩
    · intro i
      obtain hsame | ⟨hnone, hfill⟩ := getElem?_padTo s.blocks
        (growCap need need (if s.blocks.length = 0 then 8 else s.blocks.length)) none i
      · rw [hsame]
      · rw [hnone, hfill]
        rfl
    · intro i
      simp only [flagged, hflag]

theorem Built.grow (h : Built r s) (need : Nat) : Built r (ensureBlockCapacity s need) := by
  obtain ⟨blocks, seen, terminated, heq, hentries, hflags⟩ := ensureCapacity_cases s need
  rw [heq] at hflags ⊢
  refine ⟨?_, ?_, h.curBlock⟩
  · intro i hi b hb
    simp only [hentries] at hb
    exact h.entries i hi b hb
  · intro i hi
    rw [hflags] at hi
    exact h.flags i hi

theorem Tracked.grow (h : Tracked s) (need : Nat) : Tracked (ensureBlockCapacity s need) := by
  have hbuilt : ∀ r ∈ s.curFunc, Built r (ensureBlockCapacity s need) :=
    fun r hr => (h.built r hr).grow need
  obtain ⟨blocks, seen, terminated, heq, -, hflags⟩ := ensureCapacity_cases s need
  rw [heq] at hflags hbuilt ⊢
  refine ⟨⟨h.numbered, ?_⟩, h.idle, h.quiet, hbuilt⟩
  intro i hi
  rw [hflags]
  exact h.clean i hi

theorem ensureCapacity_curFunc (s : LrSession) (need : Nat) :
    (ensureBlockCapacity s need).curFunc = s.curFunc := by
  unfold ensureBlockCapacity
  split <;> rfl

/-- The table after `b` is entered under `id`. -/
def entered (s : LrSession) (id : Nat) (b : BlockRef) : LrSession :=
  { s with blocks := s.blocks.set id (some b), blockCount := max s.blockCount (id + 1) }

/-- A block of the function is entered; the entries that are counted with it are its own. -/
theorem entryOf_entered (hb : IsBlock s.modules r id b)
    (hrest : ∀ i < max s.blockCount (id + 1), i ≠ id → EntryOf s r i) :
    ∀ i < max s.blockCount (id + 1), EntryOf (entered s id b) r i := by
  intro i hi c hc
  by_cases hid : i = id
  · subst hid
    simp only [entered, getElem?_set] at hc
    split at hc
    · split at hc
      · cases hc
        exact hb
      · cases hc
    · simp at *
  · simp only [entered, getElem?_set_ne (Ne.symm hid)] at hc
    exact hrest i hi hid c hc

theorem Tracked.entered (h : Tracked s) (hcur : s.curFunc = some r)
    (hb : IsBlock s.modules r id b) (hgap : ∀ i < id, s.blockCount ≤ i → EntryOf s r i) :
    Tracked (entered s id b) := by
  have hbuilt := h.ofCur hcur
  refine ⟨⟨h.numbered, ?_⟩, ?_, h.quiet, ?_⟩
  · intro i hi
    exact h.clean i (le_trans (le_max_left _ _) hi)
  · intro hnone
    exact absurd (hcur.symm.trans hnone) (by simp)
  · intro q hq
    obtain rfl : r = q := Option.some.inj (hcur.symm.trans hq)
    refine ⟨entryOf_entered hb ?_, hbuilt.flags, ?_⟩
    · intro i hi hid
      by_cases hcount : i < s.blockCount
      · exact hbuilt.entries i hcount
      · exact hgap i (by omega) (by omega)
    · intro c hc
      exact ⟨(hbuilt.curBlock c hc).1, lt_of_lt_of_le (hbuilt.curBlock c hc).2 (le_max_left _ _)⟩

/-- A block that is created with the next id is the function's block with that id. -/
theorem isBlock_created {f : LrFunc} (hfunc : findFunc s.modules r = some f) (hnum : Numbered f)
    (hid : f.numBlocks = id) (name : CStr) :
    IsBlock (updateFuncRef s r (blockCreate name)).modules r id ⟨r, f.blocks.length⟩ := by
  refine ⟨rfl, ⟨name, id, []⟩, ?_, rfl⟩
  have hplace : f.blocks.length = id := hnum.count.symm.trans hid
  refine (findBlock_change (changesFunc_updateFunc r.func _) _).trans ?_
  rw [if_pos rfl, hfunc, ← hplace]
  exact SwitchLowering.create_new hnum name

/-- Each turn creates a block of the function and enters it under the next id. -/
theorem tracked_createBlocks (turns : Nat) (h : Tracked s) (hcur : s.curFunc = some r) :
    Tracked (createBlocks r turns s).1 ∧ (createBlocks r turns s).1.curFunc = some r := by
  induction turns generalizing s with
  | zero => exact ⟨h, hcur⟩
  | succ turns ih =>
    simp only [createBlocks]
    cases hfunc : findFunc s.modules r with
    | none => exact ⟨h, hcur⟩
    | some f =>
      have hcreated : Tracked (updateFuncRef s r (blockCreate (blockName s.blockCount))) :=
        h.keeps (keeps_create (blockName s.blockCount) r)
      simp only
      split
      · exact ⟨hcreated, hcur⟩
      · next hid =>
        have hnew := isBlock_created hfunc (h.numbered r f hfunc) (not_not.1 hid)
          (blockName s.blockCount)
        have henter := hcreated.entered hcur hnew fun i hi hcount =>
          absurd hcount (Nat.not_le_of_lt hi)
        have hmax : max s.blockCount (s.blockCount + 1) = s.blockCount + 1 := by omega
        unfold BlockTables.entered at henter
        simp only [updateFuncRef, updateModule, hmax] at henter
        exact ih henter hcur

theorem tracked_ensureBlock (h : Tracked s) (hcur : s.curFunc = some r) (blockId : Nat) :
    Tracked (ensureBlock s blockId).1 ∧ (ensureBlock s blockId).1.curFunc = some r := by
  simp only [ensureBlock, hcur]
  exact tracked_createBlocks _ (h.grow (blockId + 1))
    ((ensureCapacity_curFunc s (blockId + 1)).trans hcur)

end Entries

section BlockCalls
variable {s s' : LrSession} {r : FuncRef} {b : BlockRef}

theorem tracked_block (h : Tracked s) : Tracked (lrSessionBlock s).1 := by
  unfold lrSessionBlock
  split
  · exact h
  · next r hcur => exact (tracked_ensureBlock h hcur s.blockCount).1

theorem Tracked.notStreamed (h : Tracked s) :
    (s.compileActive && !s.compileDeferred) = false := by
  cases hactive : s.compileActive with
  | false => rfl
  | true =>
    rw [(h.quiet hactive).1]
    rfl

/-- A block of the current function becomes the current block. -/
theorem Tracked.select (h : Tracked s) (hcur : s.curFunc = some r) (cur : Option BlockRef)
    (hsel : ∀ b ∈ cur, IsBlock s.modules r b.block b ∧ b.block < s.blockCount) :
    Tracked { s with curBlock := cur } := by
  refine ⟨⟨h.numbered, h.clean⟩, h.idle, h.quiet, ?_⟩
  intro q hq
  obtain rfl : r = q := Option.some.inj (hcur.symm.trans hq)
  exact ⟨(h.ofCur hcur).entries, (h.ofCur hcur).flags, hsel⟩

/-- What a counted entry holds is the block with its place as id. -/
theorem entry_isBlock (hnum : ModulesNumbered s.modules) (h : IsBlock s.modules r i b) :
    IsBlock s.modules r b.block b ∧ b.block = i := by
  obtain ⟨rfl, -⟩ := (isBlock_iff hnum).1 h
  exact ⟨h, rfl⟩

theorem setBlock_tracked (h : Tracked s) (id : Nat) :
    ∃ s' ok, lrSessionSetBlock s id = some (s', ok) ∧ Tracked s' := by
  unfold lrSessionSetBlock
  cases hcur : s.curFunc with
  | none => exact ⟨s, false, rfl, h⟩
  | some r =>
    obtain ⟨hensured, hcur'⟩ := tracked_ensureBlock h hcur id
    simp only [hensured.notStreamed]
    cases hok : (ensureBlock s id).2 with
    | false => exact ⟨_, _, rfl, hensured⟩
    | true =>
      refine ⟨_, _, rfl, hensured.select hcur' _ ?_⟩
      intro b hb
      have hcount := ensureBlock_count hok
      obtain ⟨hblock, hid⟩ := entry_isBlock hensured.numbered
        ((hensured.ofCur hcur').entries id hcount b hb)
      exact ⟨hblock, hid ▸ hcount⟩

theorem enterAt_eq (s : LrSession) (id : Nat) (b : BlockRef) :
    enterAt s id b = entered (ensureBlockCapacity s (id + 1)) id b := by
  have hcount : ∀ n : Nat, (if n ≤ id then id + 1 else n) = max n (id + 1) := by
    intro n
    split <;> omega
  simp only [enterAt, entered, hcount]

/-- A block that is adopted under its own id. -/
theorem adoptBlock_tracked (h : Tracked s) (id : Nat) (b : BlockRef)
    (hown : TakesOwn s (.adoptBlock id b)) :
    ∃ s' ok, lrSessionAdoptBlock s id b = some (s', ok) ∧ Tracked s' := by
  unfold lrSessionAdoptBlock
  cases hcur : s.curFunc with
  | none => exact ⟨s, false, rfl, h⟩
  | some r =>
    cases hfound : findBlock s.modules b with
    | none => exact ⟨s, false, rfl, h⟩
    | some blk =>
      obtain ⟨hb, hgap⟩ := hown r hcur (by rw [hfound]; rfl)
      obtain ⟨blocks, seen, terminated, heq, hentries, -⟩ := ensureCapacity_cases s (id + 1)
      have hgrown := h.grow (id + 1)
      simp only [enterAt_eq]
      rw [heq] at hgrown ⊢
      have hgap' : ∀ i < id, s.blockCount ≤ i → EntryOf
          { s with blocks := blocks, blockSeen := seen, blockTerminated := terminated } r i := by
        intro i hi hcount c hc
        simp only [hentries] at hc
        exact hgap i hi hcount c hc
      have henter := hgrown.entered hcur hb hgap'
      have hselect : Tracked { entered { s with
          blocks := blocks, blockSeen := seen, blockTerminated := terminated } id b with
          curBlock := some b } := by
        refine henter.select hcur (some b) ?_
        intro c hc
        cases hc
        obtain ⟨hblock, hid⟩ := entry_isBlock h.numbered hb
        refine ⟨hblock, ?_⟩
        rw [hid]
        exact lt_of_lt_of_le (Nat.lt_succ_self id) (le_max_right _ _)
      have hstream := hselect.notStreamed
      simp only [hstream]
      exact ⟨_, _, rfl, hselect⟩

/-- A function is bound whose blocks are the ones in the table. -/
theorem tracked_bindIr (h : Tracked s) (module : Nat) (r : FuncRef) (b : BlockRef)
    (hown : TakesOwn s (.bindIr module r b)) : Tracked (lrSessionBindIr s module r b).1 := by
  unfold lrSessionBindIr
  split
  · next m f blk hm hf hblk =>
    split
    · exact h
    · next hfunc =>
      have hfunc : b.func = r := not_not.1 hfunc
      obtain ⟨hrest, hflags⟩ := hown blk hblk hfunc (by rw [hm]; rfl)
      have hb : IsBlock s.modules r blk.id b := ⟨hfunc, blk, hblk, rfl⟩
      obtain ⟨hblock, hid⟩ := entry_isBlock h.numbered hb
      obtain ⟨blocks, seen, terminated, heq, hentries, hsame⟩ :=
        ensureCapacity_cases { s with module := module } (blk.id + 1)
      simp only [enterAt_eq]
      rw [heq] at hsame ⊢
      have hclean : ∀ i, max s.blockCount (blk.id + 1) ≤ i → flagged s i = false :=
        fun i hi => h.clean i (le_trans (le_max_left _ _) hi)
      refine ⟨⟨h.numbered, ?_⟩, ?_, ?_, ?_⟩
      · intro i hi
        exact (hsame i).trans (hclean i hi)
      · intro hnone
        cases hnone
      · intro hactive
        cases hactive
      · intro q hq
        cases hq
        refine ⟨?_, ?_, ?_⟩
        · refine entryOf_entered (s := { s with
            module := module, blocks := blocks, blockSeen := seen,
            blockTerminated := terminated }) hb ?_
          intro i hi hne c hc
          simp only [hentries] at hc
          exact hrest i hi hne c hc
        · intro i hi
          have hi : flagged s i = true := (hsame i).symm.trans hi
          refine hflags i ?_ hi
          by_contra hcount
          rw [h.clean i (Nat.le_of_not_lt hcount)] at hi
          cases hi
        · intro c hc
          cases hc
          refine ⟨hblock, ?_⟩
          rw [hid]
          exact lt_of_lt_of_le (Nat.lt_succ_self blk.id) (le_max_right _ _)
  · exact h

/-- An instruction is appended to the current block, whose flags then tell whether it is a
terminator. -/
theorem tracked_emitInto (h : Tracked s) (hcur : s.curFunc = some r) (hb : s.curBlock = some b)
    {s₁ : LrSession} (hedits : Edits (some b) s s₁) (inst : InstDesc) (n : Nat) :
    Tracked { emitIrInstruction s₁ b r inst with
      blockSeen := (emitIrInstruction s₁ b r inst).blockSeen.set
        (blockIdOf (emitIrInstruction s₁ b r inst) b) true
      blockTerminated := (emitIrInstruction s₁ b r inst).blockTerminated.set
        (blockIdOf (emitIrInstruction s₁ b r inst) b) (isTerminator inst.op)
      emittedCount := n } := by
  obtain ⟨hisBlock, -⟩ := (h.ofCur hcur).curBlock b hb
  have hall : Edits (some b) s (emitIrInstruction s₁ b r inst) :=
    hedits.trans (edits_emitIr s₁ b r inst)
  have hid : blockIdOf (emitIrInstruction s₁ b r inst) b = b.block := by
    obtain ⟨-, blk, hblk, hid⟩ := hall.keeps.isBlock h.numbered hisBlock
    have hblk : findBlock (emitIrInstruction s₁ b r inst).modules b = some blk := hblk
    rw [blockIdOf, hblk]
    exact hid
  rw [hid]
  refine tracked_flags h hcur hb hall ?_
  intro hterm
  have hfunc : b.func = r := hisBlock.1
  have hsome : (findBlock s₁.modules b).isSome :=
    hedits.keeps.kept b ((isBlock_iff h.numbered).1 hisBlock).2
  rw [← hfunc]
  exact endsAt_emitIr (hedits.keeps.numbered h.numbered) hsome hterm

theorem emit_tracked (h : Tracked s) (inst : InstDesc) :
    ∃ s' dest, lrSessionEmit s inst = some (s', dest) ∧ Tracked s' := by
  unfold lrSessionEmit
  split
  · next r b hcur hb =>
    simp only
    split
    · exact ⟨s, 0, rfl, h⟩
    · generalize hdest : instDest s r inst (instType (sessionTypes s) inst) = q
      have hedits : Edits (some b) s q.1 := hdest ▸ edits_instDest s r inst _ (some b)
      have hstream : (q.1.compileActive && !q.1.compileDeferred) = false := by
        have hsame := h.notStreamed
        rw [hedits.same]
        exact hsame
      have hresolve : ∀ desc, resolvesCallTarget q.1 desc = false := by
        intro desc
        unfold resolvesCallTarget
        rw [hedits.same]
        cases hact : s.compileActive with
        | false => rfl
        | true =>
          have hmem : s.objCtxModules.contains s.module = true := by
            simpa using (h.quiet hact).2
          simp only [hmem, Bool.not_true, Bool.and_false]
      simp only [hresolve, hstream, Bool.or_self]
      exact ⟨_, _, rfl, tracked_emitInto h hcur hb hedits _ _⟩
  · exact ⟨s, 0, rfl, h⟩

end BlockCalls

end Liric.Guarantees.BlockTables
