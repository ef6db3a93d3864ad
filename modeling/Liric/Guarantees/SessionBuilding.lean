import Liric.Guarantees.SessionRuns

/-!
# Functions built by turns

What a step of building does to the current function depends on that function and on
what is kept for it only, and nothing else of the session changes.
-/
namespace Liric.Guarantees.SessionBuilding
open Source.Ir Source.Object Source.Session SessionRuns Option

variable {b : BlockRef}

/-- What building keeps for a function besides its IR. -/
structure BuildState where
  curBlock : Option BlockRef
  blocks : List (Option BlockRef)
  blockSeen : List Bool
  blockTerminated : List Bool
  blockCount : Nat
  phiCopies : List SessionPhiCopyEntry
  emittedCount : Nat
  deriving DecidableEq

def current (s : LrSession) : BuildState :=
  ⟨s.curBlock, s.blocks, s.blockSeen, s.blockTerminated, s.blockCount, s.phiCopies, s.emittedCount⟩

def saved (slot : SuspendedCompile) : BuildState :=
  ⟨slot.curBlock, slot.blocks, slot.blockSeen, slot.blockTerminated, slot.blockCount,
    slot.phiCopies, slot.emittedCount⟩

/-- The state of a function that is being built, in the session or in its slot. -/
def stateOf (s : LrSession) (r : FuncRef) : Option BuildState :=
  if s.curFunc = some r then some (current s)
  else (s.suspended.find? fun slot => slot.func = r).map saved

/-- The IR of a function; whether it has been compiled is left out. -/
def irOf (s : LrSession) (r : FuncRef) : Option LrFunc :=
  (findFunc s.modules r).map fun f => { f with isDecl := false }

/-- The counted blocks and the current one belong to `r`. -/
structure OwnedBy (r : FuncRef) (b : BuildState) : Prop where
  curBlock : ∀ blk, b.curBlock = some blk → blk.func = r
  blocks : ∀ i < b.blockCount, ∀ blk, b.blocks[i]? = some (some blk) → blk.func = r

theorem sessionTypes_eq (s : LrSession) :
    sessionTypes s = (moduleTypes s.modules s.module).getD (lrModuleCreateTypes 0) := rfl

section Modules
variable (modules : List LrModule)

/-- Two lists of modules have the same functions and types apart from `q`. -/
structure ModulesTouch (q : FuncRef) (ms ms' : List LrModule) : Prop where
  others : ∀ r, r ≠ q → findFunc ms' r = findFunc ms r
  kept : (findFunc ms q).isSome → (findFunc ms' q).isSome
  types : ∀ i, moduleTypes ms' i = moduleTypes ms i

theorem ModulesTouch.refl (q : FuncRef) (ms : List LrModule) : ModulesTouch q ms ms :=
  ⟨fun _ _ => rfl, id, fun _ => rfl⟩

variable {ms' ms : List LrModule}

theorem ModulesTouch.trans {q : FuncRef} {ms'' : List LrModule}
    (h : ModulesTouch q ms ms') (h' : ModulesTouch q ms' ms'') : ModulesTouch q ms ms'' :=
  ⟨fun r hr => (h'.others r hr).trans (h.others r hr), fun hq => h'.kept (h.kept hq),
    fun i => (h'.types i).trans (h.types i)⟩

theorem ModulesTouch.isSome {q r : FuncRef} (h : ModulesTouch q ms ms')
    (hexist : (findFunc ms r).isSome) : (findFunc ms' r).isSome := by
  by_cases hq : r = q
  · subst hq
    exact h.kept hexist
  · rw [h.others r hq]
    exact hexist

/-- A change of a module that does what `change` does to its function `i`. -/
structure ChangesFunc (i : Nat) (change : LrFunc → LrFunc) (f : LrModule → LrModule) : Prop where
  funcs : ∀ m, (f m).funcs = m.funcs.modify i change
  builtin : ∀ m, (f m).builtin = m.builtin

theorem changesFunc_updateFunc (i : Nat) (change : LrFunc → LrFunc) :
    ChangesFunc i change fun m => updateFunc m i change :=
  ⟨fun _ => rfl, fun _ => rfl⟩

def appendToBlock (block : Nat) (inst : LrInst) (f : LrFunc) : LrFunc :=
  { f with blocks := f.blocks.modify block fun b => { b with insts := b.insts ++ [inst] } }

theorem changesFunc_append (i block : Nat) (inst : LrInst) :
    ChangesFunc i (appendToBlock block inst) fun m => lrBlockAppend m i block inst := by
  constructor
  all_goals
    intro m
    unfold lrBlockAppend
    simp only
    split <;> rfl

variable {modules} {q : FuncRef} {change : LrFunc → LrFunc} {f : LrModule → LrModule}

theorem findFunc_changed (h : ChangesFunc q.func change f) :
    findFunc (modules.modify q.module f) q = (findFunc modules q).map change := by
  rw [findFunc_modify, if_pos rfl]
  unfold findFunc
  cases modules[q.module]? with
  | none => rfl
  | some m => simp [h.funcs]

theorem modulesTouch_changed (h : ChangesFunc q.func change f) :
    ModulesTouch q modules (modules.modify q.module f) where
  others := by
    intro r hr
    rw [findFunc_modify]
    split
    · next hmodule =>
      have hfunc : q.func ≠ r.func := fun hfunc =>
        hr (by cases q; cases r; simp_all)
      unfold findFunc
      cases modules[r.module]? with
      | none => rfl
      | some m => simp [h.funcs, hfunc]
    · rfl
  kept := by
    intro hq
    rw [findFunc_changed h, isSome_map]
    exact hq
  types := fun i => moduleTypes_modify modules q.module i f h.builtin

end Modules

def withState (s : LrSession) (b : BuildState) : LrSession :=
  { s with
    curBlock := b.curBlock, blocks := b.blocks, blockSeen := b.blockSeen
    blockTerminated := b.blockTerminated, blockCount := b.blockCount
    phiCopies := b.phiCopies, emittedCount := b.emittedCount }

/-- `r` is current and is not streamed. -/
structure Here (own : BuildState → Prop) (r : FuncRef) (s : LrSession) : Prop where
  curFunc : s.curFunc = some r
  active : s.compileActive = true
  deferred : s.compileDeferred = true
  objCtx : s.module ∈ s.objCtxModules
  owned : own (current s)

/-- Only `r` and the state of what is built differ. -/
structure Touches (own : BuildState → Prop) (r : FuncRef) (s s' : LrSession) : Prop where
  modules : ModulesTouch r s.modules s'.modules
  same : s' = withState { s with modules := s'.modules } (current s')
  owned : own (current s')

/-- Two sessions agree on `r`, which is current in both. -/
structure Alike (own : BuildState → Prop) (r : FuncRef) (s t : LrSession) : Prop where
  left : Here own r s
  right : Here own r t
  leftModule : s.module = r.module
  rightModule : t.module = r.module
  func : findFunc s.modules r = findFunc t.modules r
  types : moduleTypes s.modules r.module = moduleTypes t.modules r.module
  state : current s = current t

section Local
variable {own : BuildState → Prop} {r : FuncRef} {s s' s'' t : LrSession}

theorem Touches.refl (h : Here own r s) : Touches own r s s :=
  ⟨.refl r s.modules, rfl, h.owned⟩

theorem Touches.trans (h : Touches own r s s') (h' : Touches own r s' s'') :
    Touches own r s s'' where
  modules := h.modules.trans h'.modules
  same := by
    have hsame := h'.same
    rw [h.same] at hsame
    exact hsame
  owned := h'.owned

theorem Here.touches (h : Here own r s) (htouch : Touches own r s s') : Here own r s' := by
  have hsame := htouch.same
  constructor
  · rw [hsame]
    exact h.curFunc
  · rw [hsame]
    exact h.active
  · rw [hsame]
    exact h.deferred
  · rw [hsame]
    exact h.objCtx
  · exact htouch.owned

variable {own' : BuildState → Prop}

theorem Here.weaken (h : Here own r s)
    (hown : own (current s) → own' (current s)) : Here own' r s :=
  ⟨h.curFunc, h.active, h.deferred, h.objCtx, hown h.owned⟩

theorem Here.notStreamed (h : Here own r s) : (s.compileActive && !s.compileDeferred) = false := by
  rw [h.active, h.deferred]
  rfl

/-- An operation that depends on `r` and what is built only, and changes no more. -/
structure LocalTo {α : Type} (own : BuildState → Prop) (r : FuncRef)
    (op : LrSession → Option (LrSession × α)) : Prop where
  touches : ∀ s, Here own r s → ∃ s' a, op s = some (s', a) ∧ Touches own r s s'
  alike : ∀ s t s' a, Alike own r s t → op s = some (s', a) →
    ∃ t', op t = some (t', a) ∧ Alike own r s' t'

variable {α β : Type} {op op' : LrSession → Option (LrSession × α)}

theorem LocalTo.of_eq (h : LocalTo own r op) (heq : ∀ s, Here own r s → op' s = op s) :
    LocalTo own r op' where
  touches := by
    intro s hs
    rw [heq s hs]
    exact h.touches s hs
  alike := by
    intro s t s' a hst hs
    rw [heq t hst.right]
    exact h.alike s t s' a hst ((heq s hst.left).symm.trans hs)

theorem LocalTo.pure (a : α) : LocalTo own r fun s => some (s, a) where
  touches := fun s hs => ⟨s, a, rfl, .refl hs⟩
  alike := by
    intro s t s' a' hst hs
    cases hs
    exact ⟨t, rfl, hst⟩

theorem LocalTo.bind {next : α → LrSession → Option (LrSession × β)} (h : LocalTo own r op)
    (hnext : ∀ a, LocalTo own r (next a)) :
    LocalTo own r fun s => (op s).bind fun p => next p.2 p.1 where
  touches := by
    intro s hs
    obtain ⟨s₁, a, hop, htouch⟩ := h.touches s hs
    obtain ⟨s₂, b, hop', htouch'⟩ := (hnext a).touches s₁ (hs.touches htouch)
    exact ⟨s₂, b, by rw [hop]; exact hop', htouch.trans htouch'⟩
  alike := by
    intro s t s₂ b hst hs
    obtain ⟨⟨s₁, a⟩, hop, hop'⟩ := bind_eq_some_iff.1 hs
    obtain ⟨t₁, htop, hst₁⟩ := h.alike s t s₁ a hst hop
    obtain ⟨t₂, htop', hst₂⟩ := (hnext a).alike s₁ t₁ s₂ b hst₁ hop'
    exact ⟨t₂, by rw [htop]; exact htop', hst₂⟩

/-- What is read is the same in sessions that agree. -/
theorem LocalTo.read (read : LrSession → β) (next : β → LrSession → Option (LrSession × α))
    (hread : ∀ s t, Alike own r s t → read s = read t)
    (hnext : ∀ s, Here own r s → LocalTo own r (next (read s))) :
    LocalTo own r fun s => next (read s) s where
  touches := fun s hs => (hnext s hs).touches s hs
  alike := by
    intro s t s' a hst hs
    rw [← hread s t hst]
    exact (hnext s hst.left).alike s t s' a hst hs

/-- A change of the state of what is built. -/
theorem LocalTo.state (own : BuildState → Prop) (change : BuildState → BuildState) (a : α)
    (hown : ∀ b, own b → own (change b)) :
    LocalTo own r fun s => some (withState s (change (current s)), a) where
  touches := fun s hs => ⟨_, a, rfl, .refl r s.modules, rfl, hown _ hs.owned⟩
  alike := by
    intro s t s' a' hst hs
    cases hs
    refine ⟨_, rfl, ?_⟩
    exact
      { left := ⟨hst.left.curFunc, hst.left.active, hst.left.deferred, hst.left.objCtx,
          hown _ hst.left.owned⟩
        right := ⟨hst.right.curFunc, hst.right.active, hst.right.deferred, hst.right.objCtx,
          hown _ hst.right.owned⟩
        leftModule := hst.leftModule
        rightModule := hst.rightModule
        func := hst.func
        types := hst.types
        state := congrArg change hst.state }

/-- A change of the function. -/
theorem LocalTo.change {change : LrFunc → LrFunc} {f : LrModule → LrModule}
    (h : ChangesFunc r.func change f) (a : α) :
    LocalTo own r fun s => some (updateModule s r.module f, a) where
  touches := fun s hs => ⟨_, a, rfl, modulesTouch_changed h, rfl, hs.owned⟩
  alike := by
    intro s t s' a' hst hs
    cases hs
    refine ⟨_, rfl, ?_⟩
    exact
      { left := ⟨hst.left.curFunc, hst.left.active, hst.left.deferred, hst.left.objCtx,
          hst.left.owned⟩
        right := ⟨hst.right.curFunc, hst.right.active, hst.right.deferred, hst.right.objCtx,
          hst.right.owned⟩
        leftModule := hst.leftModule
        rightModule := hst.rightModule
        func := by
          simp only [updateModule]
          rw [findFunc_changed h, findFunc_changed h, hst.func]
        types := by
          simp only [updateModule]
          rw [(modulesTouch_changed h).types, (modulesTouch_changed h).types, hst.types]
        state := hst.state }

theorem LocalTo.appendInst (hb : b.func = r) (inst : LrInst) (a : α) :
    LocalTo own r fun s => some (appendInst s b inst, a) := by
  subst hb
  exact .change (changesFunc_append b.func.func b.block inst) a

/-! What sessions that agree read. -/

theorem Alike.weaken {own : BuildState → Prop} (h : Alike own r s t)
    (hown : ∀ b, own b → own' b) : Alike own' r s t :=
  { h with
    left := h.left.weaken (hown _)
    right := h.right.weaken (hown _) }

theorem Alike.blockCount (h : Alike own r s t) : s.blockCount = t.blockCount :=
  congrArg BuildState.blockCount h.state

theorem Alike.curBlock (h : Alike own r s t) : s.curBlock = t.curBlock :=
  congrArg BuildState.curBlock h.state

theorem Alike.vregOf (h : Alike own r s t) : vregOf s r = vregOf t r := by
  unfold Source.Session.vregOf
  rw [h.func]

theorem Alike.findBlock (h : Alike own r s t) (hb : b.func = r) :
    findBlock s.modules b = findBlock t.modules b := by
  unfold Source.Session.findBlock
  rw [hb, h.func]

theorem Alike.sessionTypes (h : Alike own r s t) : sessionTypes s = sessionTypes t := by
  rw [sessionTypes_eq, sessionTypes_eq, h.leftModule, h.rightModule, h.types]

end Local

def growState (need : Nat) (b : BuildState) : BuildState :=
  if need ≤ b.blocks.length then b
  else
    let newCap := growCap need need (if b.blocks.length = 0 then 8 else b.blocks.length)
    { b with
      blocks := padTo b.blocks newCap none
      blockSeen := padTo b.blockSeen newCap false
      blockTerminated := padTo b.blockTerminated newCap false }

theorem ensureBlockCapacity_eq (s : LrSession) (need : Nat) :
    ensureBlockCapacity s need = withState s (growState need (current s)) := by
  by_cases h : need ≤ s.blocks.length
  · rw [ensureBlockCapacity, if_pos h, growState, if_pos (show need ≤ (current s).blocks.length from h)]
    rfl
  · rw [ensureBlockCapacity, if_neg h, growState,
      if_neg (show ¬ need ≤ (current s).blocks.length from h)]
    rfl

variable {α : Type}

theorem getElem?_padTo (xs : List α) (cap : Nat) (fill : α) (i : Nat) :
    (padTo xs cap fill)[i]? = xs[i]? ∨ xs[i]? = none ∧ (padTo xs cap fill)[i]? = some fill := by
  simp only [padTo, List.getElem?_append, List.getElem?_replicate]
  split
  · exact .inl rfl
  · next hi =>
    rw [List.getElem?_eq_none (Nat.le_of_not_lt hi)]
    split
    · exact .inr ⟨rfl, rfl⟩
    · exact .inl rfl

theorem ownedBy_grow {r : FuncRef} {b : BuildState} (need : Nat) (h : OwnedBy r b) :
    OwnedBy r (growState need b) := by
  unfold growState
  split
  · exact h
  · refine ⟨h.curBlock, ?_⟩
    intro i hi blk hblk
    refine h.blocks i hi blk ?_
    obtain hsame | ⟨-, hfill⟩ := getElem?_padTo b.blocks _ none i
    · exact hsame.symm.trans hblk
    · exact absurd (hfill.symm.trans hblk) (by simp)

theorem ownedBy_set {r : FuncRef} {b : BuildState} (block : Nat) (h : OwnedBy r b) :
    OwnedBy r { b with
      blocks := b.blocks.set b.blockCount (some ⟨r, block⟩), blockCount := b.blockCount + 1 } := by
  refine ⟨h.curBlock, ?_⟩
  intro i hi blk hblk
  simp only [List.getElem?_set] at hblk hi
  split at hblk
  · split at hblk
    · cases hblk
      rfl
    · cases hblk
  · exact h.blocks i (by omega) blk hblk

variable {s : LrSession}

section Blocks
variable {r : FuncRef}

theorem local_ensureBlockCapacity (need : Nat) :
    LocalTo (OwnedBy r) r fun s => some (ensureBlockCapacity s need, ()) :=
  (LocalTo.state (OwnedBy r) (growState need) () fun _ => ownedBy_grow need).of_eq
    fun s _ => by rw [ensureBlockCapacity_eq]

/-- The block that was created is entered into the table. -/
def enterBlock (r : FuncRef) (block : Nat) (b : BuildState) : BuildState :=
  { b with
    blocks := b.blocks.set b.blockCount (some ⟨r, block⟩), blockCount := b.blockCount + 1 }

theorem local_enterBlock (f : LrFunc) (nextId : Nat) {rest : LrSession → LrSession × Bool}
    (hrest : LocalTo (OwnedBy r) r fun s => some (rest s)) :
    LocalTo (OwnedBy r) r fun s =>
      if f.numBlocks ≠ nextId then some (s, false)
      else some (rest (withState s (enterBlock r f.blocks.length (current s)))) := by
  by_cases hcount : f.numBlocks ≠ nextId
  · simp only [if_pos hcount]
    exact .pure false
  · simp only [if_neg hcount]
    exact (LocalTo.state (OwnedBy r) (enterBlock r f.blocks.length) () fun _ =>
      ownedBy_set f.blocks.length).bind fun _ => hrest

/-- One turn creates a block of the function and enters it into the table. -/
theorem local_createBlocks : ∀ turns : Nat,
    LocalTo (OwnedBy r) r fun s => some (createBlocks r turns s)
  | 0 => .pure true
  | turns + 1 => by
    refine (LocalTo.read (fun s => (findFunc s.modules r, s.blockCount))
      (fun p s => p.1.elim (some (s, false)) fun f =>
        (some (updateFuncRef s r (blockCreate (blockName p.2)), ())).bind fun q =>
          if f.numBlocks ≠ p.2 then some (q.1, false)
          else some (createBlocks r turns
            (withState q.1 (enterBlock r f.blocks.length (current q.1)))))
      ?_ ?_).of_eq ?_
    · intro s t hst
      rw [hst.func, hst.blockCount]
    · intro s _
      cases findFunc s.modules r with
      | none => exact .pure false
      | some f =>
        exact (LocalTo.change (changesFunc_updateFunc r.func _) ()).bind fun _ =>
          local_enterBlock f s.blockCount (local_createBlocks turns)
    · intro s _
      simp only [createBlocks]
      cases findFunc s.modules r with
      | none => rfl
      | some f =>
        simp only [bind_some, elim_some]
        split <;> rfl

theorem local_ensureBlock (blockId : Nat) :
    LocalTo (OwnedBy r) r fun s => some (ensureBlock s blockId) := by
  refine (LocalTo.read (fun s => blockId + 1 - s.blockCount)
    (fun turns s => (some (ensureBlockCapacity s (blockId + 1), ())).bind fun q =>
      some (createBlocks r turns q.1))
    ?_ ?_).of_eq ?_
  · intro s t hst
    rw [hst.blockCount]
  · exact fun s _ => (local_ensureBlockCapacity (blockId + 1)).bind fun _ => local_createBlocks _
  · intro s hs
    simp only [ensureBlock, hs.curFunc, bind_some]

theorem local_block : LocalTo (OwnedBy r) r fun s => some (lrSessionBlock s) := by
  refine (LocalTo.read (fun s => s.blockCount)
    (fun id s => (some (ensureBlock s id)).bind fun q =>
      some (q.1, if q.2 then some id else none))
    (fun s t hst => hst.blockCount) ?_).of_eq ?_
  · exact fun s _ => (local_ensureBlock s.blockCount).bind fun ok =>
      .pure (if ok then some s.blockCount else none)
  · intro s hs
    simp only [lrSessionBlock, hs.curFunc, bind_some]

theorem Here.after {own : BuildState → Prop}
    {op : LrSession → LrSession × α} (hs : Here own r s)
    (hop : LocalTo own r fun s => some (op s)) : Here own r (op s).1 := by
  obtain ⟨s', a, heq, htouch⟩ := hop.touches s hs
  rw [Option.some.inj heq]
  exact hs.touches htouch

theorem createBlocks_count : ∀ (turns : Nat) (s : LrSession), (createBlocks r turns s).2 = true →
    (createBlocks r turns s).1.blockCount = s.blockCount + turns
  | 0, _, _ => rfl
  | turns + 1, s, hok => by
    simp only [createBlocks] at hok ⊢
    cases hfunc : findFunc s.modules r with
    | none =>
      rw [hfunc] at hok
      cases hok
    | some f =>
      rw [hfunc] at hok
      simp only at hok ⊢
      split at hok
      · cases hok
      · rw [if_neg ‹_›, createBlocks_count turns _ hok]
        simp only [updateFuncRef, updateModule]
        omega

/-- A block that is there on demand is counted. -/
theorem ensureBlock_count {blockId : Nat} (hok : (ensureBlock s blockId).2 = true) :
    blockId < (ensureBlock s blockId).1.blockCount := by
  unfold ensureBlock at hok ⊢
  cases hfunc : s.curFunc with
  | none =>
    rw [hfunc] at hok
    cases hok
  | some r =>
    rw [hfunc] at hok
    simp only at hok ⊢
    rw [createBlocks_count _ _ hok, ensureBlockCapacity_eq]
    have hcount : (withState s (growState (blockId + 1) (current s))).blockCount =
        s.blockCount := by
      simp only [withState, growState]
      split <;> rfl
    rw [hcount]
    omega

def enterSet (blockId : Nat) (b : BuildState) : BuildState :=
  { b with curBlock := if blockId < b.blockCount then (b.blocks[blockId]?).join else none }

theorem ownedBy_enterSet {b : BuildState} (blockId : Nat) (h : OwnedBy r b) :
    OwnedBy r (enterSet blockId b) := by
  refine ⟨?_, h.blocks⟩
  intro blk hblk
  simp only [enterSet] at hblk
  split at hblk
  · next hid => exact h.blocks blockId hid blk (join_eq_some_iff.1 hblk)
  · cases hblk

theorem local_setBlock (blockId : Nat) :
    LocalTo (OwnedBy r) r fun s => lrSessionSetBlock s blockId := by
  have hnext : ∀ ok : Bool, LocalTo (OwnedBy r) r fun s =>
      if ok then some (withState s (enterSet blockId (current s)), true) else some (s, false) := by
    rintro (_ | _)
    · exact .pure false
    · exact LocalTo.state (OwnedBy r) (enterSet blockId) true fun _ => ownedBy_enterSet blockId
  refine ((local_ensureBlock blockId).bind hnext).of_eq ?_
  intro s hs
  have hstream := (hs.after (local_ensureBlock blockId)).notStreamed
  simp only [lrSessionSetBlock, hs.curFunc, bind_some, hstream]
  cases hok : (ensureBlock s blockId).2 with
  | false => rfl
  | true =>
    have hcount := ensureBlock_count hok
    simp only [enterSet, current, hcount]
    rfl

theorem local_addPhiCopy (predBlockId : Nat) (copy : PhiCopyDesc) :
    LocalTo (OwnedBy r) r fun s => lrSessionAddPhiCopy s predBlockId copy := by
  have hnext : ∀ ok : Bool, LocalTo (OwnedBy r) r fun s =>
      if ok then some (withState s { current s with
        phiCopies := (current s).phiCopies ++ [⟨predBlockId, copy⟩] }, true)
      else some (s, false) := by
    rintro (_ | _)
    · exact .pure false
    · exact LocalTo.state (OwnedBy r)
        (fun b => { b with phiCopies := b.phiCopies ++ [⟨predBlockId, copy⟩] }) true
        fun b hb => ⟨hb.curBlock, hb.blocks⟩
  refine ((local_ensureBlock predBlockId).bind hnext).of_eq ?_
  intro s hs
  have hstream := (hs.after (local_ensureBlock predBlockId)).notStreamed
  simp only [lrSessionAddPhiCopy, hs.curFunc, bind_some, appendPhiCopy, hstream]
  cases (ensureBlock s predBlockId).2 with
  | false => rfl
  | true => rfl

end Blocks

section Instructions
variable {own : BuildState → Prop} {r : FuncRef}

theorem local_vregNew : LocalTo own r fun s => some (lrVregNew s r) :=
  (LocalTo.read (fun s => vregOf s r)
    (fun vreg s => some (updateFuncRef s r fun f =>
      { f with nextVreg := (f.nextVreg + 1) % 2 ^ 32 }, vreg))
    (fun _ _ hst => hst.vregOf)
    (fun s _ => .change (changesFunc_updateFunc r.func _) (vregOf s r))).of_eq fun _ _ => rfl

theorem local_vreg : LocalTo own r fun s => some (lrSessionVreg s) := by
  refine (local_vregNew.bind fun vreg => .pure (some vreg)).of_eq ?_
  intro s hs
  simp only [lrSessionVreg, hs.curFunc, bind_some]

theorem local_instDest (inst : InstDesc) (itype : Option LrType) :
    LocalTo own r fun s => some (instDest s r inst itype) := by
  by_cases hdest : opcodeHasDest inst.op itype = true
  · by_cases hzero : inst.dest = 0
    · refine local_vregNew.of_eq fun s _ => ?_
      simp only [instDest, hdest, hzero, if_true]
    · refine (LocalTo.read (fun s => vregOf s r)
        (fun vreg s =>
          if inst.dest ≥ vreg then
            some (updateFuncRef s r fun f => { f with nextVreg := (inst.dest + 1) % 2 ^ 32 },
              inst.dest)
          else some (s, inst.dest)) (fun _ _ hst => hst.vregOf) ?_).of_eq ?_
      · intro s _
        by_cases hge : inst.dest ≥ vregOf s r
        · simp only [if_pos hge]
          exact .change (changesFunc_updateFunc r.func _) inst.dest
        · simp only [if_neg hge]
          exact .pure inst.dest
      · intro s _
        simp only [instDest, hdest, hzero, if_true, if_false]
        split <;> rfl
  · refine (LocalTo.pure 0).of_eq fun s _ => ?_
    simp only [instDest, hdest]
    rfl

/-- The two instructions that extend an index: it is the new register. -/
def extendIndex (s : LrSession) (b : BlockRef) (r : FuncRef) (idxOp : LrOperand) :
    LrSession × LrOperand :=
  (appendInst (lrVregNew s r).1 b
      (lrInstCreate .sext (some (sessionTypes s).typeI64) (lrVregNew s r).2 [idxOp]),
    lrOpVreg (lrVregNew s r).2 (some (sessionTypes s).typeI64))

/-- Which of the three is done depends on the index alone. -/
theorem canonicalize_cases (idxOp : LrOperand) :
    (∀ s b r, lrCanonicalizeGepIndex s b r idxOp =
      (s, { idxOp with type := some (sessionTypes s).typeI64 })) ∨
    (∀ s b r, lrCanonicalizeGepIndex s b r idxOp = extendIndex s b r idxOp) ∨
    (∀ s b r, lrCanonicalizeGepIndex s b r idxOp = (s, idxOp)) := by
  obtain ⟨value, type, offset⟩ := idxOp
  cases value with
  | immI64 val => exact .inl fun s b r => rfl
  | undef => exact .inl fun s b r => rfl
  | vreg v =>
    refine .inr ?_
    cases type with
    | none => exact .inr fun s b r => rfl
    | some t =>
      cases t with
      | scalar addr kind =>
        cases kind with
        | i1 => exact .inl fun s b r => rfl
        | i8 => exact .inl fun s b r => rfl
        | i16 => exact .inl fun s b r => rfl
        | i32 => exact .inl fun s b r => rfl
        | _ => exact .inr fun s b r => rfl
      | _ => exact .inr fun s b r => rfl
  | _ => exact .inr (.inr fun s b r => rfl)

theorem local_extendIndex (hb : b.func = r) (idxOp : LrOperand) :
    LocalTo own r fun s => some (extendIndex s b r idxOp) := by
  refine (LocalTo.read sessionTypes
    (fun types s => (some (lrVregNew s r)).bind fun q => some
      (appendInst q.1 b (lrInstCreate .sext (some types.typeI64) q.2 [idxOp]),
       lrOpVreg q.2 (some types.typeI64)))
    (fun _ _ hst => hst.sessionTypes) ?_).of_eq fun _ _ => rfl
  intro s _
  exact local_vregNew.bind fun vreg =>
    .appendInst hb (lrInstCreate .sext (some (sessionTypes s).typeI64) vreg [idxOp])
      (lrOpVreg vreg (some (sessionTypes s).typeI64))

theorem local_canonicalize (hb : b.func = r) (idxOp : LrOperand) :
    LocalTo own r fun s => some (lrCanonicalizeGepIndex s b r idxOp) := by
  obtain htyped | hextend | hsame := canonicalize_cases idxOp
  · refine (LocalTo.read sessionTypes
      (fun types s => some (s, { idxOp with type := some types.typeI64 }))
      (fun _ _ hst => hst.sessionTypes) (fun s _ => .pure _)).of_eq ?_
    intro s _
    rw [htyped]
  · refine (local_extendIndex hb idxOp).of_eq ?_
    intro s _
    rw [hextend]
  · refine (LocalTo.pure idxOp).of_eq ?_
    intro s _
    rw [hsame]

theorem local_indices {b : BlockRef} (hb : b.func = r) : ∀ ops : List LrOperand,
    LocalTo own r fun s => some (canonicalizeIndices b r s ops)
  | [] => .pure []
  | op :: rest => by
    have hrest : ∀ op' : LrOperand, LocalTo own r fun s =>
        (some (canonicalizeIndices b r s rest)).bind fun q => some (q.1, op' :: q.2) :=
      fun op' => (local_indices hb rest).bind fun rest' => .pure (op' :: rest')
    exact ((local_canonicalize hb op).bind hrest).of_eq fun s _ => rfl

theorem local_emittedOperands (hb : b.func = r) (inst : InstDesc) :
    LocalTo own r fun s => some (emittedOperands s b r inst) := by
  obtain ⟨op, type, dest, operands⟩ := inst
  have hsame : LocalTo own r fun s => some (s, operands) := .pure operands
  cases op with
  | gep =>
    cases operands with
    | nil => exact hsame
    | cons base rest =>
      exact ((local_indices hb rest).bind fun rest' => .pure (base :: rest')).of_eq
        fun s _ => rfl
  | _ => exact hsame

theorem local_emitIr (hb : b.func = r) (inst : InstDesc) :
    LocalTo own r fun s => some (emitIrInstruction s b r inst, ()) :=
  ((local_emittedOperands hb inst).bind fun ops => .appendInst hb (instOf inst ops) ()).of_eq
    fun _ _ => rfl

/-- A direct call keeps its name while the object context takes its relocation. -/
theorem Here.notResolved (h : Here own r s) (inst : InstDesc) :
    resolvesCallTarget s inst = false := by
  have hcontains : s.objCtxModules.contains s.module = true := by
    simpa using h.objCtx
  unfold resolvesCallTarget
  rw [hcontains, Bool.not_true, Bool.and_false]

/-- The flags of the current block after an instruction. -/
def flagState (id : Nat) (terminated : Bool) (b : BuildState) : BuildState :=
  { b with
    blockSeen := b.blockSeen.set id true
    blockTerminated := b.blockTerminated.set id terminated
    emittedCount := b.emittedCount + 1 }

def blockIdOf (s : LrSession) (b : BlockRef) : Nat :=
  ((findBlock s.modules b).map fun blk => blk.id).getD 0

theorem local_flags (hb : b.func = r) (terminated : Bool) (dest : Nat) :
    LocalTo (OwnedBy r) r fun s =>
      some (withState s (flagState (blockIdOf s b) terminated (current s)), dest) :=
  LocalTo.read (fun s => blockIdOf s b)
    (fun id s => some (withState s (flagState id terminated (current s)), dest))
    (fun s t hst => by rw [blockIdOf, blockIdOf, hst.findBlock hb])
    (fun s _ => LocalTo.state (OwnedBy r) (flagState (blockIdOf s b) terminated) dest
      fun _ hown => ⟨hown.curBlock, hown.blocks⟩)

/-- The normalized descriptor: what `emit` hands on. -/
def normalized (inst : InstDesc) (itype : Option LrType) (dest : Nat) : InstDesc :=
  { inst with type := itype, dest := dest, operands := trimOperands inst itype }

theorem local_emitInto (hb : b.func = r) (inst : InstDesc) (itype : Option LrType) :
    LocalTo (OwnedBy r) r fun s =>
      (some (instDest s r inst itype)).bind fun q =>
        (some (emitIrInstruction q.1 b r (normalized inst itype q.2), ())).bind fun q' =>
          some (withState q'.1 (flagState (blockIdOf q'.1 b) (isTerminator inst.op)
            (current q'.1)), q.2) :=
  (local_instDest inst itype).bind fun dest =>
    (local_emitIr hb (normalized inst itype dest)).bind fun _ =>
      local_flags hb (isTerminator inst.op) dest

/-- An instruction with a type is appended to the current block. -/
theorem lrSessionEmit_eq (hs : Here (OwnedBy r) r s) (inst : InstDesc) (hb : s.curBlock = some b) :
    lrSessionEmit s inst =
      if instType (sessionTypes s) inst = none ∧ inst.op ≠ .call then some (s, 0)
      else
        (some (instDest s r inst (instType (sessionTypes s) inst))).bind fun q =>
          (some (emitIrInstruction q.1 b r
            (normalized inst (instType (sessionTypes s) inst) q.2), ())).bind fun q' =>
            some (withState q'.1 (flagState (blockIdOf q'.1 b) (isTerminator inst.op)
              (current q'.1)), q.2) := by
  have hdest := hs.after (local_instDest inst (instType (sessionTypes s) inst))
  simp only [lrSessionEmit, hs.curFunc, hb]
  split
  · rfl
  · simp only [hdest.notResolved, hdest.notStreamed, Bool.or_self]
    rfl

theorem local_emit (inst : InstDesc) :
    LocalTo (OwnedBy r) r fun s => lrSessionEmit s inst := by
  refine (LocalTo.read (fun s => (s.curBlock, instType (sessionTypes s) inst))
    (fun p s => match p.1 with
      | none => some (s, 0)
      | some b =>
        if p.2 = none ∧ inst.op ≠ .call then some (s, 0)
        else
          (some (instDest s r inst p.2)).bind fun q =>
            (some (emitIrInstruction q.1 b r (normalized inst p.2 q.2), ())).bind fun q' =>
              some (withState q'.1 (flagState (blockIdOf q'.1 b) (isTerminator inst.op)
                (current q'.1)), q.2)) ?_ ?_).of_eq ?_
  · intro s t hst
    rw [hst.curBlock, hst.sessionTypes]
  · intro s hs
    cases hb : s.curBlock with
    | none => exact .pure 0
    | some b =>
      by_cases htype : instType (sessionTypes s) inst = none ∧ inst.op ≠ .call
      · simp only [if_pos htype]
        exact .pure 0
      · simp only [if_neg htype]
        exact local_emitInto (hs.owned.curBlock b hb) inst _
  · intro s hs
    cases hb : s.curBlock with
    | none =>
      simp only [lrSessionEmit, hs.curFunc, hb]
    | some b => exact lrSessionEmit_eq hs inst hb

theorem LocalTo.forget {op : LrSession → Option (LrSession × α)}
    (h : LocalTo own r op) : LocalTo own r fun s => ((op s).map fun q => q.1).map fun s => (s, ()) := by
  refine (h.bind fun _ => .pure ()).of_eq fun s _ => ?_
  cases op s with
  | none => rfl
  | some q => rfl

theorem local_buildStep (step : BuildStep) :
    LocalTo (OwnedBy r) r fun s => (buildStep s step).map fun s => (s, ()) := by
  cases step with
  | setBlock id => exact (local_setBlock id).forget
  | block => exact local_block.forget
  | vreg => exact local_vreg.forget
  | emit inst => exact (local_emit inst).forget
  | addPhiCopy predBlockId copy => exact (local_addPhiCopy predBlockId copy).forget

end Instructions

section Termination
variable {r : FuncRef}

/-- The tables after the block `i` with this id is entered. -/
def enterTerminated (r : FuncRef) (i id : Nat) (st : BuildState) : BuildState :=
  let st := growState (id + 1) st
  let st := if (st.blocks[id]?).join.isNone then { st with blocks := st.blocks.set id (some ⟨r, i⟩) }
    else st
  if st.blockCount ≤ id then { st with blockCount := id + 1 } else st

def hasTerminator (b : LrBlock) (st : BuildState) : Bool :=
  (st.blockSeen[b.id]?).getD false && (st.blockTerminated[b.id]?).getD false ||
    b.insts.getLast?.any fun inst => isTerminator inst.op

def markTerminated (id : Nat) (st : BuildState) : BuildState :=
  { st with
    blockSeen := st.blockSeen.set id true, blockTerminated := st.blockTerminated.set id true }

theorem terminateBlock_eq (s : LrSession) (i : Nat) : terminateBlock r s i =
    match findBlock s.modules ⟨r, i⟩ with
    | none => s
    | some b =>
      let s₁ := withState s (enterTerminated r i b.id (current s))
      let s₂ := if hasTerminator b (current s₁) then s₁
        else appendInst s₁ ⟨r, i⟩ (lrInstCreate .unreachable none 0 [])
      withState s₂ (markTerminated b.id (current s₂)) := by
  unfold terminateBlock
  cases findBlock s.modules ⟨r, i⟩ with
  | none => rfl
  | some b =>
    have henter : withState s (enterTerminated r i b.id (current s)) =
        let s := ensureBlockCapacity s (b.id + 1)
        let s := if (s.blocks[b.id]?).join.isNone then
            { s with blocks := s.blocks.set b.id (some ⟨r, i⟩) }
          else s
        if s.blockCount ≤ b.id then { s with blockCount := b.id + 1 } else s := by
      rw [ensureBlockCapacity_eq]
      unfold enterTerminated
      generalize growState (b.id + 1) (current s) = st
      simp only [withState]
      split <;> split <;> simp_all
    simp only [henter]
    rfl

theorem local_terminateBlock (i : Nat) :
    LocalTo (fun _ => True) r fun s => some (terminateBlock r s i, ()) := by
  refine (LocalTo.read (fun s => findBlock s.modules ⟨r, i⟩)
    (fun found s => match found with
      | none => some (s, ())
      | some b =>
        (some (withState s (enterTerminated r i b.id (current s)), ())).bind fun q =>
          (some (if hasTerminator b (current q.1) then q.1
            else appendInst q.1 ⟨r, i⟩ (lrInstCreate .unreachable none 0 []), ())).bind fun q =>
            some (withState q.1 (markTerminated b.id (current q.1)), ()))
    (fun s t hst => hst.findBlock rfl) ?_).of_eq ?_
  · intro s _
    cases findBlock s.modules ⟨r, i⟩ with
    | none => exact .pure ()
    | some b =>
      have happend : LocalTo (fun _ => True) r fun s =>
          some (if hasTerminator b (current s) then s
            else appendInst s ⟨r, i⟩ (lrInstCreate .unreachable none 0 []), ()) := by
        refine (LocalTo.read (fun s => hasTerminator b (current s))
          (fun ended s => some (if ended = true then s
            else appendInst s ⟨r, i⟩ (lrInstCreate .unreachable none 0 []), ()))
          (fun s t hst => by rw [hst.state]) ?_)
        intro s _
        cases hasTerminator b (current s) with
        | false => exact LocalTo.appendInst (b := ⟨r, i⟩) rfl _ ()
        | true => exact .pure ()
      exact (LocalTo.state _ (enterTerminated r i b.id) () fun _ _ => trivial).bind fun _ =>
        happend.bind fun _ => LocalTo.state _ (markTerminated b.id) () fun _ _ => trivial
  · intro s _
    rw [terminateBlock_eq]
    cases findBlock s.modules ⟨r, i⟩ with
    | none => rfl
    | some b => rfl

theorem local_terminateBlocks : ∀ places : List Nat,
    LocalTo (fun _ => True) r fun s => some (places.foldl (terminateBlock r) s, ())
  | [] => .pure ()
  | i :: rest => (local_terminateBlock i).bind fun _ => local_terminateBlocks rest

theorem local_validate :
    LocalTo (fun _ => True) r fun s => some (validateBlockTermination s) := by
  refine (LocalTo.read (fun s => findFunc s.modules r)
    (fun found s => found.elim (some (s, false)) fun f =>
      if f.blocks.isEmpty then some (s, false)
      else (some ((List.range f.blocks.length).foldl (terminateBlock r) s, ())).bind fun q =>
        some (q.1, true))
    (fun s t hst => hst.func) ?_).of_eq ?_
  · intro s _
    cases findFunc s.modules r with
    | none => exact .pure false
    | some f =>
      by_cases hempty : f.blocks.isEmpty = true
      · simp only [elim_some, if_pos hempty]
        exact .pure false
      · simp only [elim_some, if_neg hempty]
        exact (local_terminateBlocks _).bind fun _ => .pure true
  · intro s hs
    simp only [validateBlockTermination, hs.curFunc, bind_some]
    cases findFunc s.modules r with
    | none => rfl
    | some f =>
      simp only [elim_some]
      split <;> rfl

/-- A function that cannot end stays as it is. -/
theorem validate_failed (hok : (validateBlockTermination s).2 = false) :
    (validateBlockTermination s).1 = s := by
  cases hcur : s.curFunc with
  | none => simp only [validateBlockTermination, hcur]
  | some r =>
    cases hfunc : findFunc s.modules r with
    | none => simp only [validateBlockTermination, hcur, hfunc]
    | some f =>
      by_cases hempty : f.blocks.isEmpty = true
      · simp only [validateBlockTermination, hcur, hfunc, hempty, if_true]
      · simp only [validateBlockTermination, hcur, hfunc, hempty] at hok
        cases hok

end Termination

end Liric.Guarantees.SessionBuilding
