import Mathlib.Data.List.Pairwise
import Liric.Guarantees.JitLookup
import Liric.Source.Jit.Modules

/-!
# Lazy functions that are ready

A lazy function is materialised inside the materialisation of the functions that
need it. While these are being compiled their addresses are handed out, and when
one of them fails afterwards it is taken back to pending although what was bound
to it stays ready. This cannot happen as long as no function can be looked up in
the course of a materialisation that it has started itself: `NoKnot`. Then what
is ready only reaches what is ready, in every state that calls can lead to.
-/
namespace Liric.Guarantees.LazyMaterialize
open Source.Ir Source.Object Source.Jit JitLookup List

variable {a s : CStr} {new : List Patch} {host : Host} {P : Nat → Prop} {addr : Nat}
  {e' : LazyFuncEntry} {m : LrModule}

/-- The code of a name is the function that was placed last under it. -/
def blockOf (j : LrJit) (name : CStr) : Option PlacedFunc :=
  j.placed.reverse.find? fun b => b.name == name

/-- An offset of the code buffer inside a placed function. -/
def Contains (b : PlacedFunc) (offset : Nat) : Prop :=
  b.start ≤ offset ∧ offset < b.start + b.codeLen

/-- An address inside a placed function. -/
def HoldsAddr (j : LrJit) (b : PlacedFunc) (addr : Nat) : Prop :=
  j.codeBuf ≤ addr ∧ Contains b (addr - j.codeBuf)

instance (b : PlacedFunc) (offset : Nat) : Decidable (Contains b offset) :=
  inferInstanceAs (Decidable (_ ∧ _))

instance (j : LrJit) (b : PlacedFunc) (addr : Nat) : Decidable (HoldsAddr j b addr) :=
  inferInstanceAs (Decidable (_ ∧ _))

/-- The code of a lazy function that is ready. -/
def ReadyBlock (j : LrJit) (b : PlacedFunc) : Prop :=
  ∃ e ∈ j.lazyFuncs, e.state = .ready ∧ blockOf j e.name = some b

def RelocPatched (j : LrJit) (r : ObjReloc) : Prop :=
  ∃ p ∈ j.patches, p.offset = r.offset.toNat ∧ p.type = r.type

/-- What the ready functions of a state can rely on. The last part is about every
value that was ever written into the code of a ready function. -/
structure ReadyReachesPatched (j : LrJit) : Prop where
  placed : ∀ e ∈ j.lazyFuncs, e.state = .ready → ∃ b ∈ j.placed, blockOf j e.name = some b
  patched : ∀ b, ReadyBlock j b → ∀ r ∈ b.relocs, RelocPatched j r
  reaches : ∀ b, ReadyBlock j b → ∀ p ∈ j.patches, Contains b p.offset →
    ∀ c ∈ j.placed, HoldsAddr j c p.target → ReadyBlock j c

/-- The functions that the entries stand for. -/
def registered (j : LrJit) : List (LrModule × LrFunc) :=
  j.lazyFuncs.map fun e => (e.module, e.func)

section Graph
variable (env : Env) (regs : List (LrModule × LrFunc))

/-- A relocation of the code refers to the symbol; one to the function itself needs
no lookup. -/
def Needs (p : LrModule × LrFunc) (symbol : CStr) : Prop :=
  symbol ≠ p.2.name ∧
    ∃ free c, env.compile p.1 p.2 free = some c ∧ ∃ r ∈ c.relocs, r.symbolName = symbol

/-- The symbols in the relocations of the globals of a module. -/
def tableSymbols (m : LrModule) : List CStr :=
  m.globals.flatMap fun g => g.relocs.map fun r => r.symbolName

/-- The names that are looked up for the globals of a module. -/
def tableNames (m : LrModule) : List CStr :=
  (m.globals.filter fun g => !g.relocs.isEmpty).map (fun g => g.name) ++ tableSymbols m

def Calls (a b : CStr) : Prop := ∃ p ∈ regs, p.2.name = a ∧ Needs env p b

/-- The materialisation of `a` can start that of `b`: its code needs it, or once it
is ready the globals of its module do. -/
def Descends (a b : CStr) : Prop :=
  ∃ p ∈ regs, p.2.name = a ∧ (Needs env p b ∨ b ∈ tableSymbols p.1)

/-- The materialisation of `a` can keep an address found under the name `b`. -/
def Binds (a b : CStr) : Prop :=
  ∃ p ∈ regs, p.2.name = a ∧
    ((∃ s, Needs env p s ∧ (b = s ∨ b ∈ properAliases s)) ∨
      ∃ s ∈ tableNames p.1, b ∈ properAliases s)

/-- What can be materialised while `c` is being compiled. -/
def Under (c a : CStr) : Prop :=
  ∃ x, Calls env regs c x ∧ Relation.ReflTransGen (Descends env regs) x a

/-- No function is bound in the course of its own compilation: neither by its own
code under another name, nor by a function that is materialised for it. -/
structure NoKnot : Prop where
  own : ∀ p ∈ regs, ∀ s, Needs env p s → p.2.name ∉ properAliases s
  under : ∀ c a, Under env regs c a → ¬ Binds env regs a c

variable {env regs}

theorem Under.of_calls {c : CStr} (h : Calls env regs c a) : Under env regs c a :=
  ⟨a, h, .refl⟩

theorem Under.step {c b : CStr} (h : Under env regs c a) (hstep : Descends env regs a b) :
    Under env regs c b := by
  obtain ⟨x, hcalls, hpath⟩ := h
  exact ⟨x, hcalls, hpath.tail hstep⟩

theorem Calls.descends {b : CStr} (h : Calls env regs a b) : Descends env regs a b := by
  obtain ⟨p, hp, hname, hneeds⟩ := h
  exact ⟨p, hp, hname, .inl hneeds⟩

/-- Fewer functions have fewer knots. -/
theorem NoKnot.of_subset {regs' : List (LrModule × LrFunc)} (h : NoKnot env regs')
    (hsub : ∀ p ∈ regs, p ∈ regs') : NoKnot env regs where
  own := fun p hp => h.own p (hsub p hp)
  under := by
    rintro c a ⟨x, ⟨p, hp, hname, hneeds⟩, hpath⟩ ⟨q, hq, hqname, hbinds⟩
    refine h.under c a ⟨x, ⟨p, hsub p hp, hname, hneeds⟩, ?_⟩ ⟨q, hsub q hq, hqname, hbinds⟩
    refine Relation.ReflTransGen.mono (fun y z hstep => ?_) x a hpath
    obtain ⟨r, hr, hrname, hdescends⟩ := hstep
    exact ⟨r, hsub r hr, hrname, hdescends⟩

end Graph

/-- An address that stays good: outside the code buffer, or in a ready function. -/
def Safe (j : LrJit) (addr : Nat) : Prop :=
  addr < j.codeBuf ∨ j.codeBuf + j.codeCap ≤ addr ∨ ∃ b, ReadyBlock j b ∧ HoldsAddr j b addr

/-- The invariant of the JIT, also while functions are being compiled. -/
structure Inv (env : Env) (regs : List (LrModule × LrFunc)) (j : LrJit) : Prop where
  registered : registered j = regs
  names : (j.lazyFuncs.map fun e => e.name).Nodup
  own : ∀ e ∈ j.lazyFuncs, e.func.name = e.name ∧ e.name ≠ []
  fits : j.codeSize ≤ j.codeCap
  small : j.codeCap ≤ 2 ^ 32
  inside : ∀ b ∈ j.placed, b.start + b.codeLen ≤ j.codeSize
  apart : j.placed.Pairwise fun b b' => ∀ offset, Contains b offset → ¬ Contains b' offset
  patchesInside : ∀ p ∈ j.patches, p.offset < j.codeSize
  ready : ∀ e ∈ j.lazyFuncs, e.state = .ready → ∃ b ∈ j.placed, blockOf j e.name = some b
  patched : ∀ b, ReadyBlock j b → ∀ r ∈ b.relocs, RelocPatched j r
  targets : ∀ b, ReadyBlock j b → ∀ p ∈ j.patches, Contains b p.offset → Safe j p.target
  allowed : Allowed env.host j (Safe j)

theorem blockOf_mem {j : LrJit} {name : CStr} {b : PlacedFunc} (h : blockOf j name = some b) :
    b ∈ j.placed ∧ b.name = name := by
  unfold blockOf at h
  exact ⟨mem_reverse.1 (mem_of_find?_eq_some h), by simpa using find?_some h⟩

theorem ReadyBlock.mem {j : LrJit} {b : PlacedFunc} (h : ReadyBlock j b) : b ∈ j.placed := by
  obtain ⟨e, -, -, hblock⟩ := h
  exact (blockOf_mem hblock).1

/-- Placed functions do not overlap. -/
theorem Inv.block_unique {env : Env} {regs : List (LrModule × LrFunc)} {j : LrJit}
    (h : Inv env regs j) {b c : PlacedFunc} (hb : b ∈ j.placed) (hc : c ∈ j.placed) {offset : Nat}
    (hbo : Contains b offset) (hco : Contains c offset) : b = c := by
  by_contra hne
  have : Std.Symm fun b b' : PlacedFunc => ∀ offset, Contains b offset → ¬ Contains b' offset :=
    ⟨fun x y hxy o hy hx => hxy o hx hy⟩
  exact h.apart.forall hb hc hne offset hbo hco

/-- The invariant gives what the ready functions rely on. -/
theorem Inv.readyReachesPatched {env : Env} {regs : List (LrModule × LrFunc)} {j : LrJit}
    (h : Inv env regs j) : ReadyReachesPatched j where
  placed := h.ready
  patched := h.patched
  reaches := by
    intro b hb p hp hin c hc hholds
    have hend := h.inside c hc
    have hfits := h.fits
    obtain ⟨hlo, hcontains⟩ := hholds
    rcases h.targets b hb p hp hin with hbelow | habove | ⟨d, hready, -, hd⟩
    · omega
    · have := hcontains.2
      omega
    · rw [h.block_unique hc hready.mem hcontains hd]
      exact hready

/-- Whether two states agree on what is placed and what is ready. -/
theorem readyBlock_congr {j j' : LrJit} (lazyFuncs : j'.lazyFuncs = j.lazyFuncs)
    (placed : j'.placed = j.placed) (b : PlacedFunc) : ReadyBlock j' b ↔ ReadyBlock j b := by
  unfold ReadyBlock blockOf
  rw [lazyFuncs, placed]

theorem safe_congr {j j' : LrJit} (codeBuf : j'.codeBuf = j.codeBuf)
    (codeCap : j'.codeCap = j.codeCap) (lazyFuncs : j'.lazyFuncs = j.lazyFuncs)
    (placed : j'.placed = j.placed) : Safe j' = Safe j := by
  funext addr
  unfold Safe HoldsAddr
  simp only [codeBuf, codeCap, readyBlock_congr lazyFuncs placed]

/-- New patches that stay out of the ready functions, and whatever lookups do. -/
theorem Inv.of_relocated {env : Env} {regs : List (LrModule × LrFunc)} {j j' : LrJit}
    (h : Inv env regs j) (hrelocated : Relocated env.host (Safe j) j j' new)
    (hinside : ∀ p ∈ new, p.offset < j.codeSize)
    (hout : ∀ p ∈ new, ∀ b, ReadyBlock j b → ¬ Contains b p.offset) : Inv env regs j' := by
  have hsame := hrelocated.same
  have hlazy : j'.lazyFuncs = j.lazyFuncs := hsame.lazyFuncs
  have hplaced : j'.placed = j.placed := hsame.placed
  have hpatches : j'.patches = j.patches ++ new := hsame.patches
  have hsafe : Safe j' = Safe j := safe_congr hsame.codeBuf hsame.codeCap hlazy hplaced
  refine ⟨?_, ?_, ?_, ?_, ?_, ?_, ?_, ?_, ?_, ?_, ?_, ?_⟩
  · rw [← h.registered]
    unfold LazyMaterialize.registered
    rw [hlazy]
  · rw [hlazy]
    exact h.names
  · rw [hlazy]
    exact h.own
  · rw [hsame.codeSize, hsame.codeCap]
    exact h.fits
  · rw [hsame.codeCap]
    exact h.small
  · rw [hplaced, hsame.codeSize]
    exact h.inside
  · rw [hplaced]
    exact h.apart
  · rw [hpatches, hsame.codeSize]
    intro p hp
    rcases mem_append.1 hp with hp | hp
    · exact h.patchesInside p hp
    · exact hinside p hp
  · unfold blockOf
    rw [hlazy, hplaced]
    exact h.ready
  · intro b hb r hr
    obtain ⟨p, hp, hspec⟩ := h.patched b ((readyBlock_congr hlazy hplaced b).1 hb) r hr
    exact ⟨p, by rw [hpatches]; exact mem_append_left _ hp, hspec⟩
  · intro b hb p hp hin
    have hready := (readyBlock_congr hlazy hplaced b).1 hb
    rw [hsafe]
    rw [hpatches] at hp
    rcases mem_append.1 hp with hp | hp
    · exact h.targets b hready p hp hin
    · exact absurd hin (hout p hp b hready)
  · rw [hsafe]
    exact hrelocated.allowed

theorem Inv.of_lookup {env : Env} {regs : List (LrModule × LrFunc)} {j j' : LrJit}
    (h : Inv env regs j) (hstate : LookupState env.host (Safe j) j j') : Inv env regs j' :=
  h.of_relocated (.of_lookup hstate) (by simp) (by simp)

def pendingCount (j : LrJit) : Nat := j.lazyFuncs.countP fun e => e.state == .pending

/-- What a call leaves as it is: the code below `floor`, and the functions with a
`fixed` name that are ready or being compiled. -/
structure Grows (fixed : CStr → Prop) (floor : Nat) (j j' : LrJit) : Prop where
  codeBuf : j'.codeBuf = j.codeBuf
  codeCap : j'.codeCap = j.codeCap
  codeSize : j.codeSize ≤ j'.codeSize
  patches : ∃ new, j'.patches = j.patches ++ new ∧ ∀ p ∈ new, floor ≤ p.offset
  ready : ∀ e ∈ j.lazyFuncs, fixed e.name → e.state = .ready → e ∈ j'.lazyFuncs
  compiling : ∀ e : LazyFuncEntry, fixed e.name → e.state = .compiling →
    (e ∈ j'.lazyFuncs ↔ e ∈ j.lazyFuncs)
  blocks : ∀ e ∈ j.lazyFuncs, fixed e.name → e.state ≠ .pending →
    blockOf j' e.name = blockOf j e.name

/-- A call that leaves all functions as they are and makes none pending. -/
structure Keeps (floor : Nat) (j j' : LrJit) : Prop where
  grows : Grows (fun _ => True) floor j j'
  pending : pendingCount j' ≤ pendingCount j

section Grows
variable {fixed : CStr → Prop} {floor floor' : Nat} {j j' j'' : LrJit}

theorem Grows.refl (fixed : CStr → Prop) (floor : Nat) (j : LrJit) : Grows fixed floor j j where
  codeBuf := rfl
  codeCap := rfl
  codeSize := le_rfl
  patches := ⟨[], by simp, by simp⟩
  ready := fun _ he _ _ => he
  compiling := fun _ _ _ => Iff.rfl
  blocks := fun _ _ _ _ => rfl

theorem Grows.trans (h : Grows fixed floor j j') (h' : Grows fixed floor' j' j'')
    (hfloor : floor ≤ floor') : Grows fixed floor j j'' where
  codeBuf := h'.codeBuf.trans h.codeBuf
  codeCap := h'.codeCap.trans h.codeCap
  codeSize := h.codeSize.trans h'.codeSize
  patches := by
    obtain ⟨new, hnew, hbound⟩ := h.patches
    obtain ⟨new', hnew', hbound'⟩ := h'.patches
    refine ⟨new ++ new', by rw [hnew', hnew, append_assoc], fun p hp => ?_⟩
    rcases mem_append.1 hp with hp | hp
    · exact hbound p hp
    · exact hfloor.trans (hbound' p hp)
  ready := fun e he hfixed hstate => h'.ready e (h.ready e he hfixed hstate) hfixed hstate
  compiling := fun e hfixed hstate =>
    (h'.compiling e hfixed hstate).trans (h.compiling e hfixed hstate)
  blocks := by
    intro e he hfixed hstate
    have he' : e ∈ j'.lazyFuncs := by
      cases hs : e.state with
      | pending => exact absurd hs hstate
      | compiling => exact (h.compiling e hfixed hs).2 he
      | ready => exact h.ready e he hfixed hs
    rw [h'.blocks e he' hfixed hstate, h.blocks e he hfixed hstate]

theorem Grows.mono (h : Grows fixed floor j j') {fixed' : CStr → Prop}
    (hfixed : ∀ name, fixed' name → fixed name) : Grows fixed' floor j j' :=
  { h with
    ready := fun e he hname => h.ready e he (hfixed _ hname)
    compiling := fun e hname => h.compiling e (hfixed _ hname)
    blocks := fun e he hname => h.blocks e he (hfixed _ hname) }

/-- The entries and the placed functions are the same, patches are above `floor`. -/
theorem Grows.of_relocated (h : Relocated host P j j' new) (hfloor : ∀ p ∈ new, floor ≤ p.offset) :
    Grows fixed floor j j' where
  codeBuf := h.same.codeBuf
  codeCap := h.same.codeCap
  codeSize := h.same.codeSize.ge
  patches := ⟨new, h.same.patches, hfloor⟩
  ready := by
    rw [h.same.lazyFuncs]
    exact fun e he _ _ => he
  compiling := by
    rw [h.same.lazyFuncs]
    exact fun e _ _ => Iff.rfl
  blocks := by
    unfold blockOf
    rw [h.same.placed]
    exact fun e _ _ _ => rfl

theorem Grows.safe (h : Grows (fun _ => True) floor j j') (hsafe : Safe j addr) :
    Safe j' addr := by
  unfold Safe HoldsAddr at *
  rw [h.codeBuf, h.codeCap]
  rcases hsafe with hbelow | habove | ⟨b, ⟨e, he, hstate, hblock⟩, hholds⟩
  · exact .inl hbelow
  · exact .inr (.inl habove)
  · refine .inr (.inr ⟨b, ⟨e, h.ready e he trivial hstate, hstate, ?_⟩, hholds⟩)
    rw [h.blocks e he trivial (by simp [hstate])]
    exact hblock

theorem Keeps.refl (floor : Nat) (j : LrJit) : Keeps floor j j := ⟨.refl _ _ j, le_rfl⟩

theorem Keeps.trans (h : Keeps floor j j') (h' : Keeps floor' j' j'') (hfloor : floor ≤ floor') :
    Keeps floor j j'' :=
  ⟨h.grows.trans h'.grows hfloor, h'.pending.trans h.pending⟩

theorem Keeps.of_relocated (h : Relocated host P j j' new) (hfloor : ∀ p ∈ new, floor ≤ p.offset) :
    Keeps floor j j' where
  grows := .of_relocated h hfloor
  pending := by
    unfold pendingCount
    rw [h.same.lazyFuncs]

theorem Keeps.of_lookup (h : LookupState host P j j') :
    Keeps floor j j' := .of_relocated (.of_lookup h) (by simp)

end Grows

/-- A change of an entry that concerns its state only. -/
structure StateChange (change : LazyFuncEntry → LazyFuncEntry) : Prop where
  name : ∀ e, (change e).name = e.name
  module : ∀ e, (change e).module = e.module
  func : ∀ e, (change e).func = e.func

section Update
variable {env : Env} {regs : List (LrModule × LrFunc)} {j : LrJit} {name : CStr}
  {change : LazyFuncEntry → LazyFuncEntry}

theorem mem_updateLazyEntry :
    e' ∈ (updateLazyEntry j name change).lazyFuncs ↔
      ∃ e ∈ j.lazyFuncs, e' = if e.name = name then change e else e := by
  simp only [updateLazyEntry, mem_map, beq_iff_eq, eq_comm (a := e')]

/-- An entry with another name stays. -/
theorem mem_updateLazyEntry_of_ne (hchange : StateChange change) {e : LazyFuncEntry}
    (hne : e.name ≠ name) : e ∈ (updateLazyEntry j name change).lazyFuncs ↔ e ∈ j.lazyFuncs := by
  rw [mem_updateLazyEntry]
  constructor
  · rintro ⟨e', he', rfl⟩
    split at hne
    · next heq => exact absurd ((hchange.name e').trans heq) hne
    · next hother => rwa [if_neg hother]
  · intro he
    exact ⟨e, he, by rw [if_neg hne]⟩

theorem grows_update (hchange : StateChange change) (floor : Nat) :
    Grows (· ≠ name) floor j (updateLazyEntry j name change) where
  codeBuf := rfl
  codeCap := rfl
  codeSize := le_rfl
  patches := ⟨[], by simp [updateLazyEntry], by simp⟩
  ready := fun _ he hne _ => (mem_updateLazyEntry_of_ne hchange hne).2 he
  compiling := fun _ hne _ => mem_updateLazyEntry_of_ne hchange hne
  blocks := fun _ _ _ _ => rfl

theorem registered_update (hchange : StateChange change) :
    registered (updateLazyEntry j name change) = registered j := by
  unfold registered updateLazyEntry
  rw [map_map]
  refine map_congr_left fun e _ => ?_
  change ((if e.name == name then change e else e).module, _) = _
  split
  · next heq => simp only [heq, if_true, hchange.module, hchange.func]
  · next hne => simp only [hne, Bool.false_eq_true, if_false]

theorem names_update (hchange : StateChange change) :
    ((updateLazyEntry j name change).lazyFuncs.map fun e => e.name) =
      j.lazyFuncs.map fun e => e.name := by
  unfold updateLazyEntry
  rw [map_map]
  refine map_congr_left fun e _ => ?_
  simp only [Function.comp]
  split
  · exact hchange.name e
  · rfl

/-- The functions that were ready stay so, and one that becomes ready brings what
the invariant asks of it. -/
theorem Inv.update (h : Inv env regs j) (hchange : StateChange change)
    (hkeep : ∀ b, ReadyBlock j b → ReadyBlock (updateLazyEntry j name change) b)
    (hready : ∀ e ∈ (updateLazyEntry j name change).lazyFuncs, e.state = .ready →
      e ∈ j.lazyFuncs ∨ ∃ b ∈ j.placed, blockOf j e.name = some b ∧
        (∀ r ∈ b.relocs, RelocPatched j r) ∧
        ∀ p ∈ j.patches, Contains b p.offset → Safe (updateLazyEntry j name change) p.target) :
    Inv env regs (updateLazyEntry j name change) := by
  have hsafe : ∀ a, Safe j a → Safe (updateLazyEntry j name change) a := by
    rintro a (hbelow | habove | ⟨b, hb, hholds⟩)
    · exact .inl hbelow
    · exact .inr (.inl habove)
    · exact .inr (.inr ⟨b, hkeep b hb, hholds⟩)
  refine ⟨?_, ?_, ?_, h.fits, h.small, h.inside, h.apart, h.patchesInside, ?_, ?_, ?_, ?_⟩
  · rw [registered_update hchange]
    exact h.registered
  · rw [names_update hchange]
    exact h.names
  · intro e he
    obtain ⟨e', he', rfl⟩ := mem_updateLazyEntry.1 he
    split
    · rw [hchange.func, hchange.name]
      exact h.own e' he'
    · exact h.own e' he'
  · intro e he hstate
    rcases hready e he hstate with hold | ⟨b, hmem, hblock, -⟩
    · exact h.ready e hold hstate
    · exact ⟨b, hmem, hblock⟩
  · rintro b ⟨e, he, hstate, hblock⟩
    rcases hready e he hstate with hold | ⟨b', -, hblock', hpatched, -⟩
    · exact h.patched b ⟨e, hold, hstate, hblock⟩
    · cases (show some b' = some b from hblock'.symm.trans hblock)
      exact hpatched
  · rintro b ⟨e, he, hstate, hblock⟩ p hp hin
    rcases hready e he hstate with hold | ⟨b', -, hblock', -, htargets⟩
    · exact hsafe _ (h.targets b ⟨e, hold, hstate, hblock⟩ p hp hin)
    · cases (show some b' = some b from hblock'.symm.trans hblock)
      exact htargets p hp hin
  · exact h.allowed.mono hsafe rfl rfl rfl

/-- A change between states that are not ready. -/
theorem Inv.update_unready (h : Inv env regs j) (hchange : StateChange change)
    (hbefore : ∀ e ∈ j.lazyFuncs, e.name = name → e.state ≠ .ready)
    (hafter : ∀ e, (change e).state ≠ .ready) : Inv env regs (updateLazyEntry j name change) := by
  refine h.update hchange ?_ ?_
  · rintro b ⟨e, he, hstate, hblock⟩
    have hne : e.name ≠ name := fun heq => hbefore e he heq hstate
    exact ⟨e, (mem_updateLazyEntry_of_ne hchange hne).2 he, hstate, hblock⟩
  · intro e he hstate
    obtain ⟨e', he', rfl⟩ := mem_updateLazyEntry.1 he
    split at hstate
    · exact absurd hstate (hafter e')
    · next hother =>
      rw [if_neg hother]
      exact .inl he'

/-- The other entries are counted as before. -/
theorem pendingCount_update (change : LazyFuncEntry → LazyFuncEntry)
    (hnames : (j.lazyFuncs.map fun e => e.name).Nodup)
    {e : LazyFuncEntry} (he : e ∈ j.lazyFuncs) (hname : e.name = name) :
    pendingCount (updateLazyEntry j name change) + (if e.state = .pending then 1 else 0) =
      pendingCount j + if (change e).state = .pending then 1 else 0 := by
  unfold pendingCount updateLazyEntry
  simp only
  generalize j.lazyFuncs = entries at hnames he
  induction entries with
  | nil => simp at he
  | cons head rest ih =>
    rw [map_cons, nodup_cons] at hnames
    rw [map_cons, countP_cons, countP_cons]
    rcases mem_cons.1 he with rfl | he
    · have hrest : rest.map (fun e => if e.name == name then change e else e) = rest := by
        refine (map_congr_left fun e' he' => ?_).trans (map_id _)
        have hne : e'.name ≠ name := by
          intro heq
          exact hnames.1 (mem_map.2 ⟨e', he', heq.trans hname.symm⟩)
        simp [hne]
      rw [hrest]
      simp only [hname, beq_self_eq_true, if_true, beq_iff_eq]
      omega
    · have hne : head.name ≠ name := by
        intro heq
        exact hnames.1 (mem_map.2 ⟨e, he, hname.trans heq.symm⟩)
      have hrest := ih hnames.2 he
      simp only [beq_iff_eq, hne, if_false] at hrest ⊢
      omega

/-- Two entries with one name are one. -/
theorem Inv.entry_unique (h : Inv env regs j) {e : LazyFuncEntry} (he : e ∈ j.lazyFuncs)
    (he' : e' ∈ j.lazyFuncs) (hname : e.name = e'.name) : e = e' :=
  inj_on_of_nodup_map h.names he he' hname

end Update

theorem ensureUndefined (oc : ObjfileCtx) (name : CStr) :
    (lrObjEnsureSymbol id oc name false 0 0).1.relocs = oc.relocs ∧
      ((lrObjEnsureSymbol id oc name false 0 0).1.symbols = oc.symbols ∨
        ∃ sym, (lrObjEnsureSymbol id oc name false 0 0).1.symbols = oc.symbols ++ [sym] ∧
          sym.name = name ∧ sym.isDefined = false ∧ ∀ sym' ∈ oc.symbols, sym'.name ≠ name) := by
  unfold lrObjEnsureSymbol
  simp only [id]
  cases hfind : oc.symbols.findIdx? fun sym => sym.name == name with
  | some i =>
    refine ⟨rfl, .inl ?_⟩
    have hsame : defineSymbol false 0 0 = id := by
      funext sym
      simp [defineSymbol]
    simp only [hsame]
    exact modify_id i oc.symbols
  | none =>
    refine ⟨rfl, .inr ⟨_, rfl, rfl, rfl, fun sym' hmem => ?_⟩⟩
    simpa using findIdx?_eq_none_iff.1 hfind sym' hmem

/-- The relocations bring their symbols into the context. -/
theorem appendRelocs_spec (base : Nat) (relocs : List CachedReloc) : ∀ ctx : ObjfileCtx,
    (∃ new, (appendRelocs ctx base relocs).relocs = ctx.relocs ++ new ∧
      ∀ rel ∈ new, ∃ r ∈ relocs, rel.offset = BitVec.ofNat 32 (base + r.offset)) ∧
    ∀ sym ∈ (appendRelocs ctx base relocs).symbols, sym ∈ ctx.symbols ∨
      (sym.isDefined = false ∧ (∃ r ∈ relocs, r.symbolName = sym.name) ∧
        ∀ sym' ∈ ctx.symbols, sym'.name ≠ sym.name) := by
  induction relocs with
  | nil => exact fun ctx => ⟨⟨[], by simp [appendRelocs], by simp⟩, fun sym hsym => .inl hsym⟩
  | cons r rest ih =>
    intro ctx
    have hensure := ensureUndefined ctx r.symbolName
    have hcons : appendRelocs ctx base (r :: rest) =
        appendRelocs (lrObjAddReloc (lrObjEnsureSymbol id ctx r.symbolName false 0 0).1
          (BitVec.ofNat 32 (base + r.offset))
          (lrObjEnsureSymbol id ctx r.symbolName false 0 0).2 r.type) base rest := rfl
    rw [hcons]
    generalize hmid : lrObjAddReloc (lrObjEnsureSymbol id ctx r.symbolName false 0 0).1
      (BitVec.ofNat 32 (base + r.offset))
      (lrObjEnsureSymbol id ctx r.symbolName false 0 0).2 r.type = mid
    obtain ⟨⟨new, hnew, hoffsets⟩, hsymbols⟩ := ih mid
    have hrelocs : mid.relocs = ctx.relocs ++ [⟨BitVec.ofNat 32 (base + r.offset),
        BitVec.ofNat 32 (lrObjEnsureSymbol id ctx r.symbolName false 0 0).2, r.type⟩] := by
      rw [← hmid, ← hensure.1]
      rfl
    have hmidSymbols : mid.symbols = (lrObjEnsureSymbol id ctx r.symbolName false 0 0).1.symbols := by
      rw [← hmid]
      rfl
    refine ⟨⟨_, by rw [hnew, hrelocs, append_assoc], ?_⟩, ?_⟩
    · intro rel hrel
      rcases mem_append.1 hrel with hrel | hrel
      · rw [mem_singleton.1 hrel]
        exact ⟨r, by simp, rfl⟩
      · obtain ⟨r', hr', heq⟩ := hoffsets rel hrel
        exact ⟨r', by simp [hr'], heq⟩
    · intro sym hsym
      rw [hmidSymbols] at hsymbols
      rcases hensure.2 with hold | ⟨added, happ, hname, hundefined, hfresh⟩
      · rw [hold] at hsymbols
        rcases hsymbols sym hsym with hmem | ⟨hdef, ⟨r', hr', hsame⟩, hother⟩
        · exact .inl hmem
        · exact .inr ⟨hdef, ⟨r', by simp [hr'], hsame⟩, hother⟩
      · rw [happ] at hsymbols
        rcases hsymbols sym hsym with hmem | ⟨hdef, ⟨r', hr', hsame⟩, hother⟩
        · rcases mem_append.1 hmem with hmem | hmem
          · exact .inl hmem
          · rw [mem_singleton.1 hmem]
            exact .inr ⟨hundefined, ⟨r, by simp, hname.symm⟩, fun sym' h => by
              rw [hname]
              exact hfresh sym' h⟩
        · exact .inr ⟨hdef, ⟨r', by simp [hr'], hsame⟩, fun sym' h =>
            hother sym' (mem_append_left _ h)⟩

/-- The code generators put relocations into the code they emit. -/
def RelocsInCode (env : Env) : Prop :=
  ∀ m f free c, env.compile m f free = some c → ∀ r ∈ c.relocs, r.offset < c.codeLen

/-- The context and the block of a function that was just placed. -/
structure PlacedContext (env : Env) (m : LrModule) (f : LrFunc) (j : LrJit) (ctx : ObjfileCtx)
    (b : PlacedFunc) : Prop where
  name : b.name = f.name
  start : b.start = j.codeSize
  fits : b.start + b.codeLen ≤ j.codeCap
  relocs : b.relocs = ctx.relocs
  inside : j.codeCap ≤ 2 ^ 32 → ∀ rel ∈ ctx.relocs, Contains b rel.offset.toNat
  symbols : ∀ sym ∈ ctx.symbols,
    (ownSymbol sym = true ∧ sym.name = f.name ∧ sym.offset = BitVec.ofNat 32 b.start) ∨
      (ownSymbol sym = false ∧ (sym.name = f.name → f.name = []) ∧
        ∃ free c, env.compile m f free = some c ∧ ∃ r ∈ c.relocs, r.symbolName = sym.name)

/-- The state after a function was placed. -/
def place (j : LrJit) (b : PlacedFunc) : LrJit :=
  { j with codeSize := j.codeSize + b.codeLen, placed := j.placed ++ [b] }

theorem compileOneFunction_spec {env : Env} (hrelocs : RelocsInCode env) {j j' : LrJit} {f : LrFunc}
    {ctx : ObjfileCtx} (hfits : j.codeSize ≤ j.codeCap)
    (h : compileOneFunction env j m f ⟨[], [], []⟩ = some (j', ctx, addr)) :
    ∃ b, j' = place j b ∧ PlacedContext env m f j ctx b ∧ addr = j.codeBuf + b.start := by
  unfold compileOneFunction at h
  simp only at h
  split at h
  · cases h
  · next c hcompile =>
    obtain ⟨hroom, h⟩ := Option.ite_none_left_eq_some.1 h
    generalize hctx₀ : (if f.name = [] then (⟨[], [], []⟩ : ObjfileCtx) else
      (lrObjEnsureSymbol id ⟨[], [], []⟩ f.name true 1 (BitVec.ofNat 32 j.codeSize)).1) = ctx₀ at h
    have hrelocs₀ : ctx₀.relocs = [] := by
      rw [← hctx₀]
      split <;> rfl
    have hsymbols₀ : ∀ sym ∈ ctx₀.symbols, sym.name = f.name ∧ ownSymbol sym = true ∧
        sym.offset = BitVec.ofNat 32 j.codeSize := by
      intro sym hsym
      rw [← hctx₀] at hsym
      split at hsym
      · cases hsym
      · simp only [lrObjEnsureSymbol, findIdx?_nil, nil_append, mem_singleton]
          at hsym
        rw [hsym]
        exact ⟨rfl, rfl, rfl⟩
    obtain ⟨⟨new, hnew, hoffsets⟩, hsymbols⟩ := appendRelocs_spec j.codeSize c.relocs ctx₀
    rw [hrelocs₀, nil_append] at hnew
    cases h
    refine ⟨⟨f.name, j.codeSize, c.codeLen, (appendRelocs ctx₀ j.codeSize c.relocs).relocs⟩,
      ?_, ⟨rfl, rfl, ?_, rfl, ?_, ?_⟩, rfl⟩
    · simp [place, hrelocs₀]
    · change j.codeSize + c.codeLen ≤ j.codeCap
      omega
    · intro hsmall rel hrel
      rw [hnew] at hrel
      obtain ⟨r, hr, hoffset⟩ := hoffsets rel hrel
      have hlt := hrelocs m f _ c hcompile r hr
      have htoNat : rel.offset.toNat = j.codeSize + r.offset := by
        rw [hoffset, BitVec.toNat_ofNat]
        exact Nat.mod_eq_of_lt (by omega)
      rw [htoNat]
      exact ⟨Nat.le_add_right _ _, Nat.add_lt_add_left hlt _⟩
    · intro sym hsym
      rcases hsymbols sym hsym with hold | ⟨hundefined, hreloc, hother⟩
      · obtain ⟨hname, hown, hoffset⟩ := hsymbols₀ sym hold
        exact .inl ⟨hown, hname, hoffset⟩
      · refine .inr ⟨by simp [ownSymbol, hundefined], ?_, _, c, hcompile, hreloc⟩
        intro hname
        by_contra hne
        -- the function's own symbol is already in the context
        obtain ⟨own, hmem, hownName⟩ : ∃ own ∈ ctx₀.symbols, own.name = f.name := by
          rw [← hctx₀, if_neg hne]
          exact ⟨_, mem_singleton.2 rfl, rfl⟩
        exact hother own hmem (hownName.trans hname.symm)

theorem blockOf_place (j : LrJit) (b : PlacedFunc) (name : CStr) :
    blockOf (place j b) name = if b.name = name then some b else blockOf j name := by
  simp only [blockOf, place, reverse_append, reverse_singleton, singleton_append, find?_cons]
  by_cases hname : b.name = name
  · simp [hname]
  · have hbeq : (b.name == name) = false := by simpa using hname
    simp [hname, hbeq]

theorem grows_place (j : LrJit) (b : PlacedFunc) (floor : Nat) :
    Grows (· ≠ b.name) floor j (place j b) where
  codeBuf := rfl
  codeCap := rfl
  codeSize := Nat.le_add_right _ _
  patches := ⟨[], by simp [place], by simp⟩
  ready := fun _ he _ _ => he
  compiling := fun _ _ _ => Iff.rfl
  blocks := by
    intro e _ hne _
    rw [blockOf_place, if_neg (Ne.symm hne)]

/-- Code is added behind everything that is there, under a name that is not ready. -/
theorem Inv.place {env : Env} {regs : List (LrModule × LrFunc)} {j : LrJit} {b : PlacedFunc}
    (h : Inv env regs j) (hstart : b.start = j.codeSize) (hfits : b.start + b.codeLen ≤ j.codeCap)
    (hname : ∀ e ∈ j.lazyFuncs, e.name = b.name → e.state ≠ .ready) :
    Inv env regs (place j b) := by
  have hblock : ∀ e ∈ j.lazyFuncs, e.state = .ready →
      blockOf (LazyMaterialize.place j b) e.name = blockOf j e.name := by
    intro e he hstate
    rw [blockOf_place, if_neg fun heq => hname e he heq.symm hstate]
  have hready : ∀ b', ReadyBlock (LazyMaterialize.place j b) b' ↔ ReadyBlock j b' := by
    intro b'
    constructor
    · rintro ⟨e, he, hstate, hb'⟩
      exact ⟨e, he, hstate, (hblock e he hstate).symm.trans hb'⟩
    · rintro ⟨e, he, hstate, hb'⟩
      exact ⟨e, he, hstate, (hblock e he hstate).trans hb'⟩
  have hsafe : Safe (LazyMaterialize.place j b) = Safe j := by
    funext a
    unfold Safe HoldsAddr
    simp only [hready]
    rfl
  refine ⟨h.registered, h.names, h.own, ?_, h.small, ?_, ?_, ?_, ?_, ?_, ?_, ?_⟩
  · change j.codeSize + b.codeLen ≤ j.codeCap
    omega
  · intro b' hb'
    change b'.start + b'.codeLen ≤ j.codeSize + b.codeLen
    rcases mem_append.1 hb' with hb' | hb'
    · exact (h.inside b' hb').trans (Nat.le_add_right _ _)
    · rw [mem_singleton.1 hb', hstart]
  · refine pairwise_append.2 ⟨h.apart, pairwise_singleton _ _, ?_⟩
    intro b₁ hb₁ b₂ hb₂ offset hin hin'
    have hend := h.inside b₁ hb₁
    rw [mem_singleton.1 hb₂] at hin'
    obtain ⟨-, hlt⟩ := hin
    obtain ⟨hle, -⟩ := hin'
    omega
  · intro p hp
    exact (h.patchesInside p hp).trans_le (Nat.le_add_right _ _)
  · intro e he hstate
    obtain ⟨b', hmem, hb'⟩ := h.ready e he hstate
    exact ⟨b', mem_append_left _ hmem, (hblock e he hstate).trans hb'⟩
  · exact fun b' hb' => h.patched b' ((hready b').1 hb')
  · intro b' hb' p hp hin
    rw [hsafe]
    exact h.targets b' ((hready b').1 hb') p hp hin
  · rw [hsafe]
    exact h.allowed.mono (fun _ => id) rfl rfl rfl

/-- What a call of `materialize_lazy_function` does when fewer than `n` functions are
pending. The functions in compilation are those it is called for. -/
def MatSpec (env : Env) (regs : List (LrModule × LrFunc)) (n : Nat)
    (materialize : LrJit → CStr → Option (LrJit × Bool)) : Prop :=
  ∀ j name, Inv env regs j → pendingCount j < n →
    (∀ c ∈ j.lazyFuncs, c.state = .compiling → Under env regs c.name name) →
    ∃ j' ok, materialize j name = some (j', ok) ∧ Inv env regs j' ∧ Keeps j.codeSize j j' ∧
      (ok = true → ∀ e ∈ j.lazyFuncs, e.name = name → e.state = .pending →
        pendingCount j' < pendingCount j)

variable {floor : Nat}

section Materialize
variable {env : Env} {regs : List (LrModule × LrFunc)} {n : Nat}
  {materialize : LrJit → CStr → Option (LrJit × Bool)}

/-- The functions in compilation allow the globals of `m` to be looked up: they may
be found under their own names only. -/
def TablesAllowed (env : Env) (regs : List (LrModule × LrFunc)) (m : LrModule) (j : LrJit) : Prop :=
  ∀ c ∈ j.lazyFuncs, c.state = .compiling →
    (∀ s ∈ tableSymbols m, Under env regs c.name s) ∧ ∀ s ∈ tableNames m, c.name ∉ properAliases s

theorem TablesAllowed.of_keeps {j j' : LrJit} (h : TablesAllowed env regs m j)
    (hkeeps : Keeps floor j j') :
    TablesAllowed env regs m j' := fun c hc hstate =>
  h c ((hkeeps.grows.compiling c trivial hstate).1 hc) hstate

theorem TablesAllowed.aliases {j : LrJit} (h : TablesAllowed env regs m j) (hs : s ∈ tableNames m)
    (P : Nat → Prop) : AliasesAllowed j P s := by
  rintro aliasName hmem a ⟨c, hc, hname, hstate, -⟩
  rw [← hname] at hmem
  exact absurd hmem ((h c hc hstate).2 s hs)

/-- A lookup by the name of a global. -/
theorem lookup_keeps {j : LrJit} (h : Inv env regs j) (halias : AliasesAllowed j (Safe j) s) :
    Inv env regs (lookupSymbolHashed env.host j s).1 ∧
      Keeps j.codeSize j (lookupSymbolHashed env.host j s).1 := by
  obtain ⟨hstate, -⟩ := lookupSymbolHashed_spec h.allowed s halias
  exact ⟨h.of_lookup hstate, .of_lookup hstate⟩

theorem findLazyFuncEntry_keeps {j : LrJit} (h : Inv env regs j) (s : CStr) :
    Inv env regs (findLazyFuncEntry j s).1 ∧ Keeps j.codeSize j (findLazyFuncEntry j s).1 := by
  have hstate : LookupState env.host (Safe j) j (findLazyFuncEntry j s).1 :=
    ⟨(findLazyFuncEntry_state j s).1, findLazyFuncEntry_allowed h.allowed s⟩
  exact ⟨h.of_lookup hstate, .of_lookup hstate⟩

theorem lookupSymbolMaterializingLazy_spec (hmat : MatSpec env regs n materialize) {j : LrJit}
    (h : Inv env regs j) (hcount : pendingCount j < n) (htables : TablesAllowed env regs m j)
    (hs : s ∈ tableSymbols m) :
    ∃ j' addr, lookupSymbolMaterializingLazy env materialize j s = some (j', addr) ∧
      Inv env regs j' ∧ Keeps j.codeSize j j' := by
  have hname : s ∈ tableNames m := mem_append_right _ hs
  obtain ⟨hfound, hkeeps⟩ := findLazyFuncEntry_keeps h s
  have htables' := htables.of_keeps hkeeps
  obtain ⟨hlooked, hlookKeeps⟩ := lookup_keeps hfound (htables'.aliases hname _)
  unfold lookupSymbolMaterializingLazy
  split
  · exact ⟨j, 0, rfl, h, .refl _ j⟩
  · simp only
    split
    · exact ⟨_, _, rfl, hlooked, hkeeps.trans hlookKeeps hkeeps.grows.codeSize⟩
    · split
      · exact ⟨_, _, rfl, hfound, hkeeps⟩
      · exact ⟨_, _, rfl, hlooked, hkeeps.trans hlookKeeps hkeeps.grows.codeSize⟩
      · obtain ⟨j₁, ok, hrun, hinv, hkeeps₁, -⟩ := hmat _ s hfound
          (hkeeps.pending.trans_lt hcount) (fun c hc hstate => (htables' c hc hstate).1 s hs)
        have hkeeps' := hkeeps.trans hkeeps₁ hkeeps.grows.codeSize
        obtain ⟨hlast, hlastKeeps⟩ := lookup_keeps hinv ((htables.of_keeps hkeeps').aliases hname _)
        rw [hrun]
        cases ok with
        | true =>
          exact ⟨_, _, rfl, hlast, hkeeps'.trans hlastKeeps hkeeps'.grows.codeSize⟩
        | false => exact ⟨_, _, rfl, hinv, hkeeps'⟩

/-- The words written for globals are not part of the invariant. -/
theorem inv_globalWrites {j : LrJit} (h : Inv env regs j) (writes : List (Nat × BitVec 64))
    (places : List DataWrite) :
    Inv env regs { j with globalWrites := writes, dataWrites := places } :=
  ⟨h.registered, h.names, h.own, h.fits, h.small, h.inside, h.apart, h.patchesInside, h.ready,
    h.patched, h.targets, h.allowed.mono (fun _ => id) rfl rfl rfl⟩

theorem keeps_globalWrites (floor : Nat) (j : LrJit) (writes : List (Nat × BitVec 64))
    (places : List DataWrite) :
    Keeps floor j { j with globalWrites := writes, dataWrites := places } :=
  ⟨⟨rfl, rfl, le_rfl, ⟨[], by simp, by simp⟩, fun _ he _ _ => he, fun _ _ _ => Iff.rfl,
    fun _ _ _ _ => rfl⟩, le_rfl⟩

theorem applyGlobalRelocs_spec (hmat : MatSpec env regs n materialize) {g : LrGlobal} (base : Nat)
    (relocs : List LrReloc) : ∀ {j : LrJit} (_ : Inv env regs j)
      (_ : pendingCount j < n) (_ : TablesAllowed env regs m j)
      (_ : ∀ r ∈ relocs, r.symbolName ∈ tableSymbols m),
    ∃ j', applyGlobalRelocs env materialize g base j relocs = some j' ∧
      Inv env regs j' ∧ Keeps j.codeSize j j' := by
  induction relocs with
  | nil => exact fun {j} h _ _ _ => ⟨j, rfl, h, .refl _ j⟩
  | cons r rest ih =>
    intro j h hcount htables hsymbols
    obtain ⟨j₁, target, hrun, hinv, hkeeps⟩ := lookupSymbolMaterializingLazy_spec hmat h hcount
      htables (hsymbols r (by simp))
    unfold applyGlobalRelocs
    rw [hrun]
    simp only [Option.bind_eq_bind, Option.bind_some]
    split
    · have hkeeps' := hkeeps.trans (keeps_globalWrites j₁.codeSize j₁
        (j₁.globalWrites ++ [((base + r.offset) % 2 ^ 64, BitVec.ofNat 64 target + r.addend)])
        (j₁.dataWrites ++ [⟨g.name, (base + r.offset) % 2 ^ 64, 8⟩]))
        hkeeps.grows.codeSize
      obtain ⟨j', hrest, hinv', hkeepsRest⟩ := ih (inv_globalWrites hinv _ _)
        (hkeeps'.pending.trans_lt hcount) (htables.of_keeps hkeeps')
        (fun r' hr' => hsymbols r' (by simp [hr']))
      exact ⟨j', hrest, hinv', hkeeps'.trans hkeepsRest hkeeps.grows.codeSize⟩
    · obtain ⟨j', hrest, hinv', hkeepsRest⟩ := ih hinv (hkeeps.pending.trans_lt hcount)
        (htables.of_keeps hkeeps) (fun r' hr' => hsymbols r' (by simp [hr']))
      exact ⟨j', hrest, hinv', hkeeps.trans hkeepsRest hkeeps.grows.codeSize⟩

theorem applyModuleGlobalRelocs_spec (hmat : MatSpec env regs n materialize)
    (globals : List LrGlobal) : ∀ {j : LrJit} (_ : Inv env regs j) (_ : pendingCount j < n)
      (_ : TablesAllowed env regs m j) (_ : ∀ g ∈ globals, g ∈ m.globals),
    ∃ j', applyModuleGlobalRelocs env materialize j globals = some j' ∧
      Inv env regs j' ∧ Keeps j.codeSize j j' := by
  induction globals with
  | nil => exact fun {j} h _ _ _ => ⟨j, rfl, h, .refl _ j⟩
  | cons g rest ih =>
    intro j h hcount htables hglobals
    have hg : g ∈ m.globals := hglobals g (by simp)
    have hrest : ∀ g' ∈ rest, g' ∈ m.globals := fun g' hg' => hglobals g' (by simp [hg'])
    unfold applyModuleGlobalRelocs
    split
    · exact ih h hcount htables hrest
    · next hrelocs =>
      have hname : g.name ∈ tableNames m := mem_append_left _
        (mem_map.2 ⟨g, mem_filter.2 ⟨hg, by simpa using hrelocs⟩, rfl⟩)
      obtain ⟨hinv, hkeeps⟩ : Inv env regs (lookupSymbol env.host j g.name).1 ∧
          Keeps j.codeSize j (lookupSymbol env.host j g.name).1 :=
        lookup_keeps h (htables.aliases hname _)
      simp only
      by_cases hbase : (lookupSymbol env.host j g.name).2 = 0
      · rw [if_pos hbase]
        obtain ⟨j', hrun, hinv', hkeeps'⟩ := ih hinv (hkeeps.pending.trans_lt hcount)
          (htables.of_keeps hkeeps) hrest
        exact ⟨j', hrun, hinv', hkeeps.trans hkeeps' hkeeps.grows.codeSize⟩
      · rw [if_neg hbase]
        obtain ⟨j₁, hrun₁, hinv₁, hkeeps₁⟩ := applyGlobalRelocs_spec hmat
          (g := g) (lookupSymbol env.host j g.name).2 g.relocs hinv
          (hkeeps.pending.trans_lt hcount) (htables.of_keeps hkeeps)
          (fun r hr => mem_flatMap.2 ⟨g, hg, mem_map.2 ⟨r, hr, rfl⟩⟩)
        have hkeeps' := hkeeps.trans hkeeps₁ hkeeps.grows.codeSize
        obtain ⟨j', hrun, hinv', hkeepsRest⟩ := ih hinv₁ (hkeeps'.pending.trans_lt hcount)
          (htables.of_keeps hkeeps') hrest
        rw [hrun₁]
        exact ⟨j', hrun, hinv', hkeeps'.trans hkeepsRest hkeeps'.grows.codeSize⟩

end Materialize

/-- What is known of the context of a function whatever happens meanwhile. -/
structure CompiledContext (env : Env) (p : LrModule × LrFunc) (ctx : ObjfileCtx)
    (b : PlacedFunc) : Prop where
  name : b.name = p.2.name
  nonempty : 0 < b.codeLen
  relocs : b.relocs = ctx.relocs
  inside : ∀ rel ∈ ctx.relocs, Contains b rel.offset.toNat
  symbols : ∀ sym ∈ ctx.symbols,
    (ownSymbol sym = true ∧ sym.name = p.2.name ∧ sym.offset.toNat = b.start) ∨
      (ownSymbol sym = false ∧ Needs env p sym.name)

/-- A failed compilation has changed nothing, or placed code that nobody uses. -/
theorem compileLazyFunction_spec {env : Env} (hrelocs : RelocsInCode env) {j : LrJit}
    {e : LazyFuncEntry} (hfits : j.codeSize ≤ j.codeCap) (hsmall : j.codeCap ≤ 2 ^ 32) :
    compileLazyFunction env j e = (j, none) ∨
      ∃ b r, compileLazyFunction env j e = (place j b, r) ∧ b.name = e.func.name ∧
        b.start = j.codeSize ∧ b.start + b.codeLen ≤ j.codeCap ∧
        ∀ ctx addr, r = some (ctx, addr) →
          CompiledContext env (e.module, e.func) ctx b ∧ addr = j.codeBuf + b.start := by
  unfold compileLazyFunction
  cases hcompile : compileOneFunction env j e.module e.func ⟨[], [], []⟩ with
  | none => exact .inl rfl
  | some r =>
    obtain ⟨j', ctx, addr⟩ := r
    obtain ⟨b, rfl, hctx, haddr⟩ := compileOneFunction_spec hrelocs hfits hcompile
    refine .inr ⟨b, ?_⟩
    simp only
    split
    · exact ⟨none, rfl, hctx.name, hctx.start, hctx.fits, by simp⟩
    · next hgrown =>
      have hpos : 0 < b.codeLen := by
        by_contra hzero
        exact hgrown (by simp only [place]; omega)
      split
      · exact ⟨none, rfl, hctx.name, hctx.start, hctx.fits, by simp⟩
      · next hnamed =>
        refine ⟨_, rfl, hctx.name, hctx.start, hctx.fits, ?_⟩
        intro ctx' addr' heq
        cases heq
        refine ⟨⟨hctx.name, hpos, hctx.relocs, hctx.inside hsmall, fun sym hsym => ?_⟩, haddr⟩
        rcases hctx.symbols sym hsym with ⟨hown, hname, hoffset⟩ | ⟨hown, hname, hreloc⟩
        · have hfitsCtx := hctx.fits
          refine .inl ⟨hown, hname, ?_⟩
          rw [hoffset, BitVec.toNat_ofNat]
          exact Nat.mod_eq_of_lt (by omega)
        · refine .inr ⟨hown, ?_, hreloc⟩
          intro heq
          -- a symbol with an empty name was refused
          have hall : ∀ sym ∈ ctx.symbols, sym.name ≠ [] := by simpa using hnamed
          exact hall sym hsym (heq.trans (hname heq))

/-- The code of `p` is being linked: what was patched so far is either good for ever
or inside the function itself. -/
structure Linking (env : Env) (regs : List (LrModule × LrFunc)) (p : LrModule × LrFunc)
    (b : PlacedFunc) (j : LrJit) : Prop where
  inv : Inv env regs j
  block : blockOf j p.2.name = some b
  entry : ∃ e ∈ j.lazyFuncs, e.name = p.2.name ∧ e.state = .compiling
  targets : ∀ q ∈ j.patches, Contains b q.offset → Safe j q.target ∨ HoldsAddr j b q.target
  under : ∀ c ∈ j.lazyFuncs, c.state = .compiling →
    c.name = p.2.name ∨ Under env regs c.name p.2.name

section Link
variable {env : Env} {regs : List (LrModule × LrFunc)} {p : LrModule × LrFunc} {b : PlacedFunc}
  {ctx : ObjfileCtx} {j : LrJit}

theorem holdsAddr_congr {j' : LrJit} (codeBuf : j'.codeBuf = j.codeBuf) :
    HoldsAddr j' b addr ↔ HoldsAddr j b addr := by
  unfold HoldsAddr
  rw [codeBuf]

/-- A function that is being compiled is not the ready one that an offset lies in. -/
theorem Linking.not_ready (h : Linking env regs p b j) : ¬ ReadyBlock j b := by
  rintro ⟨e, he, hstate, hblock⟩
  obtain ⟨e', he', hname', hstate'⟩ := h.entry
  have hname : e.name = p.2.name := ((blockOf_mem hblock).2.symm.trans (blockOf_mem h.block).2)
  rw [h.inv.entry_unique he he' (hname.trans hname'.symm), hstate'] at hstate
  cases hstate

/-- Calls that only touch code behind the function leave it as it is. -/
theorem Linking.of_keeps (h : Linking env regs p b j) {j' : LrJit}
    (hinv : Inv env regs j') (hkeeps : Keeps floor j j') (hfloor : b.start + b.codeLen ≤ floor) :
    Linking env regs p b j' := by
  have hgrows := hkeeps.grows
  obtain ⟨e, he, hname, hstate⟩ := h.entry
  refine ⟨hinv, ?_, ⟨e, (hgrows.compiling e trivial hstate).2 he, hname, hstate⟩, ?_, ?_⟩
  · rw [← hname, hgrows.blocks e he trivial (by simp [hstate]), hname]
    exact h.block
  · obtain ⟨new, hnew, hbound⟩ := hgrows.patches
    intro q hq hin
    rw [hnew] at hq
    rcases mem_append.1 hq with hq | hq
    · rcases h.targets q hq hin with hsafe | hown
      · exact .inl (hgrows.safe hsafe)
      · exact .inr ((holdsAddr_congr hgrows.codeBuf).2 hown)
    · have habove := hbound q hq
      have hbelow := hin.2
      omega
  · exact fun c hc hcs => h.under c ((hgrows.compiling c trivial hcs).1 hc) hcs

variable (hknot : NoKnot env regs) (hp : p ∈ regs)
include hknot hp

/-- Lookups for the function find nothing that is still being compiled. -/
theorem Linking.lookups (h : Linking env regs p b j) {symbol : CStr} (hneeds : Needs env p symbol) :
    (∀ a, ¬ CompilingAddr j symbol a) ∧ AliasesAllowed j (Safe j) symbol := by
  have hbinds : ∀ c ∈ j.lazyFuncs, c.state = .compiling →
      c.name = symbol ∨ c.name ∈ properAliases symbol → False := by
    intro c hc hstate hfound
    rcases h.under c hc hstate with hself | hunder
    · rcases hfound with hsame | halias
      · exact hneeds.1 (hsame.symm.trans hself)
      · rw [hself] at halias
        exact hknot.own p hp symbol hneeds halias
    · exact hknot.under c.name p.2.name hunder ⟨p, hp, rfl, .inl ⟨symbol, hneeds, hfound⟩⟩
  constructor
  · rintro a ⟨c, hc, hname, hstate, -⟩
    exact hbinds c hc hstate (.inl hname)
  · rintro aliasName halias a ⟨c, hc, hname, hstate, -⟩
    rw [← hname] at halias
    exact (hbinds c hc hstate (.inr halias)).elim

/-- One run over the relocations of the function. -/
theorem Linking.applyJitRelocs (hctx : CompiledContext env p ctx b) (h : Linking env regs p b j) :
    ∃ j' r, applyJitRelocs env.host j ctx 0 = (j', r) ∧ Linking env regs p b j' ∧
      Keeps b.start j j' ∧ (r = none → ∀ rel ∈ ctx.relocs, RelocPatched j' rel) ∧
      ∀ s, r = some (.missing s) → s = p.2.name ∨ Needs env p s := by
  have hmissing : ∀ sym ∈ ctx.symbols, ownSymbol sym = false → Needs env p sym.name := by
    intro sym hsym hown
    rcases hctx.symbols sym hsym with ⟨hown', -⟩ | ⟨-, hneeds⟩
    · rw [hown] at hown'
      cases hown'
    · exact hneeds
  obtain ⟨j', r, new, hrun, hrelocated, hnew, hall, hblame⟩ :=
    applyJitRelocs_spec h.inv.allowed ctx fun sym hsym hown =>
      (h.lookups hknot hp (hmissing sym hsym hown)).2
  have hoffset : ∀ q ∈ new, Contains b q.offset := by
    intro q hq
    obtain ⟨rel, hrel, hoff, -⟩ := hnew q hq
    rw [hoff]
    exact hctx.inside rel hrel
  have hbmem := (blockOf_mem h.block).1
  have hend := h.inv.inside b hbmem
  have hkeeps : Keeps b.start j j' := .of_relocated hrelocated fun q hq => (hoffset q hq).1
  have hinv : Inv env regs j' := by
    refine h.inv.of_relocated hrelocated ?_ ?_
    · intro q hq
      have := (hoffset q hq).2
      omega
    · intro q hq b' hb' hin
      have heq := h.inv.block_unique hb'.mem hbmem hin (hoffset q hq)
      rw [heq] at hb'
      exact h.not_ready hb'
  have hsafe : Safe j' = Safe j := safe_congr hrelocated.same.codeBuf hrelocated.same.codeCap
    hrelocated.same.lazyFuncs hrelocated.same.placed
  refine ⟨j', r, hrun, ⟨hinv, ?_, ?_, ?_, ?_⟩, hkeeps, ?_, ?_⟩
  · unfold blockOf
    rw [hrelocated.same.placed]
    exact h.block
  · rw [hrelocated.same.lazyFuncs]
    exact h.entry
  · intro q hq hin
    rw [hsafe, holdsAddr_congr hrelocated.same.codeBuf]
    rw [hrelocated.patches] at hq
    rcases mem_append.1 hq with hq | hq
    · exact h.targets q hq hin
    · obtain ⟨rel, -, -, -, -, hne, sym, hsym, htarget⟩ := hnew q hq
      have hmem := mem_of_getElem? hsym
      rcases htarget with ⟨hown, haddr⟩ | ⟨hown, hzero | hP | hcompiling⟩
      · rcases hctx.symbols sym hmem with ⟨-, -, hstart⟩ | ⟨hother, -⟩
        · refine .inr ⟨by rw [haddr]; exact Nat.le_add_right _ _, ?_⟩
          · rw [haddr, hstart, Nat.add_sub_cancel_left]
            exact ⟨le_rfl, Nat.lt_add_of_pos_right hctx.nonempty⟩
        · rw [hown] at hother
          cases hother
      · exact absurd hzero hne
      · exact .inl hP
      · exact absurd hcompiling ((h.lookups hknot hp (hmissing sym hmem hown)).1 _)
  · rw [hrelocated.same.lazyFuncs]
    exact h.under
  · intro hr rel hrel
    obtain ⟨q, hq, hoff, htype, -⟩ := hall hr rel hrel
    exact ⟨q, by rw [hrelocated.patches]; exact mem_append_right _ hq, hoff, htype⟩
  · intro s hs
    obtain ⟨sym, hsym, rfl⟩ := hblame s hs
    rcases hctx.symbols sym hsym with ⟨-, hname, -⟩ | ⟨-, hneeds⟩
    · exact .inl hname
    · exact .inr hneeds

/-- The loop over the relocations and the functions they miss. Each of its turns but
the last makes a pending function ready. -/
theorem Linking.materializeDependencies (hctx : CompiledContext env p ctx b) {n : Nat}
    {materialize : LrJit → CStr → Option (LrJit × Bool)}
    (hmat : MatSpec env regs n materialize) (turns : Nat) :
    ∀ {j : LrJit} (_ : Linking env regs p b j) (_ : pendingCount j < turns)
      (_ : pendingCount j < n),
    ∃ j' ok, materializeDependencies env materialize ctx turns j = some (j', ok) ∧
      Linking env regs p b j' ∧ Keeps b.start j j' ∧
      (ok = true → ∀ rel ∈ ctx.relocs, RelocPatched j' rel) := by
  induction turns with
  | zero => exact fun _ hturns => absurd hturns (Nat.not_lt_zero _)
  | succ turns ih =>
    intro j h hturns hcount
    obtain ⟨j₁, r, hrun, hlink, hkeeps, hpatched, hblame⟩ := h.applyJitRelocs hknot hp hctx
    unfold Source.Jit.materializeDependencies
    rw [hrun]
    cases r with
    | none => exact ⟨j₁, true, rfl, hlink, hkeeps, fun _ => hpatched rfl⟩
    | some failure =>
      cases failure with
      | hard => exact ⟨j₁, false, rfl, hlink, hkeeps, by simp⟩
      | missing symbol =>
        obtain ⟨hinv₂, hkeeps₂⟩ := findLazyFuncEntry_keeps hlink.inv symbol
        have hend := hlink.inv.inside b (blockOf_mem hlink.block).1
        have hlink₂ := hlink.of_keeps hinv₂ hkeeps₂ hend
        have hkeeps' := hkeeps.trans hkeeps₂ (by omega)
        simp only
        split
        · exact ⟨_, false, rfl, hlink₂, hkeeps', by simp⟩
        · next d hd =>
          obtain ⟨hmem, hname⟩ := findLazyFuncEntry_some hd
          have hmem₂ : d ∈ (findLazyFuncEntry j₁ symbol).1.lazyFuncs := by
            rw [(findLazyFuncEntry_state j₁ symbol).1.lazyFuncs]
            exact hmem
          split
          · exact ⟨_, false, rfl, hlink₂, hkeeps', by simp⟩
          · exact ⟨_, false, rfl, hlink₂, hkeeps', by simp⟩
          · next hpending =>
            have hneeds : Needs env p symbol := by
              rcases hblame symbol rfl with hself | hneeds
              · -- the function itself is being compiled, not pending
                obtain ⟨e, he, hename, hestate⟩ := hlink₂.entry
                have heq := hinv₂.entry_unique hmem₂ he
                  (hname.trans (hself.trans hename.symm))
                rw [heq, hestate] at hpending
                cases hpending
              · exact hneeds
            have hcalls : Calls env regs p.2.name symbol := ⟨p, hp, rfl, hneeds⟩
            obtain ⟨j₃, ok, hrun₃, hinv₃, hkeeps₃, hless⟩ := hmat _ symbol hinv₂
              (hkeeps'.pending.trans_lt hcount) (fun c hc hstate => by
                rcases hlink₂.under c hc hstate with hself | hunder
                · rw [hself]
                  exact .of_calls hcalls
                · exact hunder.step hcalls.descends)
            have hend₂ := hinv₂.inside b (blockOf_mem hlink₂.block).1
            have hlink₃ := hlink₂.of_keeps hinv₃ hkeeps₃ hend₂
            have hkeeps'' := hkeeps'.trans hkeeps₃ (by omega)
            rw [hrun₃]
            cases ok with
            | false => exact ⟨j₃, false, rfl, hlink₃, hkeeps'', by simp⟩
            | true =>
              have hfewer := hless rfl d hmem₂ hname hpending
              have hbefore := hkeeps'.pending
              obtain ⟨j', ok, hrest, hlink', hkeepsRest, hpatched'⟩ :=
                ih hlink₃ (by omega) (by omega)
              exact ⟨j', ok, hrest, hlink', hkeeps''.trans hkeepsRest le_rfl, hpatched'⟩

end Link

variable {change : LazyFuncEntry → LazyFuncEntry}

theorem stateChange_of_same
    (h : ∀ e, ∃ addr state, change e = { e with pendingAddr := addr, state := state }) :
    StateChange change := by
  constructor <;>
    · intro e
      obtain ⟨addr, state, heq⟩ := h e
      rw [heq]

/-- The entries of a name after a change of that name. -/
theorem eq_change_of_mem {j : LrJit} {name : CStr}
    (he' : e' ∈ (updateLazyEntry j name change).lazyFuncs) (hname : e'.name = name) :
    ∃ e ∈ j.lazyFuncs, e.name = name ∧ e' = change e := by
  obtain ⟨e, he, rfl⟩ := mem_updateLazyEntry.1 he'
  by_cases heq : e.name = name
  · exact ⟨e, he, heq, by rw [if_pos heq]⟩
  · rw [if_neg heq] at hname
    exact absurd hname heq

/-- Nothing but a pending entry has changed, and it is not in compilation. -/
theorem Grows.all {name : CStr} {j j' : LrJit} (h : Grows (· ≠ name) floor j j')
    (hbefore : ∀ e ∈ j.lazyFuncs, e.name = name → e.state = .pending)
    (hafter : ∀ e ∈ j'.lazyFuncs, e.name = name → e.state ≠ .compiling) :
    Grows (fun _ => True) floor j j' where
  codeBuf := h.codeBuf
  codeCap := h.codeCap
  codeSize := h.codeSize
  patches := h.patches
  ready := by
    intro e he _ hstate
    refine h.ready e he (fun hname => ?_) hstate
    rw [hbefore e he hname] at hstate
    cases hstate
  compiling := by
    intro e _ hstate
    by_cases hname : e.name = name
    · constructor
      · exact fun he => absurd hstate (hafter e he hname)
      · intro he
        rw [hbefore e he hname] at hstate
        cases hstate
    · exact h.compiling e hname hstate
  blocks := by
    intro e he _ hstate
    exact h.blocks e he (fun hname => hstate (hbefore e he hname)) hstate

/-- Symbols and entries are different parts of the state. -/
theorem lrJitAddSymbol_update (host : Host) (j : LrJit) (name : CStr) (addr : Nat)
    (entry : CStr) (change : LazyFuncEntry → LazyFuncEntry) :
    updateLazyEntry (lrJitAddSymbol host j name addr) entry change =
      lrJitAddSymbol host (updateLazyEntry j entry change) name addr := by
  unfold lrJitAddSymbol
  have hfind : findSymbolEntry (updateLazyEntry j entry change) name = findSymbolEntry j name := rfl
  rw [hfind]
  by_cases hname : name = []
  · simp [hname]
  · simp only [hname, if_false]
    cases findSymbolEntry j name with
    | none => rfl
    | some existing =>
      simp only
      split <;> rfl

section Function
variable {env : Env} {regs : List (LrModule × LrFunc)} {j : LrJit} {name : CStr}
  {e : LazyFuncEntry}

/-- The entry is given up after its function was begun and perhaps placed. -/
theorem abandon_spec {j₂ : LrJit} (h : Inv env regs j₂) (hgrows : Grows (· ≠ name) floor j j₂)
    (he : e ∈ j₂.lazyFuncs) (hname : e.name = name) (hstate : e.state = .compiling)
    (hbefore : ∀ e ∈ j.lazyFuncs, e.name = name → e.state = .pending)
    (hcount : pendingCount j₂ + 1 ≤ pendingCount j) :
    Inv env regs (abandonLazyEntry j₂ name) ∧ Keeps floor j (abandonLazyEntry j₂ name) := by
  have hchange : StateChange fun e => { e with pendingAddr := 0, state := .pending } :=
    stateChange_of_same fun e => ⟨0, .pending, rfl⟩
  have honly : ∀ e' ∈ j₂.lazyFuncs, e'.name = name → e' = e := fun e' he' hname' =>
    h.entry_unique he' he (hname'.trans hname.symm)
  have hinv : Inv env regs (abandonLazyEntry j₂ name) := by
    refine h.update_unready hchange ?_ (by simp)
    intro e' he' hname'
    rw [honly e' he' hname', hstate]
    simp
  have hfull : Grows (· ≠ name) floor j (abandonLazyEntry j₂ name) :=
    hgrows.trans (grows_update hchange floor) le_rfl
  refine ⟨hinv, hfull.all hbefore ?_, ?_⟩
  · intro e' he' hname'
    obtain ⟨-, -, -, rfl⟩ := eq_change_of_mem he' hname'
    simp
  · have hupdate := pendingCount_update (fun e =>
      { e with pendingAddr := 0, state := .pending }) h.names he hname
    rw [hstate] at hupdate
    simp only [reduceCtorEq, if_false, if_true, Nat.add_zero] at hupdate
    unfold abandonLazyEntry
    omega

/-- The entry becomes ready with its code linked. -/
theorem finish_spec (hnames : NoKnot env regs) {p : LrModule × LrFunc} {b : PlacedFunc}
    {ctx : ObjfileCtx} (hp : p ∈ regs) (hctx : CompiledContext env p ctx b)
    (h : Linking env regs p b j) (hpatched : ∀ rel ∈ ctx.relocs, RelocPatched j rel) :
    ∃ j', updateLazyEntry (lrJitAddSymbol env.host j p.2.name (j.codeBuf + b.start)) p.2.name
        (fun e => { e with pendingAddr := 0, state := .ready }) = j' ∧
      Inv env regs j' ∧ (∀ floor, Grows (· ≠ p.2.name) floor j j') ∧
      pendingCount j' = pendingCount j ∧
      (∀ e ∈ j'.lazyFuncs, e.name = p.2.name → e.state = .ready) ∧
      TablesAllowed env regs p.1 j' := by
  set change : LazyFuncEntry → LazyFuncEntry :=
    fun e => { e with pendingAddr := 0, state := .ready } with hdef
  have hchange : StateChange change := stateChange_of_same fun e => ⟨0, .ready, rfl⟩
  obtain ⟨e, he, hname, hstate⟩ := h.entry
  have hready : ReadyBlock (updateLazyEntry j p.2.name change) b :=
    ⟨change e, mem_updateLazyEntry.2 ⟨e, he, by rw [if_pos hname]⟩, rfl,
      (congrArg (blockOf j) ((hchange.name e).trans hname)).trans h.block⟩
  have hkeep : ∀ b', ReadyBlock j b' → ReadyBlock (updateLazyEntry j p.2.name change) b' := by
    rintro b' ⟨e', he', hstate', hblock'⟩
    have hne : e'.name ≠ p.2.name := by
      intro heq
      rw [h.inv.entry_unique he' he (heq.trans hname.symm), hstate] at hstate'
      cases hstate'
    exact ⟨e', (mem_updateLazyEntry_of_ne hchange hne).2 he', hstate', hblock'⟩
  have hsafe : ∀ a, Safe j a → Safe (updateLazyEntry j p.2.name change) a := by
    rintro a (hbelow | habove | ⟨b', hb', hholds⟩)
    · exact .inl hbelow
    · exact .inr (.inl habove)
    · exact .inr (.inr ⟨b', hkeep b' hb', hholds⟩)
  have hinv : Inv env regs (updateLazyEntry j p.2.name change) := by
    refine h.inv.update hchange hkeep ?_
    intro e' he' hstate'
    by_cases hname' : e'.name = p.2.name
    · refine .inr ⟨b, (blockOf_mem h.block).1, by rw [hname']; exact h.block, ?_, ?_⟩
      · rw [hctx.relocs]
        exact hpatched
      · intro q hq hin
        rcases h.targets q hq hin with hgood | hown
        · exact hsafe _ hgood
        · exact .inr (.inr ⟨b, hready, hown⟩)
    · exact .inl ((mem_updateLazyEntry_of_ne hchange hname').1 he')
  have haddr : Safe (updateLazyEntry j p.2.name change) (j.codeBuf + b.start) := by
    refine .inr (.inr ⟨b, hready, Nat.le_add_right _ _, ?_⟩)
    change Contains b (j.codeBuf + b.start - j.codeBuf)
    rw [Nat.add_sub_cancel_left]
    exact ⟨le_rfl, Nat.lt_add_of_pos_right hctx.nonempty⟩
  have hlookup : LookupState env.host (Safe (updateLazyEntry j p.2.name change))
      (updateLazyEntry j p.2.name change)
      (lrJitAddSymbol env.host (updateLazyEntry j p.2.name change) p.2.name
        (j.codeBuf + b.start)) :=
    (LookupState.refl hinv.allowed).addSymbol _ haddr
  have hlazy := hlookup.same.lazyFuncs
  refine ⟨_, lrJitAddSymbol_update _ _ _ _ _ _, hinv.of_lookup hlookup, ?_, ?_, ?_, ?_⟩
  · exact fun floor => (grows_update hchange floor).trans (.of_relocated (.of_lookup hlookup)
      (by simp)) le_rfl
  · have hupdate := pendingCount_update change h.inv.names he hname
    have hcount : pendingCount (lrJitAddSymbol env.host (updateLazyEntry j p.2.name change)
        p.2.name (j.codeBuf + b.start)) = pendingCount (updateLazyEntry j p.2.name change) := by
      unfold pendingCount
      rw [hlazy]
    rw [hcount]
    rw [hstate] at hupdate
    simpa [hdef] using hupdate
  · intro e' he' hname'
    rw [hlazy] at he'
    obtain ⟨-, -, -, rfl⟩ := eq_change_of_mem he' hname'
    rfl
  · intro c hc hcompiling
    rw [hlazy] at hc
    have hne : c.name ≠ p.2.name := by
      intro heq
      obtain ⟨c', -, -, rfl⟩ := eq_change_of_mem hc heq
      simp [hdef] at hcompiling
    have hc' := (mem_updateLazyEntry_of_ne hchange hne).1 hc
    have hunder := (h.under c hc' hcompiling).resolve_left hne
    constructor
    · exact fun s hs => hunder.step ⟨p, hp, rfl, .inr hs⟩
    · exact fun s hs halias =>
        hnames.under c.name p.2.name hunder ⟨p, hp, rfl, .inr ⟨s, hs, halias⟩⟩

/-- The function has been placed and its address is exposed. -/
theorem linking_start (p : LrModule × LrFunc) {b : PlacedFunc} (addr : Nat)
    (h : Inv env regs (place j b)) (hstart : b.start = j.codeSize) (hname : b.name = p.2.name)
    (hinside : ∀ q ∈ j.patches, q.offset < j.codeSize) (he : e ∈ j.lazyFuncs)
    (hentry : e.name = p.2.name) (hstate : e.state = .compiling)
    (hunder : ∀ c ∈ j.lazyFuncs, c.state = .compiling →
      c.name = p.2.name ∨ Under env regs c.name p.2.name) :
    Linking env regs p b
      (updateLazyEntry (place j b) p.2.name fun e => { e with pendingAddr := addr }) ∧
      pendingCount (updateLazyEntry (place j b) p.2.name fun e => { e with pendingAddr := addr }) =
        pendingCount j := by
  set change : LazyFuncEntry → LazyFuncEntry := fun e => { e with pendingAddr := addr } with hdef
  have hchange : StateChange change := stateChange_of_same fun e => ⟨addr, e.state, rfl⟩
  have hsame : ∀ e', e' ∈ j.lazyFuncs → e'.name = p.2.name → e'.state = .compiling := by
    intro e' he' hname'
    rw [h.entry_unique (show e' ∈ (place j b).lazyFuncs from he') he (hname'.trans hentry.symm)]
    exact hstate
  have hold : ∀ e' ∈ (updateLazyEntry (place j b) p.2.name change).lazyFuncs,
      ∃ e ∈ j.lazyFuncs, e'.name = e.name ∧ e'.state = e.state := by
    intro e' he'
    obtain ⟨e₀, he₀, rfl⟩ := mem_updateLazyEntry.1 he'
    refine ⟨e₀, he₀, ?_, ?_⟩ <;> split <;> rfl
  have hinv : Inv env regs (updateLazyEntry (place j b) p.2.name change) := by
    refine h.update hchange ?_ ?_
    · rintro b' ⟨e', he', hstate', hblock'⟩
      have hne : e'.name ≠ p.2.name := by
        intro heq
        rw [hsame e' he' heq] at hstate'
        cases hstate'
      exact ⟨e', (mem_updateLazyEntry_of_ne hchange hne).2 he', hstate', hblock'⟩
    · intro e' he' hstate'
      by_cases hname' : e'.name = p.2.name
      · obtain ⟨e₀, he₀, hname₀, hstate₀⟩ := hold e' he'
        rw [hstate₀, hsame e₀ he₀ (hname₀.symm.trans hname')] at hstate'
        cases hstate'
      · exact .inl ((mem_updateLazyEntry_of_ne hchange hname').1 he')
  refine ⟨⟨hinv, ?_, ?_, ?_, ?_⟩, ?_⟩
  · exact (blockOf_place j b p.2.name).trans (if_pos hname)
  · exact ⟨change e, mem_updateLazyEntry.2 ⟨e, he, by rw [if_pos hentry]⟩, hentry, hstate⟩
  · intro q hq hin
    have hlt := hinside q hq
    have hle := hin.1
    omega
  · intro c hc hcompiling
    obtain ⟨e₀, he₀, hname₀, hstate₀⟩ := hold c hc
    rw [hname₀]
    exact hunder e₀ he₀ (hstate₀.symm.trans hcompiling)
  · have hupdate := pendingCount_update change h.names
      (show e ∈ (place j b).lazyFuncs from he) hentry
    rw [hstate] at hupdate
    have hplaceCount : pendingCount (place j b) = pendingCount j := rfl
    simpa [hdef, hstate, hplaceCount] using hupdate

/-- `materialize_lazy_function` keeps the invariant, whatever fails on the way, and
ends if it may recurse as often as functions are pending. -/
theorem materializeLazyFunction_spec (hrelocs : RelocsInCode env) (hknot : NoKnot env regs)
    (n : Nat) : MatSpec env regs n (materializeLazyFunction env n) := by
  induction n with
  | zero => exact fun _ _ _ hcount => absurd hcount (Nat.not_lt_zero _)
  | succ n ih =>
    intro j name h hcount hunder
    unfold materializeLazyFunction
    cases hfind : j.lazyFuncs.find? fun e => e.name == name with
    | none => exact ⟨j, false, rfl, h, .refl _ j, by simp⟩
    | some e =>
      have he : e ∈ j.lazyFuncs := mem_of_find?_eq_some hfind
      have hname : e.name = name := by simpa using find?_some hfind
      have honly : ∀ e' ∈ j.lazyFuncs, e'.name = name → e' = e := fun e' he' hname' =>
        h.entry_unique he' he (hname'.trans hname.symm)
      simp only
      split
      · next hready =>
        refine ⟨j, true, rfl, h, .refl _ j, fun _ e' he' hname' hpending => ?_⟩
        rw [honly e' he' hname', hready] at hpending
        cases hpending
      · next hcompiling =>
        refine ⟨j, true, rfl, h, .refl _ j, fun _ e' he' hname' hpending => ?_⟩
        rw [honly e' he' hname', hcompiling] at hpending
        cases hpending
      · next hpending =>
        have hbefore : ∀ e' ∈ j.lazyFuncs, e'.name = name → e'.state = .pending := by
          intro e' he' hname'
          rw [honly e' he' hname']
          exact hpending
        have hfunc : e.func.name = name := (h.own e he).1.trans hname
        have hp : (e.module, e.func) ∈ regs := by
          rw [← h.registered]
          exact mem_map.2 ⟨e, he, rfl⟩
        -- the entry is in compilation
        have hbeginChange : StateChange fun e : LazyFuncEntry =>
            { e with pendingAddr := 0, state := .compiling } :=
          stateChange_of_same fun e => ⟨0, .compiling, rfl⟩
        have hbegin : Inv env regs (beginLazyEntry j name) := by
          refine h.update_unready hbeginChange ?_ (by simp)
          intro e' he' hname'
          rw [hbefore e' he' hname']
          simp
        have hbeginGrows : Grows (· ≠ name) j.codeSize j (beginLazyEntry j name) :=
          grows_update hbeginChange _
        have hbeginCount : pendingCount (beginLazyEntry j name) + 1 = pendingCount j := by
          have hupdate := pendingCount_update (fun e =>
            { e with pendingAddr := 0, state := .compiling }) h.names he hname
          rw [hpending] at hupdate
          simpa [beginLazyEntry] using hupdate
        have hbeginMem : ({ e with pendingAddr := 0, state := .compiling } : LazyFuncEntry) ∈
            (beginLazyEntry j name).lazyFuncs :=
          mem_updateLazyEntry.2 ⟨e, he, by rw [if_pos hname]⟩
        rcases compileLazyFunction_spec hrelocs (e := e) hbegin.fits hbegin.small with
          hfail | ⟨b, r, hcompile, hbname, hbstart, hbfits, hctx⟩
        · rw [hfail]
          obtain ⟨hinv, hkeeps⟩ := abandon_spec hbegin hbeginGrows hbeginMem hname rfl hbefore
            hbeginCount.le
          exact ⟨_, false, rfl, hinv, hkeeps, by simp⟩
        · have hbname' : b.name = name := hbname.trans hfunc
          have hplace : Inv env regs (place (beginLazyEntry j name) b) := by
            refine hbegin.place hbstart hbfits ?_
            intro e' he' hname'
            obtain ⟨-, -, -, rfl⟩ := eq_change_of_mem he' (hname'.trans hbname')
            simp
          have hplaceGrows : Grows (· ≠ name) j.codeSize j (place (beginLazyEntry j name) b) := by
            refine hbeginGrows.trans ?_ le_rfl
            rw [← hbname']
            exact grows_place _ b _
          rw [hcompile]
          cases r with
          | none =>
            obtain ⟨hinv, hkeeps⟩ := abandon_spec hplace hplaceGrows hbeginMem hname rfl hbefore
              hbeginCount.le
            exact ⟨_, false, rfl, hinv, hkeeps, by simp⟩
          | some r =>
            obtain ⟨ctx, addr⟩ := r
            obtain ⟨hcontext, haddr⟩ := hctx ctx addr rfl
            have hcompiling : ∀ c ∈ (beginLazyEntry j name).lazyFuncs, c.state = .compiling →
                c.name = name ∨ Under env regs c.name name := by
              intro c hc hstate
              by_cases hself : c.name = name
              · exact .inl hself
              · exact .inr (hunder c ((mem_updateLazyEntry_of_ne hbeginChange hself).1 hc) hstate)
            obtain ⟨hlink, hlinkCount⟩ := linking_start (e.module, e.func) addr
              hplace hbstart hbname hbegin.patchesInside hbeginMem (hname.trans hfunc.symm)
              rfl
              (by rw [hfunc]; exact hcompiling)
            simp only [hfunc] at hlink hlinkCount
            obtain ⟨j₄, ok, hrun, hlink₄, hkeeps₄, hpatched⟩ :=
              hlink.materializeDependencies hknot hp hcontext ih (n + 1) (by omega) (by omega)
            simp only
            rw [hrun]
            have hsetGrows : Grows (· ≠ name) j.codeSize j j₄ := by
              have hset := hplaceGrows.trans (grows_update (stateChange_of_same fun e =>
                ⟨addr, e.state, rfl⟩ : StateChange fun e => { e with pendingAddr := addr })
                j.codeSize) le_rfl
              exact hset.trans (hkeeps₄.grows.mono fun _ _ => trivial) hbstart.ge
            have hcount₄ := hkeeps₄.pending
            cases ok with
            | false =>
              obtain ⟨e₄, he₄, hname₄, hstate₄⟩ := hlink₄.entry
              obtain ⟨hinv, hkeeps⟩ := abandon_spec hlink₄.inv hsetGrows he₄
                (hname₄.trans hfunc) hstate₄ hbefore (by omega)
              exact ⟨_, false, rfl, hinv, hkeeps, by simp⟩
            | true =>
              obtain ⟨j₅, hfinish, hinv₅, hgrows₅, hcount₅, hready₅, htables₅⟩ :=
                finish_spec hknot hp hcontext hlink₄ (hpatched rfl)
              simp only [hfunc] at hfinish hgrows₅ hready₅ htables₅
              have hbuf : j₄.codeBuf = j.codeBuf := hsetGrows.codeBuf
              have haddr₄ : addr = j₄.codeBuf + b.start := by
                rw [haddr, hbuf]
                rfl
              obtain ⟨j', htable, hinv', hkeeps'⟩ := applyModuleGlobalRelocs_spec ih
                e.module.globals hinv₅ (by omega) htables₅ (fun g hg => hg)
              have hgrows := hsetGrows.trans (hgrows₅ j.codeSize) le_rfl
              have hfull : Grows (fun _ => True) j.codeSize j j₅ := by
                refine hgrows.all hbefore ?_
                intro e' he' hname'
                rw [hready₅ e' he' hname']
                simp
              have hafter := hkeeps'.pending
              refine ⟨j', true, ?_, hinv', ⟨hfull.trans hkeeps'.grows hfull.codeSize, by omega⟩,
                fun _ _ _ _ _ => by omega⟩
              simp only [Option.bind_eq_bind, Option.bind_some, if_true]
              rw [haddr₄, hfinish, htable]
              rfl

end Function

end Liric.Guarantees.LazyMaterialize
