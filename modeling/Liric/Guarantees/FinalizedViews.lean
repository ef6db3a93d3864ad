import Liric.Source.Ir.Finalize

/-!
# Finalized views are coherent

The arrays over the blocks of a function are complete whenever the function counts as finalized:
block creation and appending take the offsets and the linear view away together, the passes
change lists only, and a call that cannot allocate an array leaves the function unfinalized.
-/
namespace Liric.Guarantees.FinalizedViews
open List Option
open Source.Ir (LrInst lrInstCreate lrOpBlock lrOpImmI64)
open Source.Ir.Finalize

def Block.addrs (b : Block) : List Nat := b.insts.map InstNode.addr

/-- The array of a block lists its instructions; a null pointer is the empty array. -/
structure Listed (b : Block) : Prop where
  entries : b.instArray.getD [] = Block.addrs b
  count : b.numInsts = b.insts.length

/-- The number of instructions before the block at a place. -/
def offsetOf (blocks : List Block) (place : Nat) : Nat :=
  ((blocks.take place).map fun b => b.insts.length).sum

/-- All views but the block array. -/
structure Views (f : Func) : Prop where
  listed : ∀ b ∈ f.blocks, Listed b
  offsets : 0 < f.numBlocks → f.blockInstOffsets =
    some ((range (f.numBlocks + 1)).map (offsetOf f.blocks))
  linear : f.linearInstArray.getD [] = f.blocks.flatMap Block.addrs
  total : f.numLinearInsts = (f.blocks.flatMap Block.addrs).length

/-- Ids are places, and the views are there together or not at all. -/
structure Inv (f : Func) : Prop where
  ids : f.blocks.map Block.id = range f.numBlocks
  blockArray : f.blockArray = none ∨ f.blockArray = some ((range f.numBlocks).map some)
  needsArray : f.blockInstOffsets ≠ none → f.blockArray ≠ none
  needsOffsets : f.linearInstArray ≠ none → f.blockInstOffsets ≠ none
  views : f.blockInstOffsets ≠ none → f.linearInstArray ≠ none ∨ f.numLinearInsts = 0 → Views f
  empty : f.numBlocks = 0 → f.linearInstArray = none ∧ f.numLinearInsts = 0

/-- At most the blocks have changed, and they have the ids they had. -/
structure Rewritten (f f' : Func) : Prop where
  rest : f' = { f with blocks := f'.blocks }
  ids : f'.blocks.map Block.id = f.blocks.map Block.id

theorem Rewritten.refl (f : Func) : Rewritten f f := ⟨rfl, rfl⟩

theorem Rewritten.trans {f f' f'' : Func} (h : Rewritten f f') (h' : Rewritten f' f'') :
    Rewritten f f'' := by
  refine ⟨?_, h'.ids.trans h.ids⟩
  rw [h'.rest, h.rest]

variable {b : Block}

theorem rewritten_set {f : Func} {place : Nat} {b' : Block} (hb : f.blocks[place]? = some b)
    (hid : b'.id = b.id) : Rewritten f { f with blocks := f.blocks.set place b' } := by
  refine ⟨rfl, ?_⟩
  have hplace : (f.blocks.map Block.id)[place]? = some b.id := by
    rw [getElem?_map, hb]
    rfl
  rw [map_set, hid]
  apply ext_getElem?
  intro i
  rw [getElem?_set]
  by_cases hi : place = i
  · subst hi
    obtain ⟨hlt, -⟩ := List.getElem?_eq_some_iff.1 hplace
    rw [if_pos rfl, if_pos hlt, hplace]
  · rw [if_neg hi]

theorem forBlock_rewritten {S : Type} (step : S → List InstNode → S × List InstNode)
    (st : S × Func) (bi : Nat) : Rewritten st.2 (forBlock step st bi).2 := by
  obtain ⟨s, f⟩ := st
  rw [forBlock]
  dsimp only
  cases f.blockAt bi with
  | none => exact .refl f
  | some place =>
    dsimp only
    cases hb : f.blocks[place]? with
    | none => exact .refl f
    | some b => exact rewritten_set hb rfl

theorem forBlocks_rewritten {S : Type} (step : S → List InstNode → S × List InstNode) (f : Func)
    (s : S) : Rewritten f (forBlocks step f s).2 := by
  have hfold : ∀ (bis : List Nat) (st : S × Func),
      Rewritten st.2 (bis.foldl (forBlock step) st).2 := by
    intro bis
    induction bis with
    | nil => exact fun st => .refl st.2
    | cons bi bis ih => exact fun st => (forBlock_rewritten step st bi).trans (ih _)
  exact hfold _ (s, f)

theorem simplifyLoop_rewritten (iters : Nat) (st : PassState) (f : Func) :
    Rewritten f (simplifyLoop iters st f).2 := by
  induction iters generalizing st f with
  | zero => exact .refl f
  | succ iters ih =>
    rw [simplifyLoop]
    have hround := forBlocks_rewritten simplifyBlock f { st with iterChanged := false }
    generalize forBlocks simplifyBlock f { st with iterChanged := false } = out at hround ⊢
    obtain ⟨st', f'⟩ := out
    dsimp only at hround ⊢
    by_cases hchanged : st'.iterChanged = true
    · rw [if_pos hchanged]
      exact hround.trans (ih st' f')
    · rw [if_neg hchanged]
      exact hround

theorem deadLoop_rewritten (nrepl iters : Nat) (f : Func) :
    Rewritten f (deadLoop nrepl iters f) := by
  induction iters generalizing f with
  | zero => exact .refl f
  | succ iters ih =>
    rw [deadLoop]
    dsimp only
    generalize (forBlocks countUses f (replicate nrepl 0)).1 = useCounts
    have hround := forBlocks_rewritten (removeDead useCounts) f false
    generalize forBlocks (removeDead useCounts) f false = out at hround ⊢
    obtain ⟨removedAny, f'⟩ := out
    dsimp only at hround ⊢
    cases removedAny with
    | true => exact hround.trans (ih f')
    | false => exact hround

theorem passes_rewritten (f : Func) : Rewritten f (runFuncPeepholePasses f) := by
  rw [runFuncPeepholePasses]
  dsimp only
  generalize (if f.nextVreg > 0 then f.nextVreg else 1) = nrepl
  have hfirst := simplifyLoop_rewritten 6 { repl := replicate nrepl none } f
  generalize simplifyLoop 6 { repl := replicate nrepl none } f = out at hfirst ⊢
  obtain ⟨st, f₁⟩ := out
  dsimp only at hfirst ⊢
  have hresolve := forBlocks_rewritten resolveBlock f₁ st.repl
  exact hfirst.trans (hresolve.trans (deadLoop_rewritten nrepl 8 _))

theorem fillBlockLoop_spec (bs : List Block) (k : Nat)
    (hids : bs.map Block.id = range' k bs.length) :
    fillBlockLoop (k + bs.length) (bs.zipIdx k)
        ((range k).map some ++ replicate bs.length none) =
      (true, (range (k + bs.length)).map some) := by
  induction bs generalizing k with
  | nil => simp [fillBlockLoop]
  | cons b bs ih =>
    rw [map_cons, length_cons, range'_succ, cons.injEq] at hids
    obtain ⟨hid, hrest⟩ := hids
    have hlen : ((range k).map some : List (Option Nat)).length = k := by simp
    have hset : ((range k).map some ++ none :: replicate bs.length none).set k (some k) =
        (range (k + 1)).map some ++ replicate bs.length none := by
      rw [set_append_right _ _ (by omega), hlen, Nat.sub_self, set_cons_zero,
        range_succ, map_append, append_assoc]
      rfl
    have hcount : k + (bs.length + 1) = k + 1 + bs.length := by omega
    rw [zipIdx_cons, fillBlockLoop, if_neg (by rw [hid, length_cons]; omega), hid,
      length_cons, replicate_succ, hset, hcount]
    exact ih (k + 1) hrest

theorem fillBlockArray_cases (alloc : AllocSite → Bool) {f : Func} (hinv : Inv f) :
    fillBlockArray alloc f =
        (true, { f with blockArray := some ((range f.numBlocks).map some) }) ∨
      fillBlockArray alloc f = (false, f) := by
  have hlength : f.blocks.length = f.numBlocks := by
    have hids := congrArg List.length hinv.ids
    rwa [length_map, length_range] at hids
  have hloop : fillBlockLoop f.numBlocks f.blocks.zipIdx (replicate f.numBlocks none) =
      (true, (range f.numBlocks).map some) := by
    have hfill := fillBlockLoop_spec f.blocks 0 (by
      rw [hlength, hinv.ids, range_eq_range'])
    rwa [Nat.zero_add, hlength] at hfill
  obtain hnone | hsome := hinv.blockArray
  · rw [fillBlockArray, hnone, if_neg (by decide)]
    cases alloc .blockArray with
    | false => exact Or.inr rfl
    | true =>
      rw [if_neg (by decide), hloop]
      exact Or.inl rfl
  · have hsame : f = { f with blockArray := some ((range f.numBlocks).map some) } := by
      rw [← hsome]
    rw [fillBlockArray, if_pos (by rw [hsome]; rfl)]
    exact Or.inl (congrArg (Prod.mk true) hsame)

/-- The array of the block at a place is filled. -/
def ListedAt (f : Func) (place : Nat) : Prop := ∀ b, f.blocks[place]? = some b → Listed b

theorem ListedAt.set {f : Func} {place : Nat} (hb : Listed b) {at' : Nat}
    (h : ListedAt f at' ∨ at' = place) :
    ListedAt { f with blocks := f.blocks.set place b } at' := by
  intro b' hb'
  rw [getElem?_set] at hb'
  by_cases hat : place = at'
  · rw [if_pos hat] at hb'
    split at hb'
    · exact Option.some.inj hb' ▸ hb
    · exact absurd hb' (by simp)
  · rw [if_neg hat] at hb'
    obtain h | h := h
    · exact h b' hb'
    · exact absurd h.symm hat

theorem fillInstArrays_spec (alloc : AllocSite → Bool) (bis : List Nat) (f : Func) :
    Rewritten f (fillInstArrays alloc bis f).2 ∧
      ((fillInstArrays alloc bis f).1 = true →
        (∀ place, ListedAt f place → ListedAt (fillInstArrays alloc bis f).2 place) ∧
        ∀ bi ∈ bis, f.blockAt bi = some bi → ListedAt (fillInstArrays alloc bis f).2 bi) := by
  induction bis generalizing f with
  | nil => exact ⟨.refl f, fun _ => ⟨fun _ h => h, fun bi hbi => absurd hbi (by simp)⟩⟩
  | cons bi bis ih =>
    -- the block at `bi` is listed in `f'`, and the rest goes on from there
    have hgo : ∀ f' : Func, Rewritten f f' → (∀ place, ListedAt f place → ListedAt f' place) →
        (f.blockAt bi = some bi → ListedAt f' bi) →
        Rewritten f (fillInstArrays alloc bis f').2 ∧
          ((fillInstArrays alloc bis f').1 = true →
            (∀ place, ListedAt f place → ListedAt (fillInstArrays alloc bis f').2 place) ∧
            ∀ i ∈ bi :: bis, f.blockAt i = some i →
              ListedAt (fillInstArrays alloc bis f').2 i) := by
      intro f' hf' hkeep hhere
      obtain ⟨hrest, hok⟩ := ih f'
      refine ⟨hf'.trans hrest, fun htrue => ?_⟩
      obtain ⟨hkeep', hlisted⟩ := hok htrue
      refine ⟨fun place h => hkeep' place (hkeep place h), fun i hi hat => ?_⟩
      rw [mem_cons] at hi
      obtain rfl | hi := hi
      · exact hkeep' i (hhere hat)
      · refine hlisted i hi ?_
        rw [hf'.rest]
        exact hat
    rw [fillInstArrays]
    cases hat : f.blockAt bi with
    | none => exact hgo f (.refl f) (fun _ h => h) fun habs => by simp [hat] at habs
    | some place =>
      dsimp only
      cases hb : f.blocks[place]? with
      | none =>
        refine hgo f (.refl f) (fun _ h => h) fun hsame => ?_
        rw [hat, Option.some.injEq] at hsame
        intro b hbi
        rw [← hsame, hb] at hbi
        exact absurd hbi (by simp)
      | some b =>
        dsimp only
        have hstep : ∀ b' : Block, b'.id = b.id → Listed b' →
            Rewritten f (fillInstArrays alloc bis
              { f with blocks := f.blocks.set place b' }).2 ∧ _ := fun b' hid hlisted =>
          hgo { f with blocks := f.blocks.set place b' } (rewritten_set hb hid)
            (fun _ h => ListedAt.set hlisted (Or.inl h)) fun hsame =>
              ListedAt.set hlisted (Or.inr (Option.some.inj (hat.symm.trans hsame)).symm)
        by_cases hn : b.insts.length = 0
        · rw [if_pos hn]
          refine hstep _ rfl ⟨?_, rfl⟩
          rw [Block.addrs, eq_nil_of_length_eq_zero hn]
          rfl
        · rw [if_neg hn]
          cases alloc (.instArray bi) with
          | false => exact ⟨rewritten_set hb rfl, fun habs => absurd habs (by simp)⟩
          | true => exact hstep _ rfl ⟨rfl, rfl⟩

theorem length_blocks {f : Func} (hids : f.blocks.map Block.id = range f.numBlocks) :
    f.blocks.length = f.numBlocks := by
  have hlen := congrArg List.length hids
  rwa [length_map, length_range] at hlen

theorem blockAt_eq {f : Func} (harray : f.blockArray = some ((range f.numBlocks).map some))
    {bi : Nat} (hbi : bi < f.numBlocks) : f.blockAt bi = some bi := by
  rw [Func.blockAt, harray, getD_some, getD_eq_getElem?_getD, getElem?_map,
    getElem?_range hbi]
  rfl

variable {k : Nat}

theorem offsetOf_succ {blocks : List Block} (hb : blocks[k]? = some b) :
    offsetOf blocks (k + 1) = offsetOf blocks k + b.insts.length := by
  rw [offsetOf, offsetOf, take_add_one, hb, map_append, sum_append]
  simp

theorem length_addrs (blocks : List Block) (k : Nat) :
    ((blocks.take k).flatMap Block.addrs).length = offsetOf blocks k := by
  rw [length_flatMap, offsetOf]
  simp only [Block.addrs, length_map]

/-- Every block has its place in the block array and its own array. -/
structure Filled (f : Func) : Prop where
  ids : f.blocks.map Block.id = range f.numBlocks
  blockArray : f.blockArray = some ((range f.numBlocks).map some)
  listed : ∀ b ∈ f.blocks, Listed b

section Filled
variable {f : Func} (hf : Filled f)
include hf

theorem Filled.block {bi : Nat} (hbi : bi < f.numBlocks) : ∃ b, f.blocks[bi]? = some b ∧
    Listed b ∧ blockEntries f bi = Block.addrs b ∧ blockCount f bi = b.insts.length := by
  have hlt : bi < f.blocks.length := (length_blocks hf.ids).symm ▸ hbi
  have hb : f.blocks[bi]? = some f.blocks[bi] := getElem?_eq_getElem hlt
  have hlisted := hf.listed _ (getElem_mem hlt)
  refine ⟨_, hb, hlisted, ?_, ?_⟩
  · rw [blockEntries, blockAt_eq hf.blockArray hbi]
    dsimp only
    rw [hb]
    dsimp only
    rw [hlisted.entries, hlisted.count, take_of_length_le]
    rw [Block.addrs, length_map]
  · rw [blockCount, blockAt_eq hf.blockArray hbi]
    dsimp only
    rw [hb]
    exact hlisted.count

theorem Filled.linear (hk : k ≤ f.numBlocks) :
    (range k).foldl (fillBlockLinear f) ([], []) =
      ((range k).map (offsetOf f.blocks), (f.blocks.take k).flatMap Block.addrs) := by
  induction k with
  | zero => rfl
  | succ k ih =>
    obtain ⟨b, hb, -, hentries, -⟩ := hf.block hk
    rw [range_succ, foldl_append, ih (by omega), foldl_cons, foldl_nil, fillBlockLinear, hentries,
      length_addrs, map_append, take_add_one, hb, flatMap_append]
    simp

theorem Filled.total (hk : k ≤ f.numBlocks) :
    ((range k).map (blockCount f)).sum = offsetOf f.blocks k := by
  induction k with
  | zero => rfl
  | succ k ih =>
    obtain ⟨b, hb, -, -, hcount⟩ := hf.block hk
    rw [range_succ, map_append, sum_append, ih (by omega), offsetOf_succ hb]
    simp [hcount]

end Filled

theorem blocks_of_array {f : Func} (hids : f.blocks.map Block.id = range f.numBlocks)
    (harray : f.blockArray = some ((range f.numBlocks).map some)) :
    ((range f.numBlocks).map fun bi => (f.blockAt bi).bind (f.blocks[·]?)) =
      f.blocks.map some := by
  have hlen := length_blocks hids
  apply ext_getElem?
  intro i
  rw [getElem?_map, getElem?_map]
  by_cases hi : i < f.numBlocks
  · have hlt : i < f.blocks.length := hlen.symm ▸ hi
    rw [getElem?_range hi, getElem?_eq_getElem hlt, map_some, map_some,
      blockAt_eq harray hi, bind_some, getElem?_eq_getElem hlt]
  · rw [getElem?_eq_none (by rw [length_range]; omega), getElem?_eq_none (by omega)]
    rfl

/-- What the test comes to once the block array is there. -/
theorem isFinalized_iff {f : Func} (hinv : Inv f) (hsome : f.numBlocks ≠ 0) :
    lrFuncIsFinalized f = true ↔ ∃ offsets, f.blockInstOffsets = some offsets ∧
      (∀ b ∈ f.blocks, b.insts ≠ [] → b.instArray ≠ none) ∧
      ((∃ b ∈ f.blocks, b.insts ≠ []) → f.linearInstArray ≠ none) ∧
      ((∀ b ∈ f.blocks, b.insts = []) → f.numLinearInsts = 0) ∧
      offsets.getD f.numBlocks 0 = f.numLinearInsts := by
  rw [lrFuncIsFinalized, if_neg hsome]
  cases hoff : f.blockInstOffsets with
  | none => cases f.blockArray <;> simp
  | some offsets =>
    have hneeds : f.blockArray ≠ none := hinv.needsArray (by rw [hoff]; simp)
    have harray := hinv.blockArray.resolve_left hneeds
    rw [harray]
    dsimp only
    rw [blocks_of_array hinv.ids harray]
    have hmissing : ((f.blocks.map some).any fun b : Option Block =>
        b.all fun b => !b.insts.isEmpty && b.instArray.isNone) = true ↔
          ¬ ∀ b ∈ f.blocks, b.insts ≠ [] → b.instArray ≠ none := by
      simp
    have hinsts : ((f.blocks.map some).any fun b : Option Block =>
        b.any fun b => !b.insts.isEmpty) = true ↔ ∃ b ∈ f.blocks, b.insts ≠ [] := by
      simp
    by_cases hm : ∀ b ∈ f.blocks, b.insts ≠ [] → b.instArray ≠ none
    · rw [if_neg fun h => hmissing.1 h hm]
      by_cases hi : ∃ b ∈ f.blocks, b.insts ≠ []
      · have hnot : ¬ ∀ b ∈ f.blocks, b.insts = [] := by
          obtain ⟨b, hb, hne⟩ := hi
          exact fun h => hne (h b hb)
        rw [hinsts.2 hi]
        cases f.linearInstArray with
        | none => simp [hi]
        | some linear => simpa [hnot] using fun _ => hm
      · have hall : ∀ b ∈ f.blocks, b.insts = [] := fun b hb =>
          by_contra fun hne => hi ⟨b, hb, hne⟩
        rw [Bool.eq_false_iff.2 fun h => hi (hinsts.1 h)]
        by_cases hzero : f.numLinearInsts = 0
        · simpa [hzero, hi] using fun _ => hm
        · refine ⟨fun habs => absurd habs (by simp [hzero]), fun habs => ?_⟩
          obtain ⟨_, -, -, -, hnolinear, -⟩ := habs
          exact absurd (hnolinear hall) hzero
    · rw [if_pos (hmissing.2 hm)]
      refine ⟨fun habs => absurd habs (by simp), fun habs => ?_⟩
      obtain ⟨_, -, hm', -⟩ := habs
      exact absurd hm' hm

/-- With its views a function is finalized. -/
theorem finalized_of_views {f : Func} (hinv : Inv f) (hviews : Views f) :
    lrFuncIsFinalized f = true := by
  by_cases hzero : f.numBlocks = 0
  · rw [lrFuncIsFinalized, if_pos hzero]
  rw [isFinalized_iff hinv hzero]
  refine ⟨_, hviews.offsets (Nat.pos_of_ne_zero hzero), ?_, ?_, ?_, ?_⟩
  · intro b hb hne hnone
    have hentries := (hviews.listed b hb).entries
    rw [hnone, getD_none, Block.addrs] at hentries
    exact hne (map_eq_nil_iff.1 hentries.symm)
  · intro hinsts hnone
    obtain ⟨b, hb, hne⟩ := hinsts
    have hlinear := hviews.linear
    rw [hnone, getD_none] at hlinear
    have hnil := flatMap_eq_nil_iff.1 hlinear.symm b hb
    exact hne (map_eq_nil_iff.1 hnil)
  · intro hall
    have hnil : f.blocks.flatMap Block.addrs = [] :=
      flatMap_eq_nil_iff.2 fun b hb => by rw [Block.addrs, hall b hb, map_nil]
    rw [hviews.total, hnil]
    rfl
  · have htake : f.blocks.take f.numBlocks = f.blocks :=
      take_of_length_le (le_of_eq (length_blocks hinv.ids))
    rw [getD_eq_getElem?_getD, getElem?_map, getElem?_range (Nat.lt_succ_self _),
      map_some, getD_some, hviews.total, ← length_addrs, htake]

/-- A finalized function has its views. -/
theorem views_of_finalized {f : Func} (hinv : Inv f) (hfin : lrFuncIsFinalized f = true) :
    Views f := by
  by_cases hzero : f.numBlocks = 0
  · have hnone : f.blocks = [] :=
      eq_nil_of_length_eq_zero ((length_blocks hinv.ids).trans hzero)
    obtain ⟨hlinear, htotal⟩ := hinv.empty hzero
    refine ⟨?_, fun h => absurd hzero (by omega), ?_, ?_⟩
    · rw [hnone]
      exact fun b hb => absurd hb (by simp)
    · rw [hlinear, hnone]
      rfl
    · rw [htotal, hnone]
      rfl
  · obtain ⟨offsets, hoff, -, hlinear, hnolinear, -⟩ := (isFinalized_iff hinv hzero).1 hfin
    refine hinv.views (by rw [hoff]; simp) ?_
    by_cases hinsts : ∃ b ∈ f.blocks, b.insts ≠ []
    · exact Or.inl (hlinear hinsts)
    · exact Or.inr (hnolinear fun b hb => by_contra fun hne => hinsts ⟨b, hb, hne⟩)

/-- The linear view is still to be built. -/
def Unbuilt (f : Func) : Prop :=
  f.linearInstArray = none ∧ (f.blockInstOffsets ≠ none → f.numLinearInsts ≠ 0)

theorem unbuilt_of_not_finalized {f : Func} (hinv : Inv f) (hfin : lrFuncIsFinalized f = false) :
    Unbuilt f := by
  have hno : ∀ hoff : f.blockInstOffsets ≠ none,
      ¬ (f.linearInstArray ≠ none ∨ f.numLinearInsts = 0) := by
    intro hoff hbuilt
    have htrue := finalized_of_views hinv (hinv.views hoff hbuilt)
    rw [hfin] at htrue
    exact absurd htrue (by simp)
  constructor
  · by_contra hlinear
    exact hno (hinv.needsOffsets hlinear) (Or.inl hlinear)
  · exact fun hoff hzero => hno hoff (Or.inr hzero)

theorem inv_of_unbuilt {f : Func} (hids : f.blocks.map Block.id = range f.numBlocks)
    (harray : f.blockArray = none ∨ f.blockArray = some ((range f.numBlocks).map some))
    (hneeds : f.blockInstOffsets ≠ none → f.blockArray ≠ none) (hsome : f.numBlocks ≠ 0)
    (hunbuilt : Unbuilt f) : Inv f where
  ids := hids
  blockArray := harray
  needsArray := hneeds
  needsOffsets := fun hlinear => absurd hunbuilt.1 hlinear
  views := fun hoff hbuilt => by
    obtain hlinear | hzero := hbuilt
    · exact absurd hunbuilt.1 hlinear
    · exact absurd hzero (hunbuilt.2 hoff)
  empty := fun hzero => absurd hzero hsome

theorem buildLinear_inv (alloc : AllocSite → Bool) {f : Func} (hf : Filled f)
    (hsome : f.numBlocks ≠ 0) (hlinear : f.linearInstArray = none) :
    Inv (buildLinear alloc f).2 := by
  have htotal := hf.total (le_rfl)
  have htake : f.blocks.take f.numBlocks = f.blocks :=
    take_of_length_le (le_of_eq (length_blocks hf.ids))
  have hall : (f.blocks.flatMap Block.addrs).length = offsetOf f.blocks f.numBlocks := by
    rw [← length_addrs, htake]
  have hf' : Filled { f with numLinearInsts := offsetOf f.blocks f.numBlocks } :=
    ⟨hf.ids, hf.blockArray, hf.listed⟩
  have hfold := hf'.linear (le_rfl)
  rw [buildLinear, if_neg (by rw [hlinear]; decide), htotal]
  dsimp only at hfold ⊢
  rw [hfold, htake]
  dsimp only
  rw [hall]
  by_cases hfail : offsetOf f.blocks f.numBlocks > 0 ∧ alloc .linearInstArray = false
  · rw [if_pos hfail]
    refine inv_of_unbuilt hf.ids (Or.inr hf.blockArray) (fun _ => ?_) hsome ⟨hlinear, fun _ => ?_⟩
    · rw [hf.blockArray]
      simp
    · exact ne_of_gt hfail.1
  · rw [if_neg hfail]
    have hviews : Views { f with
        numLinearInsts := offsetOf f.blocks f.numBlocks
        linearInstArray := if offsetOf f.blocks f.numBlocks > 0 then
          some (f.blocks.flatMap Block.addrs) else none
        blockInstOffsets := some ((range f.numBlocks).map (offsetOf f.blocks) ++
          [offsetOf f.blocks f.numBlocks]) } := by
      refine ⟨hf.listed, fun _ => ?_, ?_, hall.symm⟩
      · rw [range_succ, map_append]
        rfl
      · by_cases hpos : offsetOf f.blocks f.numBlocks > 0
        · rw [if_pos hpos]
          rfl
        · rw [if_neg hpos]
          exact (eq_nil_of_length_eq_zero (by rw [hall]; omega)).symm
    refine ⟨hf.ids, Or.inr hf.blockArray, fun _ => ?_, fun _ => by simp, fun _ _ => hviews,
      fun hzero => absurd hzero hsome⟩
    change f.blockArray ≠ none
    rw [hf.blockArray]
    simp

theorem finalize_inv (alloc : AllocSite → Bool) {f : Func} (hinv : Inv f) :
    Inv (lrFuncFinalize alloc f).2 := by
  rw [lrFuncFinalize]
  cases hfin : lrFuncIsFinalized f with
  | true => exact hinv
  | false =>
    rw [if_neg (by decide)]
    by_cases hsome : f.numBlocks = 0
    · rw [if_pos hsome]
      exact hinv
    rw [if_neg hsome]
    obtain ⟨hlinear, hcount⟩ := unbuilt_of_not_finalized hinv hfin
    obtain hblocks | hblocks := fillBlockArray_cases alloc hinv
    swap
    · rw [hblocks]
      exact hinv
    rw [hblocks]
    dsimp only
    -- from here on the block array is there and only lists and block arrays change
    have harrayed : ∀ f' : Func,
        Rewritten { f with blockArray := some ((range f.numBlocks).map some) } f' →
          Inv f' := by
      intro f' hf'
      rw [hf'.rest]
      refine inv_of_unbuilt (hf'.ids.trans hinv.ids) (Or.inr rfl) (fun _ => ?_) hsome
        ⟨hlinear, hcount⟩
      simp
    cases alloc .passes with
    | false => exact harrayed _ (.refl _)
    | true =>
      rw [if_neg (by decide)]
      have hpasses := passes_rewritten
        { f with blockArray := some ((range f.numBlocks).map some) }
      generalize runFuncPeepholePasses
        { f with blockArray := some ((range f.numBlocks).map some) } = f₁ at hpasses ⊢
      obtain ⟨hfill, hok⟩ := fillInstArrays_spec alloc (range f.numBlocks) f₁
      have hrest := hpasses.trans hfill
      generalize fillInstArrays alloc (range f.numBlocks) f₁ = out at hfill hok hrest ⊢
      obtain ⟨ok, f₂⟩ := out
      dsimp only at hfill hok hrest
      have hinv₂ := harrayed f₂ hrest
      cases ok with
      | false => exact hinv₂
      | true =>
        obtain ⟨-, hlisted⟩ := hok rfl
        have hnum₁ : f₁.numBlocks = f.numBlocks := by rw [hpasses.rest]
        have hnum₂ : f₂.numBlocks = f.numBlocks := by rw [hrest.rest]
        have harray₁ : f₁.blockArray = some ((range f₁.numBlocks).map some) := by
          rw [hpasses.rest]
        have harray₂ : f₂.blockArray = some ((range f₂.numBlocks).map some) := by
          rw [hrest.rest]
        have hlinear₂ : f₂.linearInstArray = none := by
          rw [hrest.rest]
          exact hlinear
        have hall : ∀ b ∈ f₂.blocks, Listed b := by
          intro b hb
          obtain ⟨i, hi, rfl⟩ := getElem_of_mem hb
          have hlt : i < f.numBlocks := by
            rw [← hnum₂, ← length_blocks hinv₂.ids]
            exact hi
          exact hlisted i (mem_range.2 hlt) (blockAt_eq harray₁ (hnum₁.symm ▸ hlt)) _
            (getElem?_eq_getElem hi)
        dsimp only
        split
        · exact hinv₂
        · exact buildLinear_inv alloc ⟨hinv₂.ids, harray₂, hall⟩ (hnum₂.symm ▸ hsome) hlinear₂

theorem blockCreate_inv {f : Func} (hinv : Inv f) : Inv (lrBlockCreate f) where
  ids := by
    change (f.blocks ++ [_]).map Block.id = range (f.numBlocks + 1)
    rw [map_append, hinv.ids, range_succ]
    rfl
  blockArray := Or.inl rfl
  needsArray := fun h => absurd rfl h
  needsOffsets := fun h => absurd rfl h
  views := fun h => absurd rfl h
  empty := fun h => absurd h (Nat.succ_ne_zero _)

theorem blockAppend_inv {f : Func} (hinv : Inv f) (block : Nat) (inst : LrInst) :
    Inv (lrBlockAppend f block inst) where
  ids := by
    refine Eq.trans ?_ hinv.ids
    apply ext_getElem?
    intro i
    rw [getElem?_map, getElem?_map]
    change Option.map Block.id (f.blocks.modify block _)[i]? = _
    rw [getElem?_modify]
    cases f.blocks[i]? with
    | none => rfl
    | some b =>
      by_cases hi : block = i
      · simp [hi]
      · simp [hi]
  blockArray := hinv.blockArray
  needsArray := fun h => absurd rfl h
  needsOffsets := fun h => absurd rfl h
  views := fun h => absurd rfl h
  empty := fun _ => ⟨rfl, rfl⟩

theorem vregNew_inv {f : Func} (hinv : Inv f) : Inv (lrVregNew f) :=
  ⟨hinv.ids, hinv.blockArray, hinv.needsArray, hinv.needsOffsets,
    fun hoff hbuilt => by
      obtain ⟨hlisted, hoffsets, hlinear, htotal⟩ := hinv.views hoff hbuilt
      exact ⟨hlisted, hoffsets, hlinear, htotal⟩,
    hinv.empty⟩

/-- A call on the function; a finalization with the allocations that succeed in it. -/
inductive Call where
  | vregNew
  | blockCreate
  | blockAppend (block : Nat) (inst : LrInst)
  | finalize (alloc : AllocSite → Bool)

def Call.apply (f : Func) : Call → Func
  | .vregNew => lrVregNew f
  | .blockCreate => lrBlockCreate f
  | .blockAppend block inst => lrBlockAppend f block inst
  | .finalize alloc => (lrFuncFinalize alloc f).2

def run (f : Func) (calls : List Call) : Func := calls.foldl Call.apply f

theorem call_inv {f : Func} (hinv : Inv f) (call : Call) : Inv (call.apply f) := by
  cases call with
  | vregNew => exact vregNew_inv hinv
  | blockCreate => exact blockCreate_inv hinv
  | blockAppend block inst => exact blockAppend_inv hinv block inst
  | finalize alloc => exact finalize_inv alloc hinv

theorem run_inv {f : Func} (hinv : Inv f) (calls : List Call) : Inv (run f calls) := by
  induction calls generalizing f with
  | nil => exact hinv
  | cons call calls ih => exact ih (call_inv hinv call)

/-- A function without blocks. -/
def newFunc (nextVreg nextAddr : Nat) : Func := { nextVreg := nextVreg, nextAddr := nextAddr }

theorem newFunc_inv (nextVreg nextAddr : Nat) : Inv (newFunc nextVreg nextAddr) where
  ids := rfl
  blockArray := Or.inl rfl
  needsArray := fun h => absurd rfl h
  needsOffsets := fun h => absurd rfl h
  views := fun h => absurd rfl h
  empty := fun _ => ⟨rfl, rfl⟩

/-- The views and the lists say the same. -/
structure Coherent (f : Func) : Prop extends Views f where
  ids : f.blocks.map Block.id = range f.numBlocks
  blocks : ∀ bi < f.numBlocks, ∃ b, (f.blockAt bi).bind (f.blocks[·]?) = some b ∧ b.id = bi

theorem coherent_of_finalized {f : Func} (hinv : Inv f) (hfin : lrFuncIsFinalized f = true) :
    Coherent f := by
  refine ⟨views_of_finalized hinv hfin, hinv.ids, fun bi hbi => ?_⟩
  obtain ⟨offsets, hoff, -⟩ := (isFinalized_iff hinv (by omega)).1 hfin
  have harray := hinv.blockArray.resolve_left (hinv.needsArray (by rw [hoff]; simp))
  have hlt : bi < f.blocks.length := (length_blocks hinv.ids).symm ▸ hbi
  have hid : (f.blocks.map Block.id)[bi]? = some bi := by rw [hinv.ids, getElem?_range hbi]
  rw [getElem?_map, getElem?_eq_getElem hlt, map_some, Option.some.injEq] at hid
  refine ⟨f.blocks[bi], ?_, hid⟩
  rw [blockAt_eq harray hbi, bind_some, getElem?_eq_getElem hlt]

/-- After any calls a function that counts as finalized has coherent views, and finalizing it
again does nothing. -/
theorem finalized_coherent (nextVreg nextAddr : Nat) (calls : List Call)
    (hfin : lrFuncIsFinalized (run (newFunc nextVreg nextAddr) calls) = true) :
    Coherent (run (newFunc nextVreg nextAddr) calls) ∧
      ∀ alloc, lrFuncFinalize alloc (run (newFunc nextVreg nextAddr) calls) =
        (0, run (newFunc nextVreg nextAddr) calls) := by
  refine ⟨coherent_of_finalized (run_inv (newFunc_inv _ _) calls) hfin, fun alloc => ?_⟩
  rw [lrFuncFinalize, if_pos hfin]

/-- Two blocks; the sum in the second one is folded and unused. -/
def exampleCalls : List Call :=
  [.blockCreate, .blockCreate, .blockAppend 0 (lrInstCreate .br none 0 [lrOpBlock 1]),
    .blockAppend 1 (lrInstCreate .add (some (.scalar 0 .i64)) 0
      [lrOpImmI64 1 none, lrOpImmI64 2 none]),
    .blockAppend 1 (lrInstCreate .retVoid none 0 []), .finalize fun _ => true]

theorem finalized_coherent_example :
    lrFuncIsFinalized (run (newFunc 1 100) exampleCalls) = true ∧
      (run (newFunc 1 100) exampleCalls).linearInstArray = some [100, 102] ∧
      Coherent (run (newFunc 1 100) exampleCalls) :=
  ⟨by decide +kernel, by decide +kernel,
    (finalized_coherent 1 100 exampleCalls (by decide +kernel)).1⟩

end Liric.Guarantees.FinalizedViews
