import Liric.Guarantees.RiscvCode

/-!
# RISC-V calls

A function of one block is compiled and run instruction by instruction, with a callee
that does to the registers what the convention allows. A call passes the values that
its operands had, and keeps the values that are used later, exactly if no argument is
in a register that an earlier one has been moved into, no constant is one that is loaded
wrongly, and the values that are used later are in registers that a callee saves.
-/
namespace Liric.Guarantees.RiscvCalls
open Source.Ir Source.Riscv64 RiscvMachine RiscvCode Lib List

variable {v : Nat} {m : RvVregMap} {ds ds' : List LrInst}

/-- Values are in argument registers or in registers of the pools that have been given
out. -/
def MapOk (c : RvDirectCtx) : Prop :=
  ∀ v m, c.vmap.lookup v = some m →
    (m.cls = .gpr ∧ (m.reg ∈ rvGprTmpPool.take c.gprNext ∨ (10 ≤ m.reg ∧ m.reg ≤ 17))) ∨
    (m.cls = .fpr ∧ (m.reg ∈ rvFprTmpPool.take c.fprNext ∨ (10 ≤ m.reg ∧ m.reg ≤ 17)))

section Registers
variable {c c' : RvDirectCtx} {dest : Nat}

theorem MapOk.homes (h : MapOk c) : HomesOk c.vmap := by
  intro v m hm
  have hpool : ∀ r ∈ rvGprTmpPool, 10 ≤ r := by decide
  unfold homeLoc
  obtain ⟨hcls, hreg⟩ | ⟨hcls, -⟩ := h v m hm
  · rw [hcls]
    obtain hreg | ⟨hreg, -⟩ := hreg
    · exact hpool m.reg (mem_of_mem_take hreg)
    · exact hreg
  · rw [hcls]
    trivial

/-- A value in a register that a callee saves is in a register of a pool. -/
theorem MapOk.kept (h : MapOk c) (hm : c.vmap.lookup v = some m)
    (hsaved : calleeSaved (homeLoc m) = true) : Kept c (homeLoc m) := by
  have hargX : ∀ r : Reg, 10 ≤ r → r ≤ 17 → calleeSaved (.x r) = false := by decide
  have hargF : ∀ r : Reg, 10 ≤ r → r ≤ 17 → calleeSaved (.f r) = false := by decide
  refine ⟨hsaved, ?_⟩
  unfold homeLoc at hsaved ⊢
  obtain ⟨hcls, hreg⟩ | ⟨hcls, hreg⟩ := h v m hm
  · rw [hcls] at hsaved ⊢
    obtain hreg | ⟨h10, h17⟩ := hreg
    · exact .inl ⟨m.reg, hreg, rfl⟩
    · have hno := hargX m.reg h10 h17
      exact absurd (hsaved.symm.trans hno) (by decide)
  · rw [hcls] at hsaved ⊢
    obtain hreg | ⟨h10, h17⟩ := hreg
    · exact .inr ⟨m.reg, hreg, rfl⟩
    · have hno := hargF m.reg h10 h17
      exact absurd (hsaved.symm.trans hno) (by decide)

theorem mem_take_succ {pool : List Reg} {n : Nat} {r s : Reg} (h : pool[n]? = some r) :
    s ∈ pool.take (n + 1) ↔ s ∈ pool.take n ∨ s = r := by
  rw [take_add_one, h]
  simp

theorem lookup_cons_of_ne {vmap : List (Nat × RvVregMap)} (h : v ≠ dest) :
    ((dest, m) :: vmap).lookup v = vmap.lookup v := by
  rw [lookup_cons, show (v == dest) = false by simpa using h]

theorem newHome_lookup (h : NewHome c c' dest) (hv : v ≠ dest) :
    c'.vmap.lookup v = c.vmap.lookup v := by
  cases h with
  | none hmap _ _ => rw [hmap]
  | gpr _ hmap _ _ => rw [hmap, lookup_cons_of_ne hv]
  | fpr _ hmap _ _ => rw [hmap, lookup_cons_of_ne hv]
  | result hmap _ _ => rw [hmap, lookup_cons_of_ne hv]

theorem newHome_kept (h : NewHome c c' dest) {l : Loc} (hl : Kept c l) : Kept c' l := by
  obtain ⟨hsaved, hpool⟩ := hl
  refine ⟨hsaved, ?_⟩
  cases h with
  | none _ hg hf =>
    rw [hg, hf]
    exact hpool
  | gpr hr _ hg hf =>
    rw [hg, hf]
    exact hpool.imp (fun ⟨r, hmem, heq⟩ => ⟨r, (mem_take_succ hr).2 (.inl hmem), heq⟩) id
  | fpr hr _ hg hf =>
    rw [hg, hf]
    exact hpool.imp id fun ⟨r, hmem, heq⟩ => ⟨r, (mem_take_succ hr).2 (.inl hmem), heq⟩
  | result _ hg hf =>
    rw [hg, hf]
    exact hpool

theorem newHome_mapOk (h : NewHome c c' dest) (hok : MapOk c) : MapOk c' := by
  intro v m hm
  by_cases hv : v = dest
  · cases h with
    | none hmap hg hf =>
      rw [hmap] at hm
      rw [hg, hf]
      exact hok v m hm
    | gpr hr hmap hg hf =>
      rw [hmap, hv, lookup_cons, beq_self_eq_true, Option.some.injEq] at hm
      rw [← hm, hg]
      exact .inl ⟨rfl, .inl ((mem_take_succ hr).2 (.inr rfl))⟩
    | fpr hr hmap hg hf =>
      rw [hmap, hv, lookup_cons, beq_self_eq_true, Option.some.injEq] at hm
      rw [← hm, hf]
      exact .inr ⟨rfl, .inl ((mem_take_succ hr).2 (.inr rfl))⟩
    | @result cls hmap hg hf =>
      rw [hmap, hv, lookup_cons, beq_self_eq_true, Option.some.injEq] at hm
      rw [← hm]
      cases cls with
      | gpr => exact .inl ⟨rfl, .inr (by decide)⟩
      | fpr => exact .inr ⟨rfl, .inr (by decide)⟩
  · rw [newHome_lookup h hv] at hm
    have hmono : ∀ r, (r ∈ rvGprTmpPool.take c.gprNext → r ∈ rvGprTmpPool.take c'.gprNext) ∧
        (r ∈ rvFprTmpPool.take c.fprNext → r ∈ rvFprTmpPool.take c'.fprNext) := by
      intro r
      cases h with
      | none _ hg hf => rw [hg, hf]; exact ⟨id, id⟩
      | gpr hr _ hg hf => rw [hg, hf]; exact ⟨fun hmem => (mem_take_succ hr).2 (.inl hmem), id⟩
      | fpr hr _ hg hf => rw [hg, hf]; exact ⟨id, fun hmem => (mem_take_succ hr).2 (.inl hmem)⟩
      | result _ hg hf => rw [hg, hf]; exact ⟨id, id⟩
    exact (hok v m hm).imp (fun ⟨hcls, hreg⟩ => ⟨hcls, hreg.imp (hmono _).1 id⟩)
      fun ⟨hcls, hreg⟩ => ⟨hcls, hreg.imp (hmono _).2 id⟩

theorem beginParams_mapOk : ∀ (params : List (Nat × LrType)) (iarg farg : Reg)
    (c c' : RvDirectCtx) (a : Unit), 10 ≤ iarg → 10 ≤ farg → MapOk c →
    beginParams iarg farg params c = some (a, c') → MapOk c'
  | [], _, _, _, _, _, _, _, hok, h => by
    cases h
    exact hok
  | (v, pt) :: rest, iarg, farg, c, c', a, hiarg, hfarg, hok, h => by
    have hadd : ∀ cls (r : Reg), 10 ≤ r → r ≤ 17 →
        MapOk { c with vmap := (v, ⟨cls, r⟩) :: c.vmap } := by
      intro cls r h10 h17 u m hm
      by_cases hu : u = v
      · rw [hu, lookup_cons, beq_self_eq_true, Option.some.injEq] at hm
        rw [← hm]
        cases cls with
        | gpr => exact .inl ⟨rfl, .inr ⟨h10, h17⟩⟩
        | fpr => exact .inr ⟨rfl, .inr ⟨h10, h17⟩⟩
      · rw [lookup_cons_of_ne hu] at hm
        exact hok u m hm
    unfold beginParams at h
    obtain ⟨_, t, hget, h⟩ := run_bind_inv h
    cases hget
    split at h
    · obtain ⟨_, t, hreq, h₁⟩ := run_bind_inv h
      unfold require at hreq
      split at hreq
      · next hcond =>
        cases hreq
        obtain ⟨_, t, hmap, h₂⟩ := run_bind_inv h₁
        cases hmap
        exact beginParams_mapOk rest iarg (farg + 1) _ c' a hiarg
          (hfarg.trans (lt_succ_place farg hcond.2.2).2) (hadd _ _ hfarg hcond.2.2) h₂
      · cases hreq
    · obtain ⟨_, t, hreq, h₁⟩ := run_bind_inv h
      unfold require at hreq
      split at hreq
      · next hcond =>
        cases hreq
        obtain ⟨_, t, hmap, h₂⟩ := run_bind_inv h₁
        cases hmap
        exact beginParams_mapOk rest (iarg + 1) farg _ c' a
          (hiarg.trans (lt_succ_place iarg hcond.2).2) hfarg (hadd _ _ hiarg hcond.2) h₂
      · cases hreq

theorem rvCompileBegin_mapOk {feat : RvFeatures} {func : LrFunc} {symbols : SymbolTable}
    {obj : Option Source.Object.ObjfileCtx} {buflen : Nat}
    (h : rvCompileBegin feat func symbols obj buflen = some c) : MapOk c := by
  obtain ⟨r, hrun, rfl⟩ := Option.map_eq_some_iff.1 h
  refine beginParams_mapOk _ rvA0 rvFa0 _ r.2 r.1 (by decide) (by decide) ?_ hrun
  intro v m hm
  cases hm

end Registers

/-- One instruction is compiled, and its code runs. -/
def Step (remap : CStr → CStr) (arith : RvArith) (c : RvDirectCtx) (d : LrInst) (σ : RvState)
    (c' : RvDirectCtx) (σ' : RvState) : Prop :=
  rvCompileEmit remap d c = some ((), c') ∧ ∃ code, c'.code = c.code ++ code ∧ Exec arith code σ σ'

/-- The instructions up to some place have been compiled and run. -/
inductive Reaches (remap : CStr → CStr) (arith : RvArith) :
    RvDirectCtx → List LrInst → RvState → RvDirectCtx → List LrInst → RvState → Prop
  | here (c : RvDirectCtx) (ds : List LrInst) (σ : RvState) :
      Reaches remap arith c ds σ c ds σ
  | step {c c₁ c' : RvDirectCtx} {d : LrInst} {ds ds' : List LrInst} {σ σ₁ σ' : RvState}
      (h : Step remap arith c d σ c₁ σ₁) (hrest : Reaches remap arith c₁ ds σ₁ c' ds' σ') :
      Reaches remap arith c (d :: ds) σ c' ds' σ'

variable {between : List LrInst}

section Runs
variable {remap : CStr → CStr} {arith : RvArith} {c c' : RvDirectCtx} {d : LrInst}
  {σ σ' : RvState}

theorem exec_safe {code : List RvInst} (hno : ∀ inst ∈ code, RvInst.isCall inst = false)
    (h : Exec arith code σ σ') : σ' = execAll arith code σ := by
  have hiff : Exec arith (code ++ []) σ σ' ↔ Exec arith [] (execAll arith code σ) σ' :=
    exec_append_iff hno
  rw [append_nil] at hiff
  cases hiff.1 h
  rfl

/-- Instructions are compiled in a block. -/
theorem of_inBlock {x : RvM Unit}
    (h : (MonadState.get >>= fun s : RvDirectCtx =>
      require (s.hasCurrentBlock = true) >>= fun _ => x) c = some ((), c')) :
    x c = some ((), c') := by
  obtain ⟨_, t, hget, h₁⟩ := run_bind_inv h
  cases hget
  obtain ⟨_, t, hreq, h₂⟩ := run_bind_inv h₁
  unfold require at hreq
  split at hreq
  · cases hreq
    exact h₂
  · cases hreq

theorem call_of_compile (hop : d.op = .call) (h : rvCompileEmit remap d c = some ((), c')) :
    emitCall remap d c = some ((), c') := by
  have hcall := of_inBlock h
  rw [hop] at hcall
  exact hcall

/-- Every instruction leaves the kept registers alone. -/
theorem Step.spec (hok : MapOk c) (h : Step remap arith c d σ c' σ') :
    NewHome c c' d.dest ∧ ∀ l, Kept c l → σ' l = σ l := by
  obtain ⟨hrun, code, hcode, hexec⟩ := h
  by_cases hop : d.op = .call
  · obtain ⟨pre, hcall⟩ := emitCall_run hok.homes (call_of_compile hop hrun)
    refine ⟨hcall.home, fun l hl => ?_⟩
    obtain rfl : code = pre ++ [.j rvRa rvOpcodeJal] :=
      append_cancel_left (hcode.symm.trans hcall.code)
    rw [exec_append_iff fun inst hinst => (hcall.args.sparing inst hinst).1, exec_call_iff] at hexec
    rw [hexec l hl.1]
    exact execAll_of_ne arith σ fun inst hinst =>
      (hcall.args.sparing inst hinst).2 l hl.1 hl.ne_s1
  · have hstart : c = withCode c [] := (withCode_nil c).symm
    rw [hstart] at hrun
    obtain ⟨base, more, rfl, hbase, hsafe, hhome⟩ := ends_plain d remap hop [] () c' hrun
    rw [nil_append] at hcode
    obtain rfl : code = more := by
      refine ((append_right_inj c.code).1 ?_).symm
      rw [← hcode, ← hbase]
      rfl
    refine ⟨?_, fun l hl => ?_⟩
    · cases hhome with
      | none h1 h2 h3 => exact .none h1 h2 h3
      | gpr hr h1 h2 h3 => exact .gpr hr h1 h2 h3
      | fpr hr h1 h2 h3 => exact .fpr hr h1 h2 h3
      | result h1 h2 h3 => exact .result h1 h2 h3
    · rw [exec_safe (fun inst hinst => (hsafe inst hinst).1) hexec]
      exact execAll_of_ne arith σ fun inst hinst => (hsafe inst hinst).2 l hl

theorem Reaches.mapOk (h : Reaches remap arith c ds σ c' ds' σ') (hok : MapOk c) : MapOk c' := by
  induction h with
  | here => exact hok
  | step hstep _ ih => exact ih (newHome_mapOk (hstep.spec hok).1 hok)

theorem Reaches.length_le (h : Reaches remap arith c ds σ c' ds' σ') : ds'.length ≤ ds.length := by
  induction h with
  | here => exact le_rfl
  | step _ _ ih => exact ih.trans (Nat.le_succ _)

/-- A value in a kept register stays there as long as it is not defined again. -/
theorem Reaches.value_kept (h : Reaches remap arith c ds σ c' ds' σ')
    (hok : MapOk c) (hds : ds = between ++ ds') (hdef : ∀ e ∈ between, e.dest ≠ v)
    (hm : c.vmap.lookup v = some m) (hkept : Kept c (homeLoc m)) :
    c'.vmap.lookup v = some m ∧ σ' (homeLoc m) = σ (homeLoc m) := by
  induction h generalizing between with
  | here => exact ⟨hm, rfl⟩
  | @step c c₁ c' d ds ds' σ σ₁ σ' hstep hrest ih =>
    cases between with
    | nil =>
      -- the rest of the instructions does not grow
      have hlen := hrest.length_le
      rw [← show d :: ds = ds' from hds] at hlen
      exact absurd hlen (Nat.not_succ_le_self _)
    | cons e between =>
      obtain ⟨rfl, rfl⟩ := List.cons.inj hds
      obtain ⟨hhome, hregs⟩ := hstep.spec hok
      have hne : v ≠ d.dest := (hdef d mem_cons_self).symm
      have hlookup := newHome_lookup hhome hne
      obtain ⟨hlast, hvalue⟩ := ih (newHome_mapOk hhome hok) rfl
        (fun e he => hdef e (mem_cons_of_mem d he)) (hlookup.trans hm) (newHome_kept hhome hkept)
      exact ⟨hlast, hvalue.trans (hregs _ hkept)⟩

end Runs

def vregUses (d : LrInst) : List Nat :=
  d.operands.filterMap fun o =>
    match o.value with
    | .vreg v => some v
    | _ => none

/-- `v` is defined before the call `d` and used behind it. -/
def LiveAcross (c : RvDirectCtx) (d : LrInst) (rest : List LrInst) (v : Nat) : Prop :=
  (c.vmap.lookup v).isSome ∧ ∃ between use rest', rest = between ++ use :: rest' ∧
    v ∈ vregUses use ∧ ∀ e ∈ d :: between, e.dest ≠ v

def callPlaces (d : LrInst) : List (LrOperand × Loc) := argPlaces rvA0 rvFa0 d.operands.tail

/-- When the call is made each argument is in its place, with the value that its operand
had before the first argument was moved. -/
def ArgsPassed (arith : RvArith) (c c' : RvDirectCtx) (d : LrInst) (σ : RvState) : Prop :=
  ∀ pre, c'.code = c.code ++ (pre ++ [.j rvRa rvOpcodeJal]) → ∀ p ∈ callPlaces d,
    convOf p.1.type (execAll arith pre σ p.2) = convOf p.1.type (operandValue c.vmap σ p.1)

/-- All calls of the function, in all its runs from `σ₀`: the arguments are passed, the
values that are used later are there when the call returns, and still there when they are
used. -/
def CallsCorrect (remap : CStr → CStr) (arith : RvArith) (c₀ : RvDirectCtx) (ds : List LrInst)
    (σ₀ : RvState) : Prop :=
  ∀ c d rest σ, Reaches remap arith c₀ ds σ₀ c (d :: rest) σ → d.op = .call →
    (∀ c', rvCompileEmit remap d c = some ((), c') → ArgsPassed arith c c' d σ) ∧
    (∀ c' σ', Step remap arith c d σ c' σ' → ∀ v, LiveAcross c d rest v →
      σ' (homeOf c'.vmap v) = σ (homeOf c.vmap v)) ∧
    ∀ between use rest' c' σ', rest = between ++ use :: rest' →
      Reaches remap arith c (d :: rest) σ c' (use :: rest') σ' → ∀ v ∈ vregUses use,
      (c.vmap.lookup v).isSome → (∀ e ∈ d :: between, e.dest ≠ v) →
      σ' (homeOf c'.vmap v) = σ (homeOf c.vmap v)

/-- Integer constants, and double precision ones by their bits, that are loaded. -/
def ConstantsLoad (d : LrInst) : Prop :=
  ∀ op ∈ d.operands.tail, (∀ imm, op.value = .immI64 imm → Loadable imm) ∧
    ∀ bits, op.value = .immF64 bits → isDouble op.type = true → Loadable bits

/-- The calls whose arguments are in nobody's way: no argument is in a register into which an
earlier one of the same call has been moved with another value. -/
def ArgsClear (c : RvDirectCtx) (d : LrInst) (σ : RvState) : Prop :=
  SeqMove.Clear σ σ ((callPlaces d).map (argMove id c.vmap))

def CallsClear (remap : CStr → CStr) (arith : RvArith) (c₀ : RvDirectCtx) (ds : List LrInst)
    (σ₀ : RvState) : Prop :=
  ∀ c d rest σ, Reaches remap arith c₀ ds σ₀ c (d :: rest) σ → d.op = .call →
    (∃ c', rvCompileEmit remap d c = some ((), c')) →
    ConstantsLoad d ∧ ArgsClear c d σ ∧
      ∀ v, LiveAcross c d rest v → calleeSaved (homeOf c.vmap v) = true

section OneCall
variable {remap : CStr → CStr} {arith : RvArith} {c c' : RvDirectCtx} {d : LrInst}
  {rest : List LrInst} {σ : RvState} {pre : List RvInst}

theorem unboxSingle_boxSingle (v : BitVec 32) : unboxSingle (boxSingle v) = v := by
  have hhigh : (boxSingle v).extractLsb' 32 32 = 0xFFFFFFFF := BitVec.extractLsb'_append_eq_left
  have hlow : (boxSingle v).setWidth 32 = v := BitVec.setWidth_append_eq_right
  rw [unboxSingle, if_pos hhigh, hlow]

theorem convOf_convOf (type : Option LrType) (v : BitVec 64) :
    convOf type (convOf type v) = convOf type v := by
  unfold convOf
  split
  · unfold moveFp
    split
    · rfl
    · rw [unboxSingle_boxSingle]
  · rfl

variable {type : Option LrType}

theorem rvTypeIsFp_of_isDouble (h : isDouble type = true) : rvTypeIsFp type = true := by
  unfold isDouble at h
  split at h
  · rfl
  · cases h

theorem convOf_double (h : isDouble type = true) (v : BitVec 64) : convOf type v = v := by
  unfold convOf moveFp
  rw [rvTypeIsFp_of_isDouble h, h]
  rfl

theorem argMove_value (vmap : List (Nat × RvVregMap)) (p : LrOperand × Loc) (σ : RvState) :
    (argMove id vmap p).value σ = convOf p.1.type (operandValue vmap σ p.1) := by
  unfold SeqMove.value argMove operandValue
  cases p.1.value <;> rfl

variable {ps : List (LrOperand × Loc)}

theorem argMoves_apart (load : BitVec 64 → BitVec 64) (vmap : List (Nat × RvVregMap)) (hplaces : PlacesFrom rvA0 rvFa0 ps)
    (hdistinct : (ps.map Prod.snd).Nodup) : SeqMove.Apart (ps.map (argMove load vmap)) := by
  constructor
  · rw [map_map]
    exact hdistinct
  · intro m hm m' hm' hvia
    obtain ⟨p, hp, rfl⟩ := mem_map.1 hm
    obtain ⟨p', hp', rfl⟩ := mem_map.1 hm'
    have hft0 : p.2 = .f rvFt0 := by
      change (if rvTypeIsFp p'.1.type = true then some (Loc.f rvFt0) else none) = some p.2 at hvia
      split at hvia
      · exact (Option.some.inj hvia).symm
      · cases hvia
    obtain ⟨r, hr, -⟩ | ⟨r, hr, hle, -⟩ := hplaces p hp
    · rw [hft0] at hr
      cases hr
    · rw [hft0] at hr
      rw [← Loc.f.inj hr] at hle
      exact absurd hle (by decide)

theorem place_of_mem (iarg farg : Reg) {args : List LrOperand} {op : LrOperand} (h : op ∈ args) :
    ∃ l, (op, l) ∈ argPlaces iarg farg args := by
  induction args generalizing iarg farg with
  | nil => cases h
  | cons o rest ih =>
    unfold argPlaces
    split
    · obtain rfl | h := mem_cons.1 h
      · exact ⟨_, mem_cons_self⟩
      · obtain ⟨l, hl⟩ := ih _ _ h
        exact ⟨l, mem_cons_of_mem _ hl⟩
    · obtain rfl | h := mem_cons.1 h
      · exact ⟨_, mem_cons_self⟩
      · obtain ⟨l, hl⟩ := ih _ _ h
        exact ⟨l, mem_cons_of_mem _ hl⟩

theorem home_of_place (hplaces : PlacesFrom rvA0 rvFa0 ps)
    {p : LrOperand × Loc} (hp : p ∈ ps) : Home p.2 := by
  obtain ⟨r, hr, hle, -⟩ | ⟨r, hr, -⟩ := hplaces p hp
  · rw [hr]
    exact hle
  · rw [hr]
    trivial

/-- With constants that are loaded as they are the code makes the moves that are meant. -/
theorem codeMoves_eq (vmap : List (Nat × RvVregMap)) (hconst : ConstantsLoad d) :
    codeMoves vmap rvA0 rvFa0 d.operands.tail = (callPlaces d).map (argMove id vmap) := by
  unfold codeMoves callPlaces
  refine map_congr_left fun p hp => ?_
  obtain ⟨hint, hdouble⟩ := hconst p.1 (mem_argPlaces hp)
  unfold argMove
  cases hv : p.1.value with
  | immI64 imm => simp only [(li64Value_eq_iff imm).2 (hint imm hv), id]
  | immF64 bits =>
    by_cases hd : isDouble p.1.type = true
    · simp only [hd, (li64Value_eq_iff bits).2 (hdouble bits hv hd), id]
    · simp only [if_neg hd]
  | _ => rfl

/-- A constant that is loaded wrongly is passed wrongly. -/
theorem constantsLoad_of_passed (hcall : CallCode c c' d pre)
    (h : ArgsPassed arith c c' d σ) : ConstantsLoad d := by
  have hbrought : ∀ op ∈ d.operands.tail, ∀ v, (argMove li64Value c.vmap (op, .x 0)).src = .inr v →
      convOf op.type v = convOf op.type (operandValue c.vmap σ op) := by
    intro op hop v hsrc
    obtain ⟨l, hl⟩ := place_of_mem rvA0 rvFa0 hop
    have hpassed := h pre hcall.code (op, l) hl
    rw [hcall.args.moves arith σ l (home_of_place hcall.args.places hl)] at hpassed
    rw [← hpassed]
    exact (SeqMove.const_brought
      (argMoves_apart li64Value c.vmap hcall.args.places hcall.args.distinct)
      (mem_map.2 ⟨(op, l), hl, rfl⟩) hsrc (convOf_convOf op.type) σ).symm
  intro op hop
  constructor
  · intro imm himm
    have hsame := hbrought op hop (li64Value imm) (by simp only [argMove, himm])
    have hconv : convOf op.type = id := by rw [convOf, hcall.args.typed op hop imm himm]; rfl
    rw [hconv, operandValue, himm] at hsame
    exact (li64Value_eq_iff imm).1 hsame
  · intro bits hbits hdouble
    have hsame := hbrought op hop (li64Value bits) (by simp only [argMove, hbits, hdouble, if_true])
    rw [convOf_double hdouble, convOf_double hdouble, operandValue, hbits] at hsame
    simp only [hdouble, if_true] at hsame
    exact (li64Value_eq_iff bits).1 hsame

theorem argsPassed_iff (hcall : CallCode c c' d pre) :
    ArgsPassed arith c c' d σ ↔ ConstantsLoad d ∧ ArgsClear c d σ := by
  have hiff : ConstantsLoad d → (ArgsPassed arith c c' d σ ↔ ArgsClear c d σ) := by
    intro hconst
    have hmoves := codeMoves_eq c.vmap hconst
    have hapart := argMoves_apart id c.vmap hcall.args.places hcall.args.distinct
    have hall := SeqMove.all_brought_iff hapart (fun m hm v => by
      obtain ⟨p, -, rfl⟩ := mem_map.1 hm
      exact convOf_convOf p.1.type v) σ σ
    rw [ArgsClear, callPlaces, ← hall, forall_mem_map]
    constructor
    · intro h p hp
      have hpassed := h pre hcall.code p hp
      rw [hcall.args.moves arith σ p.2 (home_of_place hcall.args.places hp), hmoves] at hpassed
      rw [argMove_value]
      exact hpassed
    · intro h pre' hcode p hp
      obtain rfl : pre' = pre := by
        have hsame := append_cancel_left (hcode.symm.trans hcall.code)
        exact append_cancel_right hsame
      rw [hcall.args.moves arith σ p.2 (home_of_place hcall.args.places hp), hmoves,
        ← argMove_value]
      exact h p hp
  constructor
  · intro h
    have hconst := constantsLoad_of_passed hcall h
    exact ⟨hconst, (hiff hconst).1 h⟩
  · exact fun h => (hiff h.1).2 h.2

/-- A callee may leave anything in a register that it need not save. -/
theorem saved_of_values_kept (hop : d.op = .call) (hok : MapOk c)
    (hrun : rvCompileEmit remap d c = some ((), c')) (hdest : d.dest ≠ v)
    (h : ∀ σ', Step remap arith c d σ c' σ' → σ' (homeOf c'.vmap v) = σ (homeOf c.vmap v)) :
    calleeSaved (homeOf c.vmap v) = true := by
  obtain ⟨pre, hcall⟩ := emitCall_run hok.homes (call_of_compile hop hrun)
  by_contra hno
  have hhome : homeOf c'.vmap v = homeOf c.vmap v := by
    unfold homeOf
    rw [newHome_lookup hcall.home hdest.symm]
  rw [hhome] at h
  generalize homeOf c.vmap v = l at h hno
  have hconforms : Conforms (execAll arith pre σ)
      (Function.update (execAll arith pre σ) l (σ l + 1)) := by
    intro k hk
    refine Function.update_of_ne ?_ _ _
    rintro rfl
    exact hno hk
  have hexec : Exec arith (pre ++ [.j rvRa rvOpcodeJal]) σ
      (Function.update (execAll arith pre σ) l (σ l + 1)) :=
    (exec_append_iff fun inst hinst => (hcall.args.sparing inst hinst).1).2
      (exec_call_iff.2 hconforms)
  have hsame := h _ ⟨hrun, _, hcall.code, hexec⟩
  rw [Function.update_self] at hsame
  have hone : (1 : BitVec 64) = 0 := BitVec.add_right_eq_self.1 hsame
  exact absurd hone (by decide)

theorem values_kept_of_saved (hok : MapOk c) (hlive : LiveAcross c d rest v)
    (hsaved : calleeSaved (homeOf c.vmap v) = true) :
    ∃ m, c.vmap.lookup v = some m ∧ Kept c (homeLoc m) := by
  obtain ⟨m, hm⟩ := Option.isSome_iff_exists.1 hlive.1
  rw [homeOf_of_lookup hm] at hsaved
  exact ⟨m, hm, hok.kept hm hsaved⟩

end OneCall

/-- A run that has come behind its first instruction has compiled it. -/
theorem compiled_of_reaches {remap : CStr → CStr} {arith : RvArith} {c c' : RvDirectCtx}
    {d : LrInst} {rest : List LrInst} {σ σ' : RvState}
    (h : Reaches remap arith c (d :: rest) σ c' ds' σ') (hrest : rest = between ++ ds') :
    ∃ c₁, rvCompileEmit remap d c = some ((), c₁) := by
  cases h with
  | here =>
    have hlen := congrArg List.length hrest
    rw [length_append, length_cons] at hlen
    omega
  | step hstep _ => exact ⟨_, hstep.1⟩

theorem calls_correct_iff {feat : RvFeatures} {func : LrFunc} {symbols : SymbolTable}
    {obj : Option Source.Object.ObjfileCtx} {buflen : Nat} {c₀ : RvDirectCtx}
    (hbegin : rvCompileBegin feat func symbols obj buflen = some c₀) (remap : CStr → CStr)
    (arith : RvArith) (ds : List LrInst) (σ₀ : RvState) :
    CallsCorrect remap arith c₀ ds σ₀ ↔ CallsClear remap arith c₀ ds σ₀ := by
  have hok₀ := rvCompileBegin_mapOk hbegin
  constructor
  · rintro h c d rest σ hreach hop ⟨c', hrun⟩
    have hok := hreach.mapOk hok₀
    obtain ⟨hargs, hvalues, -⟩ := h c d rest σ hreach hop
    obtain ⟨pre, hcall⟩ := emitCall_run hok.homes (call_of_compile hop hrun)
    obtain ⟨hconst, hclear⟩ := (argsPassed_iff hcall).1 (hargs c' hrun)
    refine ⟨hconst, hclear, fun v hlive => ?_⟩
    obtain ⟨-, between, use, rest', -, -, hdef⟩ := id hlive
    exact saved_of_values_kept hop hok hrun (hdef d mem_cons_self)
      fun σ' hstep => hvalues c' σ' hstep v hlive
  · intro h c d rest σ hreach hop
    have hok := hreach.mapOk hok₀
    refine ⟨fun c' hrun => ?_, fun c' σ' hstep v hlive => ?_, ?_⟩
    · obtain ⟨pre, hcall⟩ := emitCall_run hok.homes (call_of_compile hop hrun)
      obtain ⟨hconst, hclear, -⟩ := h c d rest σ hreach hop ⟨c', hrun⟩
      exact (argsPassed_iff hcall).2 ⟨hconst, hclear⟩
    · obtain ⟨-, -, hsaved⟩ := h c d rest σ hreach hop ⟨c', hstep.1⟩
      obtain ⟨m, hm, hkept⟩ := values_kept_of_saved hok hlive (hsaved v hlive)
      obtain ⟨-, between, use, rest', -, -, hdef⟩ := hlive
      obtain ⟨hhome, hregs⟩ := hstep.spec hok
      have hlookup := newHome_lookup hhome (hdef d mem_cons_self).symm
      rw [homeOf_of_lookup hm, homeOf_of_lookup (hlookup.trans hm)]
      exact hregs _ hkept
    · intro between use rest' c' σ' hrest hlater v huse hsome hdef
      have hlive : LiveAcross c d rest v := ⟨hsome, between, use, rest', hrest, huse, hdef⟩
      obtain ⟨-, -, hsaved⟩ := h c d rest σ hreach hop (compiled_of_reaches hlater hrest)
      obtain ⟨m, hm, hkept⟩ := values_kept_of_saved hok hlive (hsaved v hlive)
      have hds : d :: rest = (d :: between) ++ use :: rest' := by rw [hrest]; rfl
      obtain ⟨hlookup, hvalue⟩ := hlater.value_kept hok hds hdef hm hkept
      rw [homeOf_of_lookup hm, homeOf_of_lookup hlookup]
      exact hvalue

/-- `f(i64 %1, i64 %2)`, which may call `g`. -/
def twoParams : RvDirectCtx where
  buflen := 64
  vmap := [(2, ⟨.gpr, 11⟩), (1, ⟨.gpr, 10⟩)]
  symbols := ⟨[[103]], [symbolHash [103]], 0, []⟩
  obj := some ⟨[], [], []⟩
  feat := rvFeatGc
  hasCurrentBlock := true

def twoParamsFunc : LrFunc where
  name := [102]
  symbolId := 1
  type := .scalar 0 .void
  retType := .scalar 0 .void
  paramTypes := [.scalar 1 .i64, .scalar 1 .i64]
  vararg := false

def callOfTwo (v w : Nat) : LrInst where
  op := .call
  type := none
  dest := 0
  operands := [⟨.global 0, none, 0⟩, ⟨.vreg v, some (.scalar 1 .i64), 0⟩,
    ⟨.vreg w, some (.scalar 1 .i64), 0⟩]

def noArith : RvArith := fun _ _ => 0

theorem calls_correct_iff_inPlace :
    CallsCorrect id noArith twoParams [callOfTwo 1 2] fun _ => 0 := by
  have hbegin : rvCompileBegin rvFeatGc twoParamsFunc twoParams.symbols twoParams.obj 64 =
      some twoParams := by decide
  refine (calls_correct_iff hbegin id noArith [callOfTwo 1 2] fun _ => 0).2 ?_
  intro c d rest σ hreach hop _
  cases hreach with
  | here =>
    refine ⟨?_, ⟨rfl, rfl, trivial⟩, ?_⟩
    · intro op hop
      obtain rfl | hop := mem_cons.1 hop
      · exact ⟨nofun, nofun⟩
      · obtain rfl := mem_singleton.1 hop
        exact ⟨nofun, nofun⟩
    · rintro v ⟨-, between, use, rest', hrest, -⟩
      have hlen := congrArg List.length hrest
      rw [length_append, length_cons, length_nil] at hlen
      omega
  | step _ hrest => cases hrest

/-- The second argument is read from a0, where the first one has been moved. -/
theorem swapped_args_clobbered :
    ¬ CallsCorrect id noArith twoParams [callOfTwo 2 1]
      fun l => if l = .x rvA0 then 7 else 9 := by
  intro h
  obtain ⟨hargs, -⟩ := h _ _ _ _ (.here _ _ _) rfl
  obtain ⟨c', hc', hcode⟩ : ∃ c', rvCompileEmit id (callOfTwo 2 1) twoParams = some ((), c') ∧
      c'.code = [mvInst rvS1 rvRa, mvInst 10 11, mvInst 11 10, .j rvRa rvOpcodeJal] :=
    ⟨_, rfl, by decide⟩
  have hsecond := hargs c' hc' [mvInst rvS1 rvRa, mvInst 10 11, mvInst 11 10] hcode
    (⟨.vreg 1, some (.scalar 1 .i64), 0⟩, .x 11) (by decide)
  exact absurd hsecond (by decide)

end Liric.Guarantees.RiscvCalls
