import Liric.Lib.Buffer

/-!
# Programs that write into a buffer of limited size

A program appends bytes, reads its position, patches words, asks for numbers and notes events.
Behind the end of the buffer bytes are dropped while the position goes on, and a patch that
does not fit is left out, so the position tells how large a buffer would do. A `raw` byte is
written without looking at the size. No program can see the bytes or the size of its buffer.
-/
namespace Liric.Lib.BoundedEmit
open List

variable {Q E S α β : Type}

/-- `Q` are the questions, which are answered with numbers, and `E` the events. -/
inductive Code (Q E α : Type) where
  | ret (a : α)
  | fail
  | put (b : UInt8) (next : Code Q E α)
  | raw (b : UInt8) (next : Code Q E α)
  | pos (next : Nat → Code Q E α)
  | patch (place : Nat) (word : BitVec 32) (next : Code Q E α)
  | ask (q : Q) (next : Nat → Code Q E α)
  | note (e : E) (next : Code Q E α)

namespace Code

protected def bind : Code Q E α → (α → Code Q E β) → Code Q E β
  | .ret a, f => f a
  | .fail, _ => .fail
  | .put b next, f => .put b (next.bind f)
  | .raw b next, f => .raw b (next.bind f)
  | .pos next, f => .pos fun p => (next p).bind f
  | .patch place word next, f => .patch place word (next.bind f)
  | .ask q next, f => .ask q fun n => (next n).bind f
  | .note e next, f => .note e (next.bind f)

instance : Monad (Code Q E) where
  pure := .ret
  bind := Code.bind

def putAll : List UInt8 → Code Q E Unit
  | [] => .ret ()
  | b :: bs => .put b (putAll bs)

end Code

structure Buffer where
  bytes : List UInt8
  pos : Nat := 0
  /-- The places behind the end that were written. -/
  stray : List Nat := []
  deriving DecidableEq

namespace Buffer

def put (b : UInt8) (s : Buffer) : Buffer :=
  { s with
    bytes := if s.pos < s.bytes.length then s.bytes.set s.pos b else s.bytes
    pos := s.pos + 1 }

def raw (b : UInt8) (s : Buffer) : Buffer :=
  if s.pos < s.bytes.length then { s with bytes := s.bytes.set s.pos b, pos := s.pos + 1 }
  else { s with pos := s.pos + 1, stray := s.stray ++ [s.pos] }

def patch (place : Nat) (word : BitVec 32) (s : Buffer) : Buffer :=
  if place + 4 > s.bytes.length then s
  else { s with bytes := overwrite s.bytes place (leBytes 4 word.toNat) }

/-- Two buffers of any sizes with the same bytes in front of the position. -/
structure Alike (s t : Buffer) : Prop where
  pos : t.pos = s.pos
  bytes : ∀ i < s.pos, t.bytes[i]? = s.bytes[i]?

variable {s t : Buffer} {b : UInt8} {place : Nat} {word : BitVec 32}

@[simp] theorem put_pos : (s.put b).pos = s.pos + 1 := rfl

@[simp] theorem put_stray : (s.put b).stray = s.stray := rfl

@[simp] theorem put_length : (s.put b).bytes.length = s.bytes.length := by
  unfold put
  split <;> simp

@[simp] theorem raw_pos : (s.raw b).pos = s.pos + 1 := by
  unfold raw
  split <;> rfl

@[simp] theorem raw_length : (s.raw b).bytes.length = s.bytes.length := by
  unfold raw
  split <;> simp

/-- In the buffer a raw byte is like any other. -/
theorem raw_of_lt (h : s.pos < s.bytes.length) : s.raw b = s.put b := by
  rw [raw, put, if_pos h, if_pos h]

@[simp] theorem patch_pos : (s.patch place word).pos = s.pos := by
  unfold patch
  split <;> rfl

@[simp] theorem patch_stray : (s.patch place word).stray = s.stray := by
  unfold patch
  split <;> rfl

@[simp] theorem patch_length : (s.patch place word).bytes.length = s.bytes.length := by
  unfold patch
  split
  · rfl
  · next h => exact length_overwrite (by rw [length_leBytes]; omega)

theorem Alike.put (h : Alike s t) (hs : s.pos < s.bytes.length) (ht : t.pos < t.bytes.length)
    (b : UInt8) : Alike (s.put b) (t.put b) := by
  refine ⟨by simp [h.pos], fun i hi => ?_⟩
  have hlt : i < s.pos + 1 := hi
  have ht' : s.pos < t.bytes.length := h.pos ▸ ht
  simp only [Buffer.put, h.pos, if_pos hs, if_pos ht', getElem?_set]
  by_cases hlast : s.pos = i
  · rw [if_pos hlast, if_pos hlast]
  · rw [if_neg hlast, if_neg hlast]
    exact h.bytes i (by omega)

/-- A patch of bytes in front of the position is left out in neither. -/
theorem Alike.patch (h : Alike s t) (hs : s.pos ≤ s.bytes.length) (ht : t.pos ≤ t.bytes.length)
    (hplace : place + 4 ≤ s.pos) (word : BitVec 32) :
    Alike (s.patch place word) (t.patch place word) := by
  have hpos := h.pos
  refine ⟨by simp [hpos], fun i hi => ?_⟩
  rw [patch_pos] at hi
  rw [Buffer.patch, Buffer.patch, if_neg (by omega), if_neg (by omega)]
  simp only
  rw [getElem?_overwrite (by rw [length_leBytes]; omega),
    getElem?_overwrite (by rw [length_leBytes]; omega), h.bytes i hi]

end Buffer

structure Machine (S E : Type) where
  buffer : Buffer
  env : S
  notes : List E := []

def Machine.write (m : Machine S E) (f : Buffer → Buffer) : Machine S E :=
  { m with buffer := f m.buffer }

@[simp] theorem Machine.write_buffer (m : Machine S E) (f : Buffer → Buffer) :
    (m.write f).buffer = f m.buffer := rfl

namespace Code
variable (answer : S → Q → S × Nat)

/-- Questions may change what they are asked of. -/
def run : Code Q E α → Machine S E → Option α × Machine S E
  | .ret a, m => (some a, m)
  | .fail, m => (none, m)
  | .put b next, m => next.run (m.write (Buffer.put b))
  | .raw b next, m => next.run (m.write (Buffer.raw b))
  | .pos next, m => (next m.buffer.pos).run m
  | .patch place word next, m => next.run (m.write (Buffer.patch place word))
  | .ask q next, m => (next (answer m.env q).2).run { m with env := (answer m.env q).1 }
  | .note e next, m => next.run { m with notes := m.notes ++ [e] }

/-- Where the raw bytes are, in any buffer. -/
def rawPlaces : Code Q E α → S → Nat → List Nat
  | .ret _, _, _ => []
  | .fail, _, _ => []
  | .put _ next, env, p => next.rawPlaces env (p + 1)
  | .raw _ next, env, p => p :: next.rawPlaces env (p + 1)
  | .pos next, env, p => (next p).rawPlaces env p
  | .patch _ _ next, env, p => next.rawPlaces env p
  | .ask q next, env, p => (next (answer env q).2).rawPlaces (answer env q).1 p
  | .note _ next, env, p => next.rawPlaces env p

/-- From position `p` on each patch is of bytes that were appended, raw bytes are written only
if `raws` says so, and `Post` holds in the end. -/
def Behind (raws : Bool) : Code Q E α → Nat → (α → Nat → Prop) → Prop
  | .ret a, p, Post => Post a p
  | .fail, _, _ => True
  | .put _ next, p, Post => next.Behind raws (p + 1) Post
  | .raw _ next, p, Post => raws = true ∧ next.Behind raws (p + 1) Post
  | .pos next, p, Post => (next p).Behind raws p Post
  | .patch place _ next, p, Post => place + 4 ≤ p ∧ next.Behind raws p Post
  | .ask _ next, p, Post => ∀ n, (next n).Behind raws p Post
  | .note _ next, p, Post => next.Behind raws p Post

/-- Bytes are appended with `put` and not patched. -/
def Plain : Code Q E α → Prop
  | .ret _ => True
  | .fail => True
  | .put _ next => next.Plain
  | .raw _ _ => False
  | .pos next => ∀ p, (next p).Plain
  | .patch _ _ _ => False
  | .ask _ next => ∀ n, (next n).Plain
  | .note _ next => next.Plain

section Blind
variable {answer : S → Q → S × Nat}

/-- Two machines that differ in the bytes, the size and the strays of their buffers. -/
structure Blind (m n : Machine S E) : Prop where
  pos : n.buffer.pos = m.buffer.pos
  env : n.env = m.env
  notes : n.notes = m.notes

theorem Blind.write {m n : Machine S E} (h : Blind m n) {f g : Buffer → Buffer}
    (hpos : (g n.buffer).pos = (f m.buffer).pos) : Blind (m.write f) (n.write g) :=
  ⟨hpos, h.env, h.notes⟩

theorem run_blind (c : Code Q E α) {m n : Machine S E} (h : Blind m n) :
    (c.run answer n).1 = (c.run answer m).1 ∧ Blind (c.run answer m).2 (c.run answer n).2 := by
  induction c generalizing m n with
  | ret a => exact ⟨rfl, h⟩
  | fail => exact ⟨rfl, h⟩
  | put b next ih => exact ih (h.write (by simp [h.pos]))
  | raw b next ih => exact ih (h.write (by simp [h.pos]))
  | pos next ih =>
    rw [run, run, h.pos]
    exact ih _ h
  | patch place word next ih => exact ih (h.write (by simp [h.pos]))
  | ask q next ih =>
    rw [run, run, h.env]
    exact ih _ ⟨h.pos, rfl, h.notes⟩
  | note e next ih => exact ih ⟨h.pos, h.env, by rw [h.notes]⟩

end Blind

variable {Post : α → Nat → Prop}

section Run
variable {answer : S → Q → S × Nat} {m n : Machine S E} (c : Code Q E α)

theorem run_pos_le (answer : S → Q → S × Nat) (c : Code Q E α) (m : Machine S E) :
    m.buffer.pos ≤ (c.run answer m).2.buffer.pos := by
  induction c generalizing m with
  | ret a => exact le_rfl
  | fail => exact le_rfl
  | put b next ih => exact le_trans (Nat.le_succ _) (ih (m.write (Buffer.put b)))
  | raw b next ih =>
    have hnext : (m.buffer.raw b).pos ≤ _ := ih (m.write (Buffer.raw b))
    rw [Buffer.raw_pos] at hnext
    exact le_trans (Nat.le_succ _) hnext
  | pos next ih => exact ih _ m
  | patch place word next ih =>
    have hnext : (m.buffer.patch place word).pos ≤ _ := ih (m.write (Buffer.patch place word))
    rwa [Buffer.patch_pos] at hnext
  | ask q next ih => exact ih _ { m with env := (answer m.env q).1 }
  | note e next ih => exact ih { m with notes := m.notes ++ [e] }

/-- The strays are the raw bytes behind the end. -/
theorem run_stray (m : Machine S E) :
    (c.run answer m).2.buffer.stray = m.buffer.stray ++
      (c.rawPlaces answer m.env m.buffer.pos).filter fun p => m.buffer.bytes.length ≤ p := by
  induction c generalizing m with
  | ret a => simp [run, rawPlaces]
  | fail => simp [run, rawPlaces]
  | put b next ih => simp [run, rawPlaces, ih, Machine.write]
  | raw b next ih =>
    rw [run, rawPlaces, ih, Machine.write, Buffer.raw_length, Buffer.raw_pos, filter_cons]
    by_cases hin : m.buffer.pos < m.buffer.bytes.length
    · rw [if_neg (by simpa using hin), Buffer.raw_of_lt hin, Buffer.put_stray]
    · have hout : m.buffer.bytes.length ≤ m.buffer.pos := Nat.not_lt.1 hin
      rw [if_pos (by simpa using hout)]
      simp [Buffer.raw, hin]
  | pos next ih => exact ih _ m
  | patch place word next ih => simp [run, rawPlaces, ih, Machine.write]
  | ask q next ih => exact ih _ _
  | note e next ih => exact ih _

/-- Raw bytes are among the bytes of the program. -/
theorem rawPlaces_lt (m : Machine S E) :
    ∀ p ∈ c.rawPlaces answer m.env m.buffer.pos, p < (c.run answer m).2.buffer.pos := by
  induction c generalizing m with
  | ret a => simp [rawPlaces]
  | fail => simp [rawPlaces]
  | put b next ih => exact ih (m.write (Buffer.put b))
  | raw b next ih =>
    have hnext := ih (m.write (Buffer.raw b))
    have hle := run_pos_le answer next (m.write (Buffer.raw b))
    rw [Machine.write_buffer, Buffer.raw_pos] at hnext hle
    exact forall_mem_cons.2 ⟨hle, hnext⟩
  | pos next ih => exact ih _ m
  | patch place word next ih =>
    have hnext := ih (m.write (Buffer.patch place word))
    rwa [Machine.write_buffer, Buffer.patch_pos] at hnext
  | ask q next ih => exact ih _ { m with env := (answer m.env q).1 }
  | note e next ih => exact ih { m with notes := m.notes ++ [e] }

/-- Buffers that are large enough for the whole program get the same bytes. -/
theorem run_alike {raws : Bool} (hbehind : c.Behind raws m.buffer.pos Post) (hblind : Blind m n)
    (h : m.buffer.Alike n.buffer) (hm : (c.run answer m).2.buffer.pos ≤ m.buffer.bytes.length)
    (hn : (c.run answer n).2.buffer.pos ≤ n.buffer.bytes.length) :
    (c.run answer m).2.buffer.Alike (c.run answer n).2.buffer := by
  induction c generalizing m n with
  | ret a => exact h
  | fail => exact h
  | put b next ih =>
    have hle := run_pos_le answer next (m.write (Buffer.put b))
    have hle' := run_pos_le answer next (n.write (Buffer.put b))
    simp only [run, Machine.write_buffer, Buffer.put_pos] at hm hn hle hle'
    have hnext : (m.buffer.put b).Alike (n.buffer.put b) := h.put (by omega) (by omega) b
    exact ih hbehind (hblind.write hnext.pos) hnext (by simpa using hm) (by simpa using hn)
  | raw b next ih =>
    have hle := run_pos_le answer next (m.write (Buffer.raw b))
    have hle' := run_pos_le answer next (n.write (Buffer.raw b))
    simp only [run, Machine.write_buffer, Buffer.raw_pos] at hm hn hle hle'
    have hnext : (m.buffer.raw b).Alike (n.buffer.raw b) := by
      have hin : m.buffer.pos < m.buffer.bytes.length := by omega
      have hin' : n.buffer.pos < n.buffer.bytes.length := by omega
      rw [Buffer.raw_of_lt hin, Buffer.raw_of_lt hin']
      exact h.put hin hin' b
    have hnow : next.Behind raws (m.write (Buffer.raw b)).buffer.pos Post := by
      rw [Machine.write_buffer, Buffer.raw_pos]
      exact hbehind.2
    exact ih hnow (hblind.write hnext.pos) hnext (by simpa using hm) (by simpa using hn)
  | pos next ih =>
    simp only [run] at hm hn ⊢
    rw [hblind.pos] at hn ⊢
    exact ih _ hbehind hblind h hm hn
  | patch place word next ih =>
    obtain ⟨hplace, hbehind⟩ := hbehind
    have hle := run_pos_le answer next (m.write (Buffer.patch place word))
    have hle' := run_pos_le answer next (n.write (Buffer.patch place word))
    simp only [run, Machine.write_buffer, Buffer.patch_pos] at hm hn hle hle'
    have hnext : (m.buffer.patch place word).Alike (n.buffer.patch place word) :=
      h.patch (by omega) (by omega) hplace word
    have hnow : next.Behind raws (m.write (Buffer.patch place word)).buffer.pos Post := by
      simpa using hbehind
    exact ih hnow (hblind.write hnext.pos) hnext (by simpa using hm) (by simpa using hn)
  | ask q next ih =>
    simp only [run] at hm hn ⊢
    rw [hblind.env] at hn ⊢
    exact ih _ (hbehind _) ⟨hblind.pos, rfl, hblind.notes⟩ h hm hn
  | note e next ih => exact ih hbehind ⟨hblind.pos, hblind.env, by rw [hblind.notes]⟩ h hm hn

/-- New buffers that are large enough. -/
theorem run_fresh {raws : Bool} (hbehind : c.Behind raws 0 Post) (env : S) (w w' : List UInt8)
    (hw : (c.run answer ⟨⟨w, 0, []⟩, env, []⟩).2.buffer.pos ≤ w.length)
    (hw' : (c.run answer ⟨⟨w', 0, []⟩, env, []⟩).2.buffer.pos ≤ w'.length) :
    (c.run answer ⟨⟨w, 0, []⟩, env, []⟩).2.buffer.Alike
      (c.run answer ⟨⟨w', 0, []⟩, env, []⟩).2.buffer := by
  have hnone : (⟨w, 0, []⟩ : Buffer).Alike ⟨w', 0, []⟩ :=
    ⟨rfl, fun i hi => absurd hi (Nat.not_lt_zero i)⟩
  exact run_alike c hbehind ⟨rfl, rfl, rfl⟩ hnone hw hw'

end Run

/-- Answers do not change, and the same question changes nothing when it is asked again. -/
structure Stable (answer : S → Q → S × Nat) : Prop where
  again : ∀ s q, answer (answer s q).1 q = answer s q
  later : ∀ s q n r, answer s q = (s, n) → answer (answer s r).1 q = ((answer s r).1, n)

/-- What is known in `s` is known in `t`. -/
def Later (answer : S → Q → S × Nat) (s t : S) : Prop :=
  ∀ q n, answer s q = (s, n) → answer t q = (t, n)

section Again
variable {answer : S → Q → S × Nat}

theorem later_run (hstable : Stable answer) (c : Code Q E α) (m : Machine S E) :
    Later answer m.env (c.run answer m).2.env := by
  induction c generalizing m with
  | ret a => exact fun _ _ h => h
  | fail => exact fun _ _ h => h
  | put b next ih => exact ih (m.write (Buffer.put b))
  | raw b next ih => exact ih (m.write (Buffer.raw b))
  | pos next ih => exact ih _ m
  | patch place word next ih => exact ih (m.write (Buffer.patch place word))
  | ask q next ih =>
    intro r n h
    exact ih _ { m with env := (answer m.env q).1 } r n (hstable.later _ _ _ q h)
  | note e next ih => exact ih { m with notes := m.notes ++ [e] }

/-- A program that is run again, with what it has left in `t`, does the same and leaves `t`. -/
theorem run_again (hstable : Stable answer) (c : Code Q E α) (m : Machine S E) {t : S}
    (h : Later answer (c.run answer m).2.env t) :
    c.run answer { m with env := t } =
      ((c.run answer m).1, { (c.run answer m).2 with env := t }) := by
  induction c generalizing m with
  | ret a => rfl
  | fail => rfl
  | put b next ih => exact ih (m.write (Buffer.put b)) h
  | raw b next ih => exact ih (m.write (Buffer.raw b)) h
  | pos next ih => exact ih m.buffer.pos m h
  | patch place word next ih => exact ih (m.write (Buffer.patch place word)) h
  | ask q next ih =>
    have hknown : answer t q = (t, (answer m.env q).2) := by
      apply h
      exact later_run hstable (next (answer m.env q).2) { m with env := (answer m.env q).1 } q _
        (by rw [hstable.again])
    rw [run, hknown]
    exact ih _ { m with env := (answer m.env q).1 } h
  | note e next ih => exact ih { m with notes := m.notes ++ [e] } h

/-- What the answers leave alone. -/
theorem run_env {P : S → Prop} (hP : ∀ s q, P s → P (answer s q).1) (c : Code Q E α)
    {m : Machine S E} (h : P m.env) : P (c.run answer m).2.env := by
  induction c generalizing m with
  | ret a => exact h
  | fail => exact h
  | put b next ih => exact ih (m := m.write (Buffer.put b)) h
  | raw b next ih => exact ih (m := m.write (Buffer.raw b)) h
  | pos next ih => exact ih _ h
  | patch place word next ih => exact ih (m := m.write (Buffer.patch place word)) h
  | ask q next ih => exact ih _ (m := { m with env := (answer m.env q).1 }) (hP m.env q h)
  | note e next ih => exact ih (m := { m with notes := m.notes ++ [e] }) h

end Again

section Behind
variable {p : Nat} {raws : Bool}

variable {c : Code Q E α}

theorem Behind.mono {Post' : α → Nat → Prop} (h : c.Behind raws p Post)
    (hpost : ∀ a p', Post a p' → Post' a p') : c.Behind raws p Post' := by
  induction c generalizing p with
  | ret a => exact hpost a p h
  | fail => trivial
  | put b next ih => exact ih h
  | raw b next ih => exact ⟨h.1, ih h.2⟩
  | pos next ih => exact ih p h
  | patch place word next ih => exact ⟨h.1, ih h.2⟩
  | ask q next ih => exact fun n => ih n (h n)
  | note e next ih => exact ih h

variable {f : α → Code Q E β}

theorem Behind.bind {Post : β → Nat → Prop}
    (h : c.Behind raws p fun a p' => (f a).Behind raws p' Post) : (c >>= f).Behind raws p Post := by
  induction c generalizing p with
  | ret a => exact h
  | fail => trivial
  | put b next ih => exact ih h
  | raw b next ih => exact ⟨h.1, ih h.2⟩
  | pos next ih => exact ih p h
  | patch place word next ih => exact ⟨h.1, ih h.2⟩
  | ask q next ih => exact fun n => ih n (h n)
  | note e next ih => exact ih h

/-- `bind` with a postcondition of the first part. -/
theorem Behind.seq {Mid : α → Nat → Prop}
    {Post : β → Nat → Prop} (h : c.Behind raws p Mid)
    (hf : ∀ a p', Mid a p' → (f a).Behind raws p' Post) : (c >>= f).Behind raws p Post :=
  (h.mono hf).bind

theorem Behind.foldlM {γ : Type} {f : β → γ → Code Q E β} {Inv : β → Nat → Prop} (l : List γ)
    (hstep : ∀ b p, ∀ a ∈ l, Inv b p → (f b a).Behind raws p Inv) {b : β} (h : Inv b p) :
    (l.foldlM f b).Behind raws p Inv := by
  induction l generalizing b p with
  | nil => exact h
  | cons a l ih =>
    rw [foldlM_cons]
    apply (hstep b p a mem_cons_self h).seq
    intro b' p' h'
    exact ih (fun b p a ha => hstep b p a (mem_cons_of_mem _ ha)) h'

/-- Plain code patches nothing. -/
theorem Plain.behind (h : c.Plain) : c.Behind raws p fun _ p' => p ≤ p' := by
  have hall : ∀ r ≤ p, c.Behind raws p fun _ p' => r ≤ p' := by
    induction c generalizing p with
    | ret a => exact fun r hr => hr
    | fail => exact fun _ _ => trivial
    | put b next ih => exact fun r hr => ih h r (Nat.le_succ_of_le hr)
    | raw b next ih => exact h.elim
    | pos next ih => exact fun r hr => ih p (h p) r hr
    | patch place word next ih => exact h.elim
    | ask q next ih => exact fun r hr n => ih n (h n) r hr
    | note e next ih => exact fun r hr => ih h r hr
  exact hall p (le_refl p)

theorem behind_putAll (bs : List UInt8) :
    (putAll bs : Code Q E Unit).Behind raws p fun _ p' => p' = p + bs.length := by
  induction bs generalizing p with
  | nil => rfl
  | cons b bs ih =>
    have hrest : (putAll bs : Code Q E Unit).Behind raws (p + 1) _ := ih
    apply hrest.mono
    intro _ p' hp
    rw [hp, length_cons]
    omega

end Behind

end Code

/-- Programs that only append bytes in the buffer. -/
structure PlainCode (Q E α : Type) where
  code : Code Q E α
  plain : code.Plain

end Liric.Lib.BoundedEmit
