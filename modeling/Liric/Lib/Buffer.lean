import Liric.Lib.Bytes

/-!
# Writing into byte buffers

Slices of a buffer, overwriting at an offset, and series of writes: what stands in
the buffer after writes that do not overlap, whatever their order.
-/
namespace Liric.Lib
open List

variable {a n m off i lo hi : Nat} {buf bs : List UInt8} {ws : List (Nat × List UInt8)}

/-- The `n` bytes of `buf` from `off` on, as many as there are. -/
def bytesAt (buf : List UInt8) (off n : Nat) : List UInt8 := (buf.drop off).take n

/-- `buf` with `bs` copied over the bytes from `off` on. -/
def overwrite (buf : List UInt8) (off : Nat) (bs : List UInt8) : List UInt8 :=
  buf.take off ++ bs ++ buf.drop (off + bs.length)

/-- A series of writes, each an offset and the bytes to stand there. -/
def writes (buf : List UInt8) (ws : List (Nat × List UInt8)) : List UInt8 :=
  ws.foldl (fun b w => overwrite b w.1 w.2) buf

/-- The ranges `[a, a + n)` and `[b, b + m)` share no byte. -/
def Apart (a n b m : Nat) : Prop := a + n ≤ b ∨ b + m ≤ a

instance (a n b m : Nat) : Decidable (Apart a n b m) := inferInstanceAs (Decidable (_ ∨ _))

theorem Apart.symm {b : Nat} (h : Apart a n b m) : Apart b m a n := Or.symm h

theorem getElem?_bytesAt (buf : List UInt8) (off n i : Nat) :
    (bytesAt buf off n)[i]? = if i < n then buf[off + i]? else none := by
  rw [bytesAt, getElem?_take, getElem?_drop]

theorem length_bytesAt (h : off + n ≤ buf.length) : (bytesAt buf off n).length = n := by
  rw [bytesAt, length_take, length_drop]
  omega

theorem bytesAt_congr {buf' : List UInt8} (h : ∀ i < n, buf[off + i]? = buf'[off + i]?) :
    bytesAt buf off n = bytesAt buf' off n := by
  apply ext_getElem?
  intro i
  rw [getElem?_bytesAt, getElem?_bytesAt]
  by_cases hi : i < n
  · rw [if_pos hi, if_pos hi, h i hi]
  · rw [if_neg hi, if_neg hi]

theorem bytesAt_bytesAt (buf : List UInt8) {o k : Nat} (h : k + m ≤ n) :
    bytesAt (bytesAt buf o n) k m = bytesAt buf (o + k) m := by
  apply ext_getElem?
  intro i
  rw [getElem?_bytesAt, getElem?_bytesAt, getElem?_bytesAt]
  by_cases hi : i < m
  · rw [if_pos hi, if_pos hi, if_pos (by omega), Nat.add_assoc]
  · rw [if_neg hi, if_neg hi]

theorem bytesAt_add (buf : List UInt8) (off n m : Nat) :
    bytesAt buf off (n + m) = bytesAt buf off n ++ bytesAt buf (off + n) m := by
  rw [bytesAt, bytesAt, bytesAt, take_add, drop_drop]

@[simp] theorem bytesAt_zero_length (bs : List UInt8) : bytesAt bs 0 bs.length = bs := by
  rw [bytesAt, drop_zero, take_length]

theorem bytesAt_all (h : bs.length = n) : bytesAt bs 0 n = bs := by
  rw [← h, bytesAt_zero_length]

theorem bytesAt_append_left {as : List UInt8} (h : off + n ≤ as.length) :
    bytesAt (as ++ bs) off n = bytesAt as off n := by
  apply ext_getElem?
  intro i
  rw [getElem?_bytesAt, getElem?_bytesAt]
  by_cases hi : i < n
  · rw [if_pos hi, if_pos hi, getElem?_append_left (by omega)]
  · rw [if_neg hi, if_neg hi]

theorem bytesAt_append_right {as : List UInt8} (h : as.length ≤ off) :
    bytesAt (as ++ bs) off n = bytesAt bs (off - as.length) n := by
  rw [bytesAt, bytesAt, drop_append, drop_eq_nil_of_le h, nil_append]

theorem bytesAt_four (buf : List UInt8) (hi : i + 4 ≤ buf.length) :
    bytesAt buf i 4 =
      [buf.getD i 0, buf.getD (i + 1) 0, buf.getD (i + 2) 0, buf.getD (i + 3) 0] := by
  have hget : ∀ k < buf.length, buf.drop k = buf.getD k 0 :: buf.drop (k + 1) := by
    intro k hk
    rw [drop_eq_getElem_cons hk, getD_eq_getElem?_getD, getElem?_eq_getElem hk,
      Option.getD_some]
  rw [bytesAt, hget i (by omega), hget (i + 1) (by omega), hget (i + 2) (by omega),
    hget (i + 3) (by omega)]
  rfl

/-- The `i`-th row of a table of rows of one width. -/
theorem bytesAt_flatMap {α : Type} {width : Nat} (row : α → List UInt8)
    (hwidth : ∀ a, (row a).length = width) (l : List α) (h : i < l.length) :
    bytesAt (l.flatMap row) (i * width) width = row l[i] := by
  induction l generalizing i with
  | nil => exact absurd h (Nat.not_lt_zero i)
  | cons a l ih =>
    rw [flatMap_cons]
    cases i with
    | zero =>
      rw [Nat.zero_mul, bytesAt_append_left (by rw [hwidth]; omega), getElem_cons_zero,
        ← hwidth a, bytesAt_zero_length]
    | succ i =>
      have hi : i < l.length := Nat.lt_of_succ_lt_succ h
      have hoff : (i + 1) * width - (row a).length = i * width := by
        rw [hwidth, Nat.succ_mul, Nat.add_sub_cancel]
      have hle : (row a).length ≤ (i + 1) * width := by
        rw [hwidth, Nat.succ_mul]
        omega
      rw [bytesAt_append_right hle, hoff, ih hi, getElem_cons_succ]

theorem length_flatMap_width {α : Type} {width : Nat} (row : α → List UInt8)
    (hwidth : ∀ a, (row a).length = width) (l : List α) :
    (l.flatMap row).length = l.length * width := by
  induction l with
  | nil => simp
  | cons a l ih =>
    rw [flatMap_cons, length_append, hwidth, ih, length_cons, Nat.succ_mul, Nat.add_comm]

section
variable (h : off + bs.length ≤ buf.length)
include h

theorem length_overwrite : (overwrite buf off bs).length = buf.length := by
  rw [overwrite, length_append, length_append, length_take, length_drop]
  omega

theorem getElem?_overwrite (i : Nat) :
    (overwrite buf off bs)[i]? =
      if off ≤ i ∧ i < off + bs.length then bs[i - off]? else buf[i]? := by
  have htake : (buf.take off).length = off := by
    rw [length_take]
    omega
  rw [overwrite]
  by_cases hlow : i < off
  · rw [if_neg (by omega), append_assoc, getElem?_append_left (by omega),
      getElem?_take, if_pos hlow]
  · by_cases hmid : i < off + bs.length
    · rw [if_pos (by omega), getElem?_append_left (by rw [length_append]; omega),
        getElem?_append_right (by omega), htake]
    · rw [if_neg (by omega), getElem?_append_right (by rw [length_append]; omega),
        getElem?_drop, length_append, htake]
      congr 1
      omega

theorem bytesAt_overwrite_self : bytesAt (overwrite buf off bs) off bs.length = bs := by
  apply ext_getElem?
  intro i
  rw [getElem?_bytesAt, getElem?_overwrite h]
  by_cases hi : i < bs.length
  · rw [if_pos hi, if_pos (by omega), Nat.add_sub_cancel_left]
  · rw [if_neg hi, getElem?_eq_none (by omega)]

theorem getElem?_overwrite_of_apart (hi : i < off ∨ off + bs.length ≤ i) :
    (overwrite buf off bs)[i]? = buf[i]? := by
  rw [getElem?_overwrite h, if_neg (by omega)]

theorem bytesAt_overwrite_of_apart (hapart : Apart a n off bs.length) :
    bytesAt (overwrite buf off bs) a n = bytesAt buf a n := by
  apply bytesAt_congr
  intro i hi
  rw [Apart] at hapart
  exact getElem?_overwrite_of_apart h (by omega)

end

/-- Only the last of two writes at one place is left. -/
theorem overwrite_overwrite {bs' : List UInt8} (h : off + bs.length ≤ buf.length)
    (hlen : bs'.length = bs.length) :
    overwrite (overwrite buf off bs) off bs' = overwrite buf off bs' := by
  have houter : off + bs'.length ≤ (overwrite buf off bs).length := by
    rw [length_overwrite h, hlen]
    exact h
  have hdirect : off + bs'.length ≤ buf.length := hlen ▸ h
  apply ext_getElem?
  intro i
  rw [getElem?_overwrite houter, getElem?_overwrite hdirect]
  by_cases hi : off ≤ i ∧ i < off + bs'.length
  · rw [if_pos hi, if_pos hi]
  · rw [if_neg hi, if_neg hi, getElem?_overwrite h, if_neg (by omega)]

/-- A write goes byte by byte. -/
theorem overwrite_cons (b : UInt8) (bs : List UInt8) (h : off + (bs.length + 1) ≤ buf.length) :
    overwrite buf off (b :: bs) = overwrite (buf.set off b) (off + 1) bs := by
  apply ext_getElem?
  intro i
  have hset : off + 1 + bs.length ≤ (buf.set off b).length := by
    rw [length_set]
    omega
  rw [getElem?_overwrite h, getElem?_overwrite hset, getElem?_set, length_cons]
  by_cases hi : off = i
  · subst hi
    rw [if_pos (by omega), if_neg (by omega), if_pos rfl, if_pos (by omega), Nat.sub_self]
    rfl
  · rw [if_neg hi]
    by_cases hin : off + 1 ≤ i ∧ i < off + 1 + bs.length
    · have hsub : i - off = i - (off + 1) + 1 := by omega
      rw [if_pos (by omega), if_pos hin, hsub, getElem?_cons_succ]
    · rw [if_neg (by omega), if_neg hin]

variable (b₀ b₁ b₂ b₃ : UInt8)

theorem overwrite_four (h : off + 4 ≤ buf.length) :
    overwrite buf off [b₀, b₁, b₂, b₃] =
      (((buf.set off b₀).set (off + 1) b₁).set (off + 2) b₂).set (off + 3) b₃ := by
  have hnil : ∀ (l : List UInt8) (i : Nat), overwrite l i [] = l := by
    intro l i
    rw [overwrite, append_nil, length_nil, Nat.add_zero, take_append_drop]
  rw [overwrite_cons _ _ h, overwrite_cons, overwrite_cons, overwrite_cons, hnil]
  all_goals
    simp only [length_set, length_cons, length_nil]
    omega

@[simp] theorem writes_cons (buf : List UInt8) (w : Nat × List UInt8)
    (ws : List (Nat × List UInt8)) :
    writes buf (w :: ws) = writes (overwrite buf w.1 w.2) ws := rfl

theorem writes_append (buf : List UInt8) (us ws : List (Nat × List UInt8)) :
    writes buf (us ++ ws) = writes (writes buf us) ws := by
  rw [writes, writes, writes, foldl_append]

/-- Every write of the series stays inside a buffer of `n` bytes. -/
def Inside (n : Nat) (ws : List (Nat × List UInt8)) : Prop :=
  ∀ w ∈ ws, w.1 + w.2.length ≤ n

/-- No two writes of the series touch one byte. -/
def PairwiseApart (ws : List (Nat × List UInt8)) : Prop :=
  ws.Pairwise (fun u w => Apart u.1 u.2.length w.1 w.2.length)

theorem length_writes (h : Inside buf.length ws) : (writes buf ws).length = buf.length := by
  induction ws generalizing buf with
  | nil => rfl
  | cons w ws ih =>
    have hw := h w mem_cons_self
    have hlen := length_overwrite hw
    have htail : Inside (overwrite buf w.1 w.2).length ws := by
      rw [hlen]
      exact fun u hu => h u (mem_cons_of_mem w hu)
    rw [writes_cons, ih htail, hlen]

theorem getElem?_writes_of_apart (h : Inside buf.length ws)
    (hi : ∀ w ∈ ws, i < w.1 ∨ w.1 + w.2.length ≤ i) : (writes buf ws)[i]? = buf[i]? := by
  induction ws generalizing buf with
  | nil => rfl
  | cons w ws ih =>
    have hw := h w mem_cons_self
    have htail : Inside (overwrite buf w.1 w.2).length ws := by
      rw [length_overwrite hw]
      exact fun u hu => h u (mem_cons_of_mem w hu)
    rw [writes_cons, ih htail (fun u hu => hi u (mem_cons_of_mem w hu)),
      getElem?_overwrite_of_apart hw (hi w mem_cons_self)]

theorem bytesAt_writes_of_apart (h : Inside buf.length ws)
    (hapart : ∀ w ∈ ws, Apart a n w.1 w.2.length) :
    bytesAt (writes buf ws) a n = bytesAt buf a n := by
  apply bytesAt_congr
  intro i hi
  apply getElem?_writes_of_apart h
  intro w hw
  have := hapart w hw
  rw [Apart] at this
  omega

/-- Two writes of the series are the same or touch no common byte. -/
def NoClash (ws : List (Nat × List UInt8)) : Prop :=
  ws.Pairwise (fun u w => u = w ∨ Apart u.1 u.2.length w.1 w.2.length)

/-- What stands in the buffer stays if every write repeats it or is elsewhere. -/
theorem bytesAt_writes_of_kept (h : Inside buf.length ws) {u : Nat × List UInt8}
    (hu : bytesAt buf u.1 u.2.length = u.2)
    (hkept : ∀ w ∈ ws, u = w ∨ Apart u.1 u.2.length w.1 w.2.length) :
    bytesAt (writes buf ws) u.1 u.2.length = u.2 := by
  induction ws generalizing buf with
  | nil => exact hu
  | cons w ws ih =>
    have hw := h w mem_cons_self
    have htail : Inside (overwrite buf w.1 w.2).length ws := by
      rw [length_overwrite hw]
      exact fun v hv => h v (mem_cons_of_mem w hv)
    rw [writes_cons]
    apply ih htail _ (fun v hv => hkept v (mem_cons_of_mem w hv))
    rcases hkept w mem_cons_self with rfl | hapart
    · exact bytesAt_overwrite_self hw
    · rw [bytesAt_overwrite_of_apart hw hapart, hu]

/-- Writes that do not clash are all to be found afterwards. -/
theorem bytesAt_writes (h : Inside buf.length ws) (hclash : NoClash ws) {w : Nat × List UInt8}
    (hw : w ∈ ws) :
    bytesAt (writes buf ws) w.1 w.2.length = w.2 := by
  induction ws generalizing buf with
  | nil => exact absurd hw not_mem_nil
  | cons u ws ih =>
    have hu := h u mem_cons_self
    have htail : Inside (overwrite buf u.1 u.2).length ws := by
      rw [length_overwrite hu]
      exact fun v hv => h v (mem_cons_of_mem u hv)
    obtain ⟨hhead, hrest⟩ := pairwise_cons.mp hclash
    rw [writes_cons]
    rcases mem_cons.mp hw with rfl | hmem
    · exact bytesAt_writes_of_kept htail (bytesAt_overwrite_self hu) hhead
    · exact ih htail hrest hmem

theorem PairwiseApart.noClash (h : PairwiseApart ws) : NoClash ws :=
  List.Pairwise.imp Or.inr h

/-- The writes stand in order between `lo` and `hi`, each behind the one before it. -/
def Ordered (lo : Nat) : List (Nat × List UInt8) → Nat → Prop
  | [], hi => lo ≤ hi
  | w :: ws, hi => lo ≤ w.1 ∧ Ordered (w.1 + w.2.length) ws hi

theorem Ordered.mono {lo' : Nat} (h : Ordered lo ws hi) (hle : lo' ≤ lo) : Ordered lo' ws hi := by
  cases ws with
  | nil => exact le_trans hle h
  | cons w ws => exact ⟨le_trans hle h.1, h.2⟩

theorem Ordered.append {us : List (Nat × List UInt8)} (hus : Ordered lo us m)
    (hws : Ordered m ws hi) : Ordered lo (us ++ ws) hi := by
  induction us generalizing lo with
  | nil => exact hws.mono hus
  | cons u us ih => exact ⟨hus.1, ih hus.2⟩

theorem Ordered.single (hlo : lo ≤ off) (hhi : off + bs.length ≤ hi) : Ordered lo [(off, bs)] hi :=
  ⟨hlo, hhi⟩

theorem Ordered.optional {b : Bool} (hlo : lo ≤ off) (hhi : off + bs.length ≤ hi) :
    Ordered lo (if b then [(off, bs)] else []) hi := by
  cases b with
  | false => exact le_trans hlo (le_trans (Nat.le_add_right _ _) hhi)
  | true => exact Ordered.single hlo hhi

theorem Ordered.bounds (h : Ordered lo ws hi) :
    lo ≤ hi ∧ ∀ w ∈ ws, lo ≤ w.1 ∧ w.1 + w.2.length ≤ hi := by
  induction ws generalizing lo with
  | nil => exact ⟨h, fun w hw => absurd hw not_mem_nil⟩
  | cons u ws ih =>
    obtain ⟨hle, hrest⟩ := h
    obtain ⟨hhi, hmem⟩ := ih hrest
    constructor
    · omega
    · intro w hw
      rcases mem_cons.mp hw with rfl | hw
      · omega
      · have := hmem w hw
        omega

theorem Ordered.inside (h : Ordered lo ws hi) : Inside hi ws :=
  fun w hw => (h.bounds.2 w hw).2

theorem Ordered.apart (h : Ordered lo ws hi) : PairwiseApart ws := by
  induction ws generalizing lo with
  | nil => exact List.Pairwise.nil
  | cons u ws ih =>
    obtain ⟨-, hrest⟩ := h
    apply pairwise_cons.mpr
    constructor
    · intro w hw
      exact Or.inl (hrest.bounds.2 w hw).1
    · exact ih hrest

def wordOf (bs : List UInt8) : BitVec 32 := BitVec.ofNat 32 (leNat bs)

@[simp] theorem wordOf_leBytes (word : BitVec 32) : wordOf (leBytes 4 word.toNat) = word := by
  apply BitVec.eq_of_toNat_eq
  have hlt := word.isLt
  rw [wordOf, leNat_leBytes, BitVec.toNat_ofNat]
  omega

theorem or_mul {b k : Nat} (a : Nat) (hb : b < 2 ^ k) : a * 2 ^ k ||| b = a * 2 ^ k + b := by
  rw [← Nat.shiftLeft_eq, Nat.shiftLeft_add_eq_or_of_lt hb]

/-- Four bytes as a word: the parts have no bit in common. -/
theorem toNat_or_bytes :
    (b₀.toBitVec.setWidth 32 <<< 24 ||| b₁.toBitVec.setWidth 32 <<< 16 |||
      b₂.toBitVec.setWidth 32 <<< 8 ||| b₃.toBitVec.setWidth 32 : BitVec 32).toNat =
        b₀.toNat * 2 ^ 24 + b₁.toNat * 2 ^ 16 + b₂.toNat * 2 ^ 8 + b₃.toNat := by
  have h₁ : b₁.toNat < 256 := b₁.toNat_lt
  have h₂ : b₂.toNat < 256 := b₂.toNat_lt
  have h₃ : b₃.toNat < 256 := b₃.toNat_lt
  have hbyte : ∀ (b : UInt8) (k : Nat), k ≤ 24 →
      (b.toBitVec.setWidth 32 <<< k : BitVec 32).toNat = b.toNat * 2 ^ k := by
    intro b k hk
    have hb : b.toNat < 2 ^ 8 := b.toNat_lt
    have hlt : b.toNat * 2 ^ k < 2 ^ 32 := calc
      b.toNat * 2 ^ k < 2 ^ 8 * 2 ^ k := Nat.mul_lt_mul_of_pos_right hb (Nat.two_pow_pos k)
      _ = 2 ^ (8 + k) := (Nat.pow_add 2 8 k).symm
      _ ≤ 2 ^ 32 := Nat.pow_le_pow_right (by decide) (by omega)
    have hsmall : b.toNat < 2 ^ 32 := lt_of_lt_of_le hb (by decide)
    rw [BitVec.toNat_shiftLeft, BitVec.toNat_setWidth, UInt8.toNat_toBitVec,
      Nat.mod_eq_of_lt hsmall, Nat.shiftLeft_eq, Nat.mod_eq_of_lt hlt]
  have hlow := hbyte b₃ 0 (by decide)
  rw [BitVec.shiftLeft_zero, Nat.pow_zero, Nat.mul_one] at hlow
  rw [BitVec.toNat_or, BitVec.toNat_or, BitVec.toNat_or, hbyte b₀ 24 (by decide),
    hbyte b₁ 16 (by decide), hbyte b₂ 8 (by decide), hlow]
  have htop : b₀.toNat * 2 ^ 24 ||| b₁.toNat * 2 ^ 16 =
      (b₀.toNat * 2 ^ 8 + b₁.toNat) * 2 ^ 16 := by
    rw [or_mul _ (by omega)]
    omega
  have hmid : (b₀.toNat * 2 ^ 8 + b₁.toNat) * 2 ^ 16 ||| b₂.toNat * 2 ^ 8 =
      (b₀.toNat * 2 ^ 16 + b₁.toNat * 2 ^ 8 + b₂.toNat) * 2 ^ 8 := by
    rw [or_mul _ (by omega)]
    omega
  rw [htop, hmid, or_mul _ (by omega)]
  omega

/-- The bytes of a word, the lowest first. -/
theorem leBytes_word (v : BitVec 32) : leBytes 4 v.toNat =
    [UInt8.ofBitVec (v.setWidth 8), UInt8.ofBitVec ((v >>> 8).setWidth 8),
      UInt8.ofBitVec ((v >>> 16).setWidth 8), UInt8.ofBitVec ((v >>> 24).setWidth 8)] := by
  have hbyte : ∀ k, UInt8.ofBitVec ((v >>> k).setWidth 8) = UInt8.ofNat (v.toNat / 2 ^ k) := by
    intro k
    apply UInt8.toNat_inj.1
    rw [UInt8.toNat_ofBitVec, BitVec.toNat_setWidth, BitVec.toNat_ushiftRight,
      Nat.shiftRight_eq_div_pow, UInt8.toNat_ofNat']
  have hlow := hbyte 0
  rw [BitVec.ushiftRight_zero, Nat.pow_zero, Nat.div_one] at hlow
  have hbytes : ∀ n : Nat, leBytes 4 n =
      [UInt8.ofNat n, UInt8.ofNat (n / 256), UInt8.ofNat (n / 256 / 256),
        UInt8.ofNat (n / 256 / 256 / 256)] := fun n => rfl
  rw [hbyte, hbyte, hbyte, hlow, hbytes, Nat.div_div_eq_div_mul, Nat.div_div_eq_div_mul]
  rfl

/-- The word of four bytes, the lowest first. -/
theorem wordOf_four : wordOf [b₀, b₁, b₂, b₃] =
    b₀.toBitVec.setWidth 32 ||| b₁.toBitVec.setWidth 32 <<< 8 |||
      b₂.toBitVec.setWidth 32 <<< 16 ||| b₃.toBitVec.setWidth 32 <<< 24 := by
  have h₀ := b₀.toNat_lt
  have h₁ := b₁.toNat_lt
  have h₂ := b₂.toNat_lt
  have h₃ := b₃.toNat_lt
  have horder : ∀ x y z t : BitVec 32, x ||| y ||| z ||| t = t ||| z ||| y ||| x := by
    intro x y z t
    rw [BitVec.or_comm _ t, BitVec.or_comm _ z, BitVec.or_comm x y, ← BitVec.or_assoc,
      ← BitVec.or_assoc]
  have hnum : leNat [b₀, b₁, b₂, b₃] =
      b₀.toNat + 256 * (b₁.toNat + 256 * (b₂.toNat + 256 * (b₃.toNat + 256 * 0))) := rfl
  apply BitVec.eq_of_toNat_eq
  rw [horder, toNat_or_bytes, wordOf, BitVec.toNat_ofNat, hnum]
  omega

/-- A change of the `width` bytes at an offset, in terms of what stands there. -/
structure Patch where
  off : Nat
  width : Nat
  change : List UInt8 → List UInt8

def applyPatch (buf : List UInt8) (p : Patch) : List UInt8 :=
  overwrite buf p.off (p.change (bytesAt buf p.off p.width))

def patches (buf : List UInt8) (ps : List Patch) : List UInt8 := ps.foldl applyPatch buf

/-- A change of the word at an offset. -/
def patchWord (off : Nat) (f : BitVec 32 → BitVec 32) : Patch :=
  { off, width := 4, change := fun bs => leBytes 4 (f (wordOf bs)).toNat }

/-- A change of the eight bytes at an offset, as a number. -/
def patchQuad (off : Nat) (f : Nat → Nat) : Patch :=
  { off, width := 8, change := fun bs => leBytes 8 (f (leNat bs)) }

/-- The patch lies inside a buffer of `n` bytes and changes no length. -/
structure Patch.Fits (n : Nat) (p : Patch) : Prop where
  inside : p.off + p.width ≤ n
  keepsWidth : ∀ bs : List UInt8, bs.length = p.width → (p.change bs).length = p.width

variable {f : BitVec 32 → BitVec 32}

theorem patchWord_fits (h : off + 4 ≤ n) : (patchWord off f).Fits n :=
  ⟨h, fun bs _ => length_leBytes 4 (f (wordOf bs)).toNat⟩

theorem patchQuad_fits {f : Nat → Nat} (h : off + 8 ≤ n) : (patchQuad off f).Fits n :=
  ⟨h, fun bs _ => length_leBytes 8 (f (leNat bs))⟩

variable {p : Patch}

theorem Patch.Fits.length_change (h : p.Fits buf.length) :
    (p.change (bytesAt buf p.off p.width)).length = p.width :=
  h.keepsWidth _ (length_bytesAt h.inside)

theorem length_applyPatch (h : p.Fits buf.length) : (applyPatch buf p).length = buf.length := by
  apply length_overwrite
  rw [h.length_change]
  exact h.inside

theorem bytesAt_applyPatch (h : p.Fits buf.length) :
    bytesAt (applyPatch buf p) p.off p.width = p.change (bytesAt buf p.off p.width) := by
  have hwidth := h.length_change
  have hover : bytesAt (applyPatch buf p) p.off (p.change (bytesAt buf p.off p.width)).length = _ :=
    bytesAt_overwrite_self (by rw [hwidth]; exact h.inside)
  rw [hwidth] at hover
  exact hover

theorem applyPatch_patchWord (buf : List UInt8) (off : Nat) (f : BitVec 32 → BitVec 32) :
    applyPatch buf (patchWord off f) =
      overwrite buf off (leBytes 4 (f (wordOf (bytesAt buf off 4))).toNat) := rfl

/-- The second of two changes of a word stands, if it does not look at what the first changed. -/
theorem applyPatch_applyPatch {g : BitVec 32 → BitVec 32} (h : off + 4 ≤ buf.length)
    (hfg : ∀ w, g (f w) = g w) :
    applyPatch (applyPatch buf (patchWord off f)) (patchWord off g) =
      applyPatch buf (patchWord off g) := by
  have hword : wordOf (bytesAt (applyPatch buf (patchWord off f)) off 4) =
      f (wordOf (bytesAt buf off 4)) := by
    have hbytes := bytesAt_applyPatch (patchWord_fits (f := f) h)
    exact (congrArg wordOf hbytes).trans (wordOf_leBytes _)
  rw [applyPatch_patchWord _ off g, applyPatch_patchWord _ off g, hword, hfg, applyPatch_patchWord]
  refine overwrite_overwrite ?_ ?_
  · rw [length_leBytes]
    exact h
  · rw [length_leBytes, length_leBytes]

theorem getElem?_applyPatch_of_apart (h : p.Fits buf.length)
    (hi : i < p.off ∨ p.off + p.width ≤ i) : (applyPatch buf p)[i]? = buf[i]? := by
  have hlen := h.length_change
  apply getElem?_overwrite_of_apart
  · rw [hlen]
    exact h.inside
  · rw [hlen]
    exact hi

section
variable {ps : List Patch} (h : ∀ p ∈ ps, p.Fits buf.length)
include h

theorem length_patches : (patches buf ps).length = buf.length := by
  induction ps generalizing buf with
  | nil => rfl
  | cons p ps ih =>
    have hp := length_applyPatch (h p mem_cons_self)
    have htail : ∀ q ∈ ps, q.Fits (applyPatch buf p).length := by
      rw [hp]
      exact fun q hq => h q (mem_cons_of_mem p hq)
    exact (ih htail).trans hp

theorem getElem?_patches_of_apart (hi : ∀ p ∈ ps, i < p.off ∨ p.off + p.width ≤ i) :
    (patches buf ps)[i]? = buf[i]? := by
  induction ps generalizing buf with
  | nil => rfl
  | cons p ps ih =>
    have hp := length_applyPatch (h p mem_cons_self)
    have htail : ∀ q ∈ ps, q.Fits (applyPatch buf p).length := by
      rw [hp]
      exact fun q hq => h q (mem_cons_of_mem p hq)
    have hrest := ih htail (fun q hq => hi q (mem_cons_of_mem p hq))
    exact hrest.trans
      (getElem?_applyPatch_of_apart (h p mem_cons_self) (hi p mem_cons_self))

theorem bytesAt_patches_of_apart (hapart : ∀ p ∈ ps, Apart a n p.off p.width) :
    bytesAt (patches buf ps) a n = bytesAt buf a n := by
  apply bytesAt_congr
  intro i hi
  apply getElem?_patches_of_apart h
  intro p hp
  have := hapart p hp
  rw [Apart] at this
  omega

/-- Patches that do not overlap each change what stood there at the start. -/
theorem bytesAt_patches (hapart : ps.Pairwise (fun p q => Apart p.off p.width q.off q.width)) (hp : p ∈ ps) :
    bytesAt (patches buf ps) p.off p.width = p.change (bytesAt buf p.off p.width) := by
  induction ps generalizing buf with
  | nil => exact absurd hp not_mem_nil
  | cons q ps ih =>
    have hq := h q mem_cons_self
    have hlen := length_applyPatch hq
    have hwidth := hq.length_change
    have htail : ∀ r ∈ ps, r.Fits (applyPatch buf q).length := by
      rw [hlen]
      exact fun r hr => h r (mem_cons_of_mem q hr)
    obtain ⟨hhead, hrest⟩ := pairwise_cons.mp hapart
    rcases mem_cons.mp hp with rfl | hmem
    · exact (bytesAt_patches_of_apart htail hhead).trans (bytesAt_applyPatch hq)
    · have hother : bytesAt (applyPatch buf q) p.off p.width = bytesAt buf p.off p.width := by
        apply bytesAt_overwrite_of_apart
        · rw [hwidth]
          exact hq.inside
        · rw [hwidth]
          exact (hhead p hmem).symm
      have hrun := ih htail hrest hmem
      rw [hother] at hrun
      exact hrun

end

section Stacked
variable {Range : Type*} {start len : Range → Nat}

/-- Ranges that share no byte, and the cursor past all of them. -/
structure Stacked (start len : Range → Nat) (ranges : List Range) (cursor : Nat) : Prop where
  apart : ranges.Pairwise fun r s => Apart (start r) (len r) (start s) (len s)
  below : ∀ r ∈ ranges, start r + len r ≤ cursor

theorem Stacked.nil (start len : Range → Nat) : Stacked start len [] 0 where
  apart := .nil
  below := by simp

theorem Stacked.push {ranges : List Range} {cursor : Nat} (h : Stacked start len ranges cursor)
    {r : Range} (hstart : cursor ≤ start r) :
    Stacked start len (ranges ++ [r]) (start r + len r) where
  apart := by
    rw [pairwise_append]
    refine ⟨h.apart, pairwise_singleton _ _, fun s hs r' hr' => ?_⟩
    rw [mem_singleton.mp hr']
    exact .inl ((h.below s hs).trans hstart)
  below := by
    intro s hs
    rcases mem_append.mp hs with hs | hs
    · have hbelow := h.below s hs
      omega
    · rw [mem_singleton.mp hs]

end Stacked

end Liric.Lib
