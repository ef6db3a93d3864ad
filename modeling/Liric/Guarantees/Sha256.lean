import Liric.Lib.Sha256
import Liric.Source.Sha256

/-!
# SHA-256 of a message in chunks

The constants, the functions and the compression of the source are those of the standard. A
context has been fed whole blocks, which are absorbed, and a rest, which stands in the buffer;
an update keeps that up for any chunk, and the padding is two more updates.
-/
namespace Liric.Guarantees.Sha256
open Lib Lib.Sha256 Source List

variable {i : Nat} {block whole rest : List UInt8} {ctx : Sha256Ctx}

/-- The state of the source as that of the standard. -/
def vars (s : Sha256State) : Vars := ⟨s.a, s.b, s.c, s.d, s.e, s.f, s.g, s.h⟩

theorem shaRR_eq (x : BitVec 32) {n : Nat} (hn : n < 32) : shaRR x n = x.rotateRight n := by
  rw [shaRR, BitVec.rotateRight_def, Nat.mod_eq_of_lt hn]

theorem shaS0_eq (a : BitVec 32) : shaS0 a = bigSigma0 a := by
  rw [shaS0, shaRR_eq a (by decide), shaRR_eq a (by decide), shaRR_eq a (by decide)]
  rfl

theorem shaS1_eq (e : BitVec 32) : shaS1 e = bigSigma1 e := by
  rw [shaS1, shaRR_eq e (by decide), shaRR_eq e (by decide), shaRR_eq e (by decide)]
  rfl

theorem shaSIG0_eq (x : BitVec 32) : shaSIG0 x = smallSigma0 x := by
  rw [shaSIG0, shaRR_eq x (by decide), shaRR_eq x (by decide)]
  rfl

theorem shaSIG1_eq (x : BitVec 32) : shaSIG1 x = smallSigma1 x := by
  rw [shaSIG1, shaRR_eq x (by decide), shaRR_eq x (by decide)]
  rfl

/-- The table is that of the cube roots. -/
theorem sha256K_eq : sha256K = (range 64).map roundConstant := by decide +kernel

theorem init_eq (buf : List UInt8) : vars (lrSha256Init buf).state = initial := by
  have hroots : (⟨0x6a09e667, 0xbb67ae85, 0x3c6ef372, 0xa54ff53a, 0x510e527f, 0x9b05688c,
    0x1f83d9ab, 0x5be0cd19⟩ : Vars) = initial := by decide +kernel
  exact hroots

theorem getD_range_map {A : Type} (f : Nat → A) {n : Nat} (hi : i < n) (a : A) :
    ((range n).map f).getD i a = f i := by
  rw [getD_eq_getElem?_getD, getElem?_map, getElem?_range hi]
  rfl

theorem be32_eq (block : List UInt8) (hi : i + 4 ≤ block.length) :
    be32 block i = beWord (bytesAt block i 4) := by
  apply BitVec.eq_of_toNat_eq
  have h₀ := (block.getD i 0).toNat_lt
  have h₁ := (block.getD (i + 1) 0).toNat_lt
  have h₂ := (block.getD (i + 2) 0).toNat_lt
  have h₃ := (block.getD (i + 3) 0).toNat_lt
  rw [bytesAt_four block hi, beWord, BitVec.toNat_ofNat]
  refine (toNat_or_bytes _ _ _ _).trans ?_
  simp only [reverse_cons, reverse_nil, nil_append, cons_append, leNat, Nat.add_zero]
  omega

/-- The words of a block, as far as they have been computed. -/
theorem shaWords_prefix (hlen : block.length = 64) (k : Nat) :
    (range k).foldl (fun w k =>
        let i := k + 16
        w ++ [shaSIG1 (w.getD (i - 2) 0) + w.getD (i - 7) 0 + shaSIG0 (w.getD (i - 15) 0) +
          w.getD (i - 16) 0])
      ((range 16).map fun i => be32 block (i * 4)) =
    (range (16 + k)).map (schedule block) := by
  induction k with
  | zero =>
    refine map_congr_left fun i hi => ?_
    rw [mem_range] at hi
    rw [schedule, if_pos hi, be32_eq block (by omega), Nat.mul_comm]
  | succ k ih =>
    have hnext : schedule block (16 + k) = smallSigma1 (schedule block (k + 16 - 2)) +
        schedule block (k + 16 - 7) + smallSigma0 (schedule block (k + 16 - 15)) +
          schedule block (k + 16 - 16) := by
      rw [schedule, if_neg (by omega), Nat.add_comm 16 k]
    rw [range_succ (n := k), foldl_append, ih, foldl_cons, foldl_nil,
      ← Nat.add_assoc, range_succ (n := 16 + k), map_append, map_singleton, hnext]
    dsimp only
    rw [getD_range_map _ (by omega), getD_range_map _ (by omega), getD_range_map _ (by omega),
      getD_range_map _ (by omega), shaSIG0_eq, shaSIG1_eq]

theorem shaRound_eq (hlen : block.length = 64) (s : Sha256State) (hi : i < 64) :
    vars (shaRound (shaWords block) s i) = round (schedule block) (vars s) i := by
  have hword : (shaWords block).getD i 0 = schedule block i := by
    rw [shaWords, shaWords_prefix hlen, getD_range_map _ hi]
  have hconst : sha256K.getD i 0 = roundConstant i := by
    rw [sha256K_eq, getD_range_map _ hi]
  simp only [vars, shaRound, Lib.Sha256.round, hword, hconst, shaS0_eq, shaS1_eq]
  rfl

theorem shaCompress_eq (hlen : block.length = 64) (s : Sha256State) :
    vars (shaCompress s block) = compress (vars s) block := by
  have hrounds : ∀ (ts : List Nat) (s : Sha256State), (∀ t ∈ ts, t < 64) →
      vars (ts.foldl (shaRound (shaWords block)) s) =
        ts.foldl (round (schedule block)) (vars s) := by
    intro ts
    induction ts with
    | nil => exact fun s _ => rfl
    | cons t ts ih =>
      intro s hts
      obtain ⟨ht, hts⟩ := forall_mem_cons.1 hts
      rw [foldl_cons, foldl_cons, ih _ hts, shaRound_eq hlen s ht]
  have hall := hrounds (range 64) s fun t ht => mem_range.1 ht
  rw [compress, ← hall]
  simp only [vars, shaCompress, Vars.add, BitVec.add_comm]

/-- `ctx` has been fed `whole ++ rest`: the whole blocks are absorbed, the rest stands in the
buffer. -/
structure Fed (ctx : Sha256Ctx) (whole rest : List UInt8) : Prop where
  room : ctx.buf.length = 64
  blocks : whole.length % 64 = 0
  short : rest.length < 64
  buflen : ctx.buflen = rest.length
  held : bytesAt ctx.buf 0 rest.length = rest
  total : ctx.total = BitVec.ofNat 64 (whole ++ rest).length
  state : vars ctx.state = absorb initial whole

theorem fed_init {buf : List UInt8} (hbuf : buf.length = 64) : Fed (lrSha256Init buf) [] [] where
  room := hbuf
  blocks := rfl
  short := by decide
  buflen := rfl
  held := rfl
  total := rfl
  state := by
    rw [init_eq, absorb_short _ (by decide)]

/-- The loop absorbs the whole blocks of the source. -/
theorem shaBlockLoop_spec (fuel : Nat) (state : Sha256State) (src : List UInt8)
    (hfuel : src.length ≤ fuel) : ∃ whole,
      src = whole ++ (shaBlockLoop fuel state src).2 ∧ whole.length % 64 = 0 ∧
      (shaBlockLoop fuel state src).2.length < 64 ∧
      vars (shaBlockLoop fuel state src).1 = absorb (vars state) whole := by
  induction fuel generalizing state src with
  | zero =>
    refine ⟨[], rfl, rfl, ?_, (absorb_short _ (by decide)).symm⟩
    change src.length < 64
    omega
  | succ fuel ih =>
    rw [shaBlockLoop]
    by_cases hlen : 64 ≤ src.length
    · rw [if_pos hlen]
      have hblock : (src.take 64).length = 64 := by
        rw [length_take]
        omega
      have hdrop : (src.drop 64).length ≤ fuel := by
        rw [length_drop]
        omega
      obtain ⟨whole, hsrc, hwhole, hshort, hstate⟩ :=
        ih (shaCompress state (src.take 64)) (src.drop 64) hdrop
      refine ⟨src.take 64 ++ whole, ?_, ?_, hshort, ?_⟩
      · rw [append_assoc, ← hsrc, take_append_drop]
      · rw [length_append, hblock]
        omega
      · rw [hstate, shaCompress_eq hblock, absorb_append _ _ (by rw [hblock]),
          absorb_block _ hblock]
    · rw [if_neg hlen]
      refine ⟨[], rfl, rfl, ?_, (absorb_short _ (by decide)).symm⟩
      change src.length < 64
      omega

/-- With an empty buffer, whole blocks are absorbed and the tail is kept. -/
theorem shaUpdateBlocks_fed {src : List UInt8} (hroom : ctx.buf.length = 64)
    (hwhole : whole.length % 64 = 0) (hbuflen : ctx.buflen = 0)
    (htotal : ctx.total = BitVec.ofNat 64 (whole ++ src).length)
    (hstate : vars ctx.state = absorb initial whole) :
    ∃ whole' rest', whole ++ src = whole' ++ rest' ∧
      Fed (shaUpdateBlocks ctx src) whole' rest' := by
  obtain ⟨more, hsrc, hmore, hshort, hloop⟩ :=
    shaBlockLoop_spec src.length ctx.state src (le_rfl)
  rw [shaUpdateBlocks]
  generalize shaBlockLoop src.length ctx.state src = out at hsrc hshort hloop ⊢
  obtain ⟨state, rest⟩ := out
  dsimp only at hsrc hshort hloop ⊢
  have hsplit : whole ++ src = whole ++ more ++ rest := by rw [append_assoc, ← hsrc]
  have hblocks : (whole ++ more).length % 64 = 0 := by
    rw [length_append]
    omega
  have habsorbed : vars state = absorb initial (whole ++ more) := by
    rw [hloop, hstate, absorb_append _ _ hwhole]
  refine ⟨whole ++ more, rest, hsplit, ?_⟩
  by_cases hrest : rest = []
  · rw [if_pos hrest]
    subst hrest
    exact ⟨hroom, hblocks, by decide, hbuflen, rfl, hsplit ▸ htotal, habsorbed⟩
  · rw [if_neg hrest]
    have hfits : 0 + rest.length ≤ ctx.buf.length := by omega
    exact ⟨(length_overwrite hfits).trans hroom, hblocks, hshort, rfl,
      bytesAt_overwrite_self hfits, hsplit ▸ htotal, habsorbed⟩

/-- Any chunk keeps a context fed. -/
theorem lrSha256Update_fed (hfed : Fed ctx whole rest) (src : List UInt8) :
    ∃ whole' rest', whole ++ rest ++ src = whole' ++ rest' ∧
      Fed (lrSha256Update ctx src) whole' rest' := by
  have hroom := hfed.room
  have hshort := hfed.short
  have hbuflen := hfed.buflen
  have htotal : ctx.total + BitVec.ofNat 64 src.length =
      BitVec.ofNat 64 (whole ++ rest ++ src).length := by
    have hlength : (whole ++ rest ++ src).length = (whole ++ rest).length + src.length :=
      length_append
    rw [hfed.total, hlength, BitVec.ofNat_add]
  have hbuf : ∀ bs : List UInt8, rest.length + bs.length ≤ 64 →
      bytesAt (overwrite ctx.buf ctx.buflen bs) 0 (rest.length + bs.length) = rest ++ bs := by
    intro bs hbs
    have hfits : ctx.buflen + bs.length ≤ ctx.buf.length := by omega
    have hkept := bytesAt_overwrite_of_apart hfits (a := 0) (n := rest.length)
      (Or.inl (by omega))
    have hself := bytesAt_overwrite_self hfits
    rw [bytesAt_add, hkept, hfed.held, Nat.zero_add, ← hbuflen, hself]
  rw [lrSha256Update]
  dsimp only
  by_cases hsome : ctx.buflen > 0
  · rw [if_pos hsome]
    by_cases hfew : src.length < 64 - ctx.buflen
    · -- the buffer takes the chunk
      rw [if_pos hfew]
      have hfits : ctx.buflen + src.length ≤ ctx.buf.length := by omega
      refine ⟨whole, rest ++ src, append_assoc _ _ _, (length_overwrite hfits).trans hroom,
        hfed.blocks, ?_, ?_, ?_, ?_, hfed.state⟩
      · rw [length_append]
        omega
      · rw [length_append, hbuflen]
      · rw [length_append, hbuf src (by omega)]
      · rw [← append_assoc]
        exact htotal
    · -- the chunk fills the buffer, which is a block
      rw [if_neg hfew]
      have htake : (src.take (64 - ctx.buflen)).length = 64 - ctx.buflen := by
        rw [length_take]
        omega
      have hfits : ctx.buflen + (src.take (64 - ctx.buflen)).length ≤ ctx.buf.length := by omega
      have hfull := (length_overwrite hfits).trans hroom
      have hblock : overwrite ctx.buf ctx.buflen (src.take (64 - ctx.buflen)) =
          rest ++ src.take (64 - ctx.buflen) := by
        have hstand := hbuf (src.take (64 - ctx.buflen)) (by omega)
        rwa [bytesAt_all (by omega)] at hstand
      have hsplit : whole ++ rest ++ src =
          whole ++ (rest ++ src.take (64 - ctx.buflen)) ++ src.drop (64 - ctx.buflen) := by
        rw [append_assoc, append_assoc, append_assoc, take_append_drop]
      rw [hsplit]
      refine shaUpdateBlocks_fed hfull ?_ rfl (hsplit ▸ htotal) ?_
      · rw [length_append, length_append, htake]
        have := hfed.blocks
        omega
      · rw [← hblock, shaCompress_eq hfull, hfed.state, absorb_append _ _ hfed.blocks,
          absorb_block _ hfull]
  · -- nothing is held
    rw [if_neg hsome]
    have hnone : rest = [] := eq_nil_of_length_eq_zero (by omega)
    subst hnone
    rw [append_nil] at htotal ⊢
    exact shaUpdateBlocks_fed hroom hfed.blocks (by omega) htotal hfed.state

theorem chunks_fed (hfed : Fed ctx whole rest) (chunks : List (List UInt8)) :
    ∃ whole' rest', whole ++ rest ++ chunks.flatten =
      whole' ++ rest' ∧ Fed (chunks.foldl lrSha256Update ctx) whole' rest' := by
  induction chunks generalizing ctx whole rest with
  | nil => exact ⟨whole, rest, by rw [flatten_nil, append_nil], hfed⟩
  | cons chunk chunks ih =>
    obtain ⟨whole₁, rest₁, heq₁, hfed₁⟩ := lrSha256Update_fed hfed chunk
    obtain ⟨whole₂, rest₂, heq₂, hfed₂⟩ := ih hfed₁
    refine ⟨whole₂, rest₂, ?_, hfed₂⟩
    rw [flatten_cons, ← append_assoc, heq₁, heq₂]

theorem putBe32_eq (v : BitVec 32) : putBe32 v = beBytes 4 v.toNat := by
  rw [putBe32, beBytes, leBytes_word]
  rfl

/-- The length goes out modulo `2 ^ 64`. -/
theorem putBe64_eq (n : Nat) : putBe64 (BitVec.ofNat 64 n) = beBytes 8 n := by
  have hhigh : ((BitVec.ofNat 64 n >>> 32).setWidth 32 : BitVec 32).toNat =
      n / 256 ^ 4 % 256 ^ 4 := by
    rw [BitVec.toNat_setWidth, BitVec.toNat_ushiftRight, BitVec.toNat_ofNat,
      Nat.shiftRight_eq_div_pow]
    omega
  have hlow : ((BitVec.ofNat 64 n).setWidth 32 : BitVec 32).toNat = n % 256 ^ 4 := by
    rw [BitVec.toNat_setWidth, BitVec.toNat_ofNat]
    omega
  have hsplit : leBytes (4 + 4) n = leBytes 4 n ++ leBytes 4 (n / 256 ^ 4) := leBytes_add 4 4 n
  rw [putBe64, putBe32_eq, putBe32_eq, hhigh, hlow, beBytes, beBytes, leBytes_mod, leBytes_mod,
    ← reverse_append, ← hsplit]
  rfl

/-- The padding is two more chunks. -/
theorem lrSha256Final_eq (hfed : Fed ctx whole rest) :
    lrSha256Final ctx = sha256 (whole ++ rest) := by
  have hshort := hfed.short
  have hlen : (whole ++ rest).length % 64 = rest.length := by
    have hblocks := hfed.blocks
    rw [length_append]
    omega
  have hzeros : (119 - ctx.buflen) % 64 = zeroCount (whole ++ rest).length := by
    rw [zeroCount, hlen, hfed.buflen]
  have hpad : (0x80 :: replicate 71 0).take ((1 + (119 - ctx.buflen) % 64) % 256) =
      0x80 :: replicate (zeroCount (whole ++ rest).length) (0 : UInt8) := by
    have hsmall : (1 + zeroCount (whole ++ rest).length) % 256 =
        zeroCount (whole ++ rest).length + 1 := by omega
    rw [hzeros, hsmall, take_succ_cons, take_replicate, min_eq_left (by omega)]
  have hbits : ctx.total * 8 = BitVec.ofNat 64 (8 * (whole ++ rest).length) := by
    rw [hfed.total, BitVec.ofNat_mul, BitVec.mul_comm]
    rfl
  obtain ⟨whole₁, rest₁, heq₁, hfed₁⟩ := lrSha256Update_fed hfed
    (0x80 :: replicate (zeroCount (whole ++ rest).length) (0 : UInt8))
  obtain ⟨whole₂, rest₂, heq₂, hfed₂⟩ := lrSha256Update_fed hfed₁
    (putBe64 (BitVec.ofNat 64 (8 * (whole ++ rest).length)))
  have hmsg : pad (whole ++ rest) = whole₂ ++ rest₂ := by
    rw [← heq₂, ← heq₁, putBe64_eq, pad]
  have hall : rest₂ = [] := by
    have hpadded := length_pad (whole ++ rest)
    have hblocks := hfed₂.blocks
    have hrest := hfed₂.short
    rw [hmsg, length_append] at hpadded
    exact eq_nil_of_length_eq_zero (by omega)
  have hbytes : ∀ s : Sha256State,
      [s.a, s.b, s.c, s.d, s.e, s.f, s.g, s.h].flatMap putBe32 = (vars s).bytes := by
    intro s
    rw [Vars.bytes]
    congr 1
    exact funext putBe32_eq
  rw [lrSha256Final, hpad, hbits, hbytes, hfed₂.state, sha256, hmsg, hall, append_nil]

/-- The digest is that of the standard, however the message is cut. -/
theorem lrSha256_eq_sha256 {buf : List UInt8} (hbuf : buf.length = 64)
    (chunks : List (List UInt8)) : lrSha256 buf chunks = sha256 chunks.flatten := by
  obtain ⟨whole, rest, heq, hfed⟩ := chunks_fed (fed_init hbuf) chunks
  rw [lrSha256, lrSha256Final_eq hfed, ← heq]
  rfl

theorem lrSha256_eq_sha256_abc :
    lrSha256 (replicate 64 0) [[0x61], [], [0x62, 0x63]] = sha256 [0x61, 0x62, 0x63] :=
  lrSha256_eq_sha256 (by decide) [[0x61], [], [0x62, 0x63]]

example : lrSha256 (replicate 64 0) [[0x61], [], [0x62, 0x63]] =
    [0xba, 0x78, 0x16, 0xbf, 0x8f, 0x01, 0xcf, 0xea, 0x41, 0x41, 0x40, 0xde, 0x5d, 0xae, 0x22, 0x23,
      0xb0, 0x03, 0x61, 0xa3, 0x96, 0x17, 0x7a, 0x9c, 0xb4, 0x10, 0xff, 0x61, 0xf2, 0x00, 0x15,
      0xad] := by decide +kernel

end Liric.Guarantees.Sha256
