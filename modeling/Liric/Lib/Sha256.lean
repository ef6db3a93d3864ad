import Liric.Lib.Buffer
import Mathlib.Data.List.Basic
import Mathlib.Data.Nat.NthRoot.Defs

/-!
# SHA-256

The hash of FIPS 180-4 on messages of whole bytes: the functions of words, the constants as
fractional parts of roots of primes, the message schedule, the compression of a block, the
padding of a message.
-/
namespace Liric.Lib.Sha256
open List

abbrev Word := BitVec 32

def ch (x y z : Word) : Word := (x &&& y) ^^^ (~~~x &&& z)

def maj (x y z : Word) : Word := (x &&& y) ^^^ (x &&& z) ^^^ (y &&& z)

def bigSigma0 (x : Word) : Word := x.rotateRight 2 ^^^ x.rotateRight 13 ^^^ x.rotateRight 22

def bigSigma1 (x : Word) : Word := x.rotateRight 6 ^^^ x.rotateRight 11 ^^^ x.rotateRight 25

def smallSigma0 (x : Word) : Word := x.rotateRight 7 ^^^ x.rotateRight 18 ^^^ x >>> 3

def smallSigma1 (x : Word) : Word := x.rotateRight 17 ^^^ x.rotateRight 19 ^^^ x >>> 10

/-- The first 32 bits of the fractional part of a root. -/
def rootFraction (e p : Nat) : Word := BitVec.ofNat 32 (Nat.nthRoot e (p * 2 ^ (32 * e)))

/-- The primes below 312, of which there are 64. -/
def primes : List Nat :=
  [2, 3, 5, 7, 11, 13, 17, 19, 23, 29, 31, 37, 41, 43, 47, 53, 59, 61, 67, 71, 73, 79, 83, 89, 97,
    101, 103, 107, 109, 113, 127, 131, 137, 139, 149, 151, 157, 163, 167, 173, 179, 181, 191, 193,
    197, 199, 211, 223, 227, 229, 233, 239, 241, 251, 257, 263, 269, 271, 277, 281, 283, 293, 307,
    311]

/-- The constant of a round: the cube root of a prime. -/
def roundConstant (t : Nat) : Word := rootFraction 3 (primes.getD t 0)

/-- The working variables, and the chaining value. -/
structure Vars where
  a : Word
  b : Word
  c : Word
  d : Word
  e : Word
  f : Word
  g : Word
  h : Word
  deriving DecidableEq

def Vars.add (s t : Vars) : Vars :=
  ⟨s.a + t.a, s.b + t.b, s.c + t.c, s.d + t.d, s.e + t.e, s.f + t.f, s.g + t.g, s.h + t.h⟩

/-- The first chaining value: the square roots of the first eight primes. -/
def initial : Vars :=
  ⟨rootFraction 2 2, rootFraction 2 3, rootFraction 2 5, rootFraction 2 7, rootFraction 2 11,
    rootFraction 2 13, rootFraction 2 17, rootFraction 2 19⟩

/-- Four bytes, the most significant first. -/
def beWord (bs : List UInt8) : Word := BitVec.ofNat 32 (leNat bs.reverse)

def beBytes (n v : Nat) : List UInt8 := (leBytes n v).reverse

/-- The message schedule of a block. -/
def schedule (block : List UInt8) (t : Nat) : Word :=
  if t < 16 then beWord (bytesAt block (4 * t) 4)
  else smallSigma1 (schedule block (t - 2)) + schedule block (t - 7) +
    smallSigma0 (schedule block (t - 15)) + schedule block (t - 16)

def round (w : Nat → Word) (v : Vars) (t : Nat) : Vars :=
  let t₁ := v.h + bigSigma1 v.e + ch v.e v.f v.g + roundConstant t + w t
  let t₂ := bigSigma0 v.a + maj v.a v.b v.c
  ⟨t₁ + t₂, v.a, v.b, v.c, v.d + t₁, v.e, v.f, v.g⟩

def compress (h : Vars) (block : List UInt8) : Vars :=
  ((range 64).foldl (round (schedule block)) h).add h

/-- The chaining value after the whole blocks of a message. -/
def absorb (h : Vars) (bs : List UInt8) : Vars :=
  (range (bs.length / 64)).foldl (fun h i => compress h (bytesAt bs (64 * i) 64)) h

/-- The zero bytes between the marker and the length. -/
def zeroCount (len : Nat) : Nat := (119 - len % 64) % 64

def pad (msg : List UInt8) : List UInt8 :=
  msg ++ 0x80 :: replicate (zeroCount msg.length) 0 ++ beBytes 8 (8 * msg.length)

def Vars.bytes (v : Vars) : List UInt8 :=
  [v.a, v.b, v.c, v.d, v.e, v.f, v.g, v.h].flatMap fun w => beBytes 4 w.toNat

def sha256 (msg : List UInt8) : List UInt8 := (absorb initial (pad msg)).bytes

/-- The padding ends a block, with as few zeros as that takes. -/
theorem zeroCount_spec (len : Nat) : (len + 1 + zeroCount len) % 64 = 56 ∧
    ∀ k, (len + 1 + k) % 64 = 56 → zeroCount len ≤ k := by
  unfold zeroCount
  constructor
  · omega
  · intro k hk
    omega

theorem length_beBytes (n v : Nat) : (beBytes n v).length = n := by
  rw [beBytes, length_reverse, length_leBytes]

theorem length_pad (msg : List UInt8) : (pad msg).length % 64 = 0 := by
  have hzeros := (zeroCount_spec msg.length).1
  rw [pad, length_append, length_append, length_cons, length_replicate,
    length_beBytes]
  omega

/-- Whole blocks are absorbed on their own. -/
theorem absorb_append (h : Vars) {as : List UInt8} (bs : List UInt8) (has : as.length % 64 = 0) :
    absorb h (as ++ bs) = absorb (absorb h as) bs := by
  obtain ⟨k, hk⟩ : ∃ k, as.length = 64 * k := ⟨as.length / 64, by omega⟩
  have hcount : (as ++ bs).length / 64 = as.length / 64 + bs.length / 64 := by
    rw [length_append]
    omega
  rw [absorb, hcount, range_add, foldl_append, foldl_map]
  have hfirst : (range (as.length / 64)).foldl
      (fun h i => compress h (bytesAt (as ++ bs) (64 * i) 64)) h = absorb h as := by
    refine foldl_ext _ _ _ fun h' i hi => ?_
    rw [mem_range] at hi
    rw [bytesAt_append_left (by omega)]
  have hrest : ∀ (h' : Vars) (i : Nat),
      compress h' (bytesAt (as ++ bs) (64 * (as.length / 64 + i)) 64) =
        compress h' (bytesAt bs (64 * i) 64) := by
    intro h' i
    have hoff : 64 * (as.length / 64 + i) - as.length = 64 * i := by omega
    rw [bytesAt_append_right (by omega), hoff]
  rw [hfirst]
  simp only [hrest]
  rfl

theorem absorb_short (h : Vars) {bs : List UInt8} (hlen : bs.length < 64) : absorb h bs = h := by
  rw [absorb, Nat.div_eq_of_lt hlen]
  rfl

theorem absorb_block (h : Vars) {block : List UInt8} (hlen : block.length = 64) :
    absorb h block = compress h block := by
  have hone : block.length / 64 = 1 := by rw [hlen]
  have hall : bytesAt block (64 * 0) 64 = block := bytesAt_all hlen
  rw [absorb, hone]
  change compress h (bytesAt block (64 * 0) 64) = compress h block
  rw [hall]

end Liric.Lib.Sha256
