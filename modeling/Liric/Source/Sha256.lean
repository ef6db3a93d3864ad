import Liric.Lib.Buffer

/-!
# SHA-256

Source: src/sha256.h, src/sha256.c.

The arrays of words are records of their entries where they are read one by one. `total` is
64 bits; `buf` keeps what it holds behind `buflen`. A chunk is a list of bytes.
-/
namespace Liric.Source
open Lib

/-- `K` -/
def sha256K : List (BitVec 32) :=
  [0x428a2f98, 0x71374491, 0xb5c0fbcf, 0xe9b5dba5,
    0x3956c25b, 0x59f111f1, 0x923f82a4, 0xab1c5ed5,
    0xd807aa98, 0x12835b01, 0x243185be, 0x550c7dc3,
    0x72be5d74, 0x80deb1fe, 0x9bdc06a7, 0xc19bf174,
    0xe49b69c1, 0xefbe4786, 0x0fc19dc6, 0x240ca1cc,
    0x2de92c6f, 0x4a7484aa, 0x5cb0a9dc, 0x76f988da,
    0x983e5152, 0xa831c66d, 0xb00327c8, 0xbf597fc7,
    0xc6e00bf3, 0xd5a79147, 0x06ca6351, 0x14292967,
    0x27b70a85, 0x2e1b2138, 0x4d2c6dfc, 0x53380d13,
    0x650a7354, 0x766a0abb, 0x81c2c92e, 0x92722c85,
    0xa2bfe8a1, 0xa81a664b, 0xc24b8b70, 0xc76c51a3,
    0xd192e819, 0xd6990624, 0xf40e3585, 0x106aa070,
    0x19a4c116, 0x1e376c08, 0x2748774c, 0x34b0bcb5,
    0x391c0cb3, 0x4ed8aa4a, 0x5b9cca4f, 0x682e6ff3,
    0x748f82ee, 0x78a5636f, 0x84c87814, 0x8cc70208,
    0x90befffa, 0xa4506ceb, 0xbef9a3f7, 0xc67178f2]

def shaRR (x : BitVec 32) (n : Nat) : BitVec 32 := x >>> n ||| x <<< (32 - n)
def shaCH (e f g : BitVec 32) : BitVec 32 := (e &&& f) ^^^ (~~~e &&& g)
def shaMAJ (a b c : BitVec 32) : BitVec 32 := (a &&& b) ^^^ (a &&& c) ^^^ (b &&& c)
def shaS0 (a : BitVec 32) : BitVec 32 := shaRR a 2 ^^^ shaRR a 13 ^^^ shaRR a 22
def shaS1 (e : BitVec 32) : BitVec 32 := shaRR e 6 ^^^ shaRR e 11 ^^^ shaRR e 25
def shaSIG0 (x : BitVec 32) : BitVec 32 := shaRR x 7 ^^^ shaRR x 18 ^^^ x >>> 3
def shaSIG1 (x : BitVec 32) : BitVec 32 := shaRR x 17 ^^^ shaRR x 19 ^^^ x >>> 10

def be32 (p : List UInt8) (i : Nat) : BitVec 32 :=
  let byte (k : Nat) : BitVec 32 := (p.getD (i + k) 0).toBitVec.setWidth 32
  byte 0 <<< 24 ||| byte 1 <<< 16 ||| byte 2 <<< 8 ||| byte 3

def putBe32 (v : BitVec 32) : List UInt8 :=
  [UInt8.ofBitVec ((v >>> 24).setWidth 8), UInt8.ofBitVec ((v >>> 16).setWidth 8),
    UInt8.ofBitVec ((v >>> 8).setWidth 8), UInt8.ofBitVec (v.setWidth 8)]

def putBe64 (v : BitVec 64) : List UInt8 :=
  putBe32 ((v >>> 32).setWidth 32) ++ putBe32 (v.setWidth 32)

/-- `uint32_t state[8]`, and the variables `a` to `h` of `compress`. -/
structure Sha256State where
  a : BitVec 32
  b : BitVec 32
  c : BitVec 32
  d : BitVec 32
  e : BitVec 32
  f : BitVec 32
  g : BitVec 32
  h : BitVec 32
  deriving DecidableEq

/-- The first loop over `w`, and the second. -/
def shaWords (block : List UInt8) : List (BitVec 32) :=
  (List.range 48).foldl (fun w k =>
      let i := k + 16
      w ++ [shaSIG1 (w.getD (i - 2) 0) + w.getD (i - 7) 0 + shaSIG0 (w.getD (i - 15) 0) +
        w.getD (i - 16) 0])
    ((List.range 16).map fun i => be32 block (i * 4))

def shaRound (w : List (BitVec 32)) (s : Sha256State) (i : Nat) : Sha256State :=
  let t1 := s.h + shaS1 s.e + shaCH s.e s.f s.g + sha256K.getD i 0 + w.getD i 0
  let t2 := shaS0 s.a + shaMAJ s.a s.b s.c
  { h := s.g, g := s.f, f := s.e, e := s.d + t1, d := s.c, c := s.b, b := s.a, a := t1 + t2 }

def shaCompress (state : Sha256State) (block : List UInt8) : Sha256State :=
  let s := (List.range 64).foldl (shaRound (shaWords block)) state
  { a := state.a + s.a, b := state.b + s.b, c := state.c + s.c, d := state.d + s.d
    e := state.e + s.e, f := state.f + s.f, g := state.g + s.g, h := state.h + s.h }

structure Sha256Ctx where
  state : Sha256State
  buf : List UInt8
  total : BitVec 64
  buflen : Nat
  deriving DecidableEq

/-- `buf` is not written and holds what it held. -/
def lrSha256Init (buf : List UInt8) : Sha256Ctx where
  state :=
    { a := 0x6a09e667, b := 0xbb67ae85, c := 0x3c6ef372, d := 0xa54ff53a
      e := 0x510e527f, f := 0x9b05688c, g := 0x1f83d9ab, h := 0x5be0cd19 }
  buf := buf
  total := 0
  buflen := 0

/-- `while (len >= LR_SHA256_BLOCK_LEN)`, in at most `len` rounds. -/
def shaBlockLoop : Nat → Sha256State → List UInt8 → Sha256State × List UInt8
  | 0, state, src => (state, src)
  | fuel + 1, state, src =>
    if 64 ≤ src.length then shaBlockLoop fuel (shaCompress state (src.take 64)) (src.drop 64)
    else (state, src)

/-- What follows the filling of the buffer. -/
def shaUpdateBlocks (ctx : Sha256Ctx) (src : List UInt8) : Sha256Ctx :=
  let (state, rest) := shaBlockLoop src.length ctx.state src
  if rest = [] then { ctx with state := state }
  else { ctx with state := state, buf := overwrite ctx.buf 0 rest, buflen := rest.length }

def lrSha256Update (ctx : Sha256Ctx) (src : List UInt8) : Sha256Ctx :=
  let ctx := { ctx with total := ctx.total + BitVec.ofNat 64 src.length }
  if ctx.buflen > 0 then
    let fill := 64 - ctx.buflen
    if src.length < fill then
      { ctx with buf := overwrite ctx.buf ctx.buflen src, buflen := ctx.buflen + src.length }
    else
      let buf := overwrite ctx.buf ctx.buflen (src.take fill)
      shaUpdateBlocks { ctx with state := shaCompress ctx.state buf, buf := buf, buflen := 0 }
        (src.drop fill)
  else shaUpdateBlocks ctx src

def lrSha256Final (ctx : Sha256Ctx) : List UInt8 :=
  let bits := ctx.total * 8
  let pad := (1 + (119 - ctx.buflen) % 64) % 256
  let zeros := 0x80 :: List.replicate 71 0
  let ctx := lrSha256Update ctx (zeros.take pad)
  let ctx := lrSha256Update ctx (putBe64 bits)
  let s := ctx.state
  [s.a, s.b, s.c, s.d, s.e, s.f, s.g, s.h].flatMap putBe32

/-- The chunks in order, between init and final. -/
def lrSha256 (buf : List UInt8) (chunks : List (List UInt8)) : List UInt8 :=
  lrSha256Final (chunks.foldl lrSha256Update (lrSha256Init buf))

end Liric.Source
