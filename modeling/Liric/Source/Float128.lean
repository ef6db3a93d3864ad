import Mathlib.Data.Nat.Log
import Mathlib.Data.Nat.Bitwise

/-!
# Binary128 soft float

Source: `src/lr_float128.c:19-97` (two-limb integers), `104-162` (unpack and
pack), `164-176`, `187-281` (comparison, negation, addition, subtraction,
multiplication), `283-306` (division), `308-390` (conversions), `408-416`
(truncation) and `471-477` (the comparisons that are called). `int32_t exp` is an
`Int`: every exponent the routines form lies within `±2^17`. The `int sign` of the
source is only ever 0 or 1 and is a `Bool`, and so is a single bit. A `double`, a
`float` and a signed integer are their bits.
-/
namespace Liric.Source.Float128

/-- `u128`: an unsigned 128-bit integer in two limbs. -/
@[ext] structure U128 where
  lo : BitVec 64
  hi : BitVec 64
deriving DecidableEq

def u128Make (hi lo : BitVec 64) : U128 := ⟨lo, hi⟩
def u128FromU64 (v : BitVec 64) : U128 := ⟨v, 0#64⟩
def u128Zero : U128 := ⟨0#64, 0#64⟩
def u128One : U128 := ⟨1#64, 0#64⟩

def u128Add (a b : U128) : U128 :=
  let lo := a.lo + b.lo
  ⟨lo, a.hi + b.hi + (if lo < a.lo then 1#64 else 0#64)⟩

def u128Sub (a b : U128) : U128 :=
  ⟨a.lo - b.lo, a.hi - b.hi - (if a.lo < b.lo then 1#64 else 0#64)⟩

def u128Inc (a : U128) : U128 :=
  let lo := a.lo + 1#64
  ⟨lo, a.hi + (if lo = 0#64 then 1#64 else 0#64)⟩

def u128And (a b : U128) : U128 := ⟨a.lo &&& b.lo, a.hi &&& b.hi⟩
def u128Or (a b : U128) : U128 := ⟨a.lo ||| b.lo, a.hi ||| b.hi⟩
def u128Not (a : U128) : U128 := ⟨~~~a.lo, ~~~a.hi⟩

def u128Shl (a : U128) (n : Int) : U128 :=
  if n ≤ 0 then a
  else if n ≥ 128 then u128Zero
  else if n ≥ 64 then ⟨0#64, a.lo <<< (n - 64).toNat⟩
  else ⟨a.lo <<< n.toNat, (a.hi <<< n.toNat) ||| (a.lo >>> (64 - n).toNat)⟩

def u128Shr (a : U128) (n : Int) : U128 :=
  if n ≤ 0 then a
  else if n ≥ 128 then u128Zero
  else if n ≥ 64 then ⟨a.hi >>> (n - 64).toNat, 0#64⟩
  else ⟨(a.lo >>> n.toNat) ||| (a.hi <<< (64 - n).toNat), a.hi >>> n.toNat⟩

def u128Gt (a b : U128) : Bool := b.hi < a.hi || (a.hi == b.hi && b.lo < a.lo)
def u128Gte (a b : U128) : Bool := b.hi < a.hi || (a.hi == b.hi && b.lo ≤ a.lo)
def u128Lt (a b : U128) : Bool := u128Gt b a
def u128Eq (a b : U128) : Bool := a.hi == b.hi && a.lo == b.lo
def u128IsZero (a : U128) : Bool := a.lo == 0#64 && a.hi == 0#64

def u128Bit (a : U128) (n : Int) : Bool :=
  if n ≥ 64 then (a.hi >>> (n - 64).toNat) &&& 1#64 != 0#64
  else (a.lo >>> n.toNat) &&& 1#64 != 0#64

def u128Shl1 (a : U128) : U128 := ⟨a.lo <<< 1, (a.hi <<< 1) ||| (a.lo >>> 63)⟩

/-- `__builtin_clzll`, with the guard for zero. -/
def lfClz64 (v : BitVec 64) : Int := if v = 0#64 then 64 else 63 - (Nat.log 2 v.toNat : Int)

def lfClz32 (v : BitVec 32) : Int := if v = 0#32 then 32 else 31 - (Nat.log 2 v.toNat : Int)

def u128Clz (v : U128) : Int :=
  if v.hi ≠ 0#64 then lfClz64 v.hi
  else if v.lo ≠ 0#64 then 64 + lfClz64 v.lo
  else 128

/-- `0xFFFFFFFF`: the lower half of a word. -/
def lowHalf : BitVec 64 := 0xFFFFFFFF#64

def mul64x64 (a b : BitVec 64) : U128 :=
  let aLo := a &&& lowHalf
  let aHi := a >>> 32
  let bLo := b &&& lowHalf
  let bHi := b >>> 32
  let p0 := aLo * bLo
  let p1 := aLo * bHi
  let p2 := aHi * bLo
  let p3 := aHi * bHi
  let mid := (p0 >>> 32) + (p1 &&& lowHalf) + (p2 &&& lowHalf)
  ⟨(mid <<< 32) ||| (p0 &&& lowHalf), p3 + (p1 >>> 32) + (p2 >>> 32) + (mid >>> 32)⟩

/-- The carry of a sum `s` of `a` and another word. -/
def carryOf (s a : BitVec 64) : BitVec 64 := if s < a then 1#64 else 0#64

/-- `*hi_out` and `*lo_out`. -/
def u128Mul128 (a b : U128) : U128 × U128 :=
  let c00 := mul64x64 a.lo b.lo
  let c01 := mul64x64 a.lo b.hi
  let c10 := mul64x64 a.hi b.lo
  let c11 := mul64x64 a.hi b.hi
  let m0 := c00.hi
  let m1 := m0 + c01.lo
  let m2 := m1 + c10.lo
  let h0 := c11.lo
  let h1 := h0 + c01.hi
  let h2 := h1 + c10.hi
  let h3 := h2 + (carryOf m1 m0 + carryOf m2 m1)
  (⟨h3, c11.hi + (carryOf h1 h0 + carryOf h2 h1 + carryOf h3 h2)⟩, ⟨c00.lo, m2⟩)

/-- The 16 little-endian bytes of a value, as the two words every routine copies
them into. -/
@[ext] structure LrF128 where
  lo : BitVec 64
  hi : BitVec 64
deriving DecidableEq

structure F128Parts where
  sign : Bool := false
  exp : Int := 0
  mant : U128 := u128Zero
  isNan : Bool := false
  isInf : Bool := false
  isZero : Bool := false
deriving DecidableEq

/-- `0x0000FFFFFFFFFFFF`: the fraction bits of the high word. -/
def fracMask : BitVec 64 := 0x0000FFFFFFFFFFFF#64

def f128Unpack (v : LrF128) : F128Parts :=
  let sign := (v.hi >>> 63) != 0#64
  let biased : Int := ((v.hi >>> 48) &&& 0x7FFF#64).toNat
  let mhi := v.hi &&& fracMask
  let mlo := v.lo
  if biased = 0x7FFF then
    if mhi ≠ 0#64 ∨ mlo ≠ 0#64 then { sign := sign, isNan := true }
    else { sign := sign, isInf := true }
  else if biased = 0 ∧ mhi = 0#64 ∧ mlo = 0#64 then { sign := sign, isZero := true }
  else if biased ≠ 0 then
    { sign := sign, mant := u128Make (mhi ||| (1#64 <<< 48)) mlo, exp := biased - 16383 }
  else { sign := sign, mant := u128Make mhi mlo, exp := -16382 }

/-- `(uint64_t)sign << 63`. -/
def signWord (sign : Bool) : BitVec 64 := (if sign then 1#64 else 0#64) <<< 63

/-- Normalisation in `f128_pack_parts`: shift the leading bit to place 112, and
round to nearest even when bits leave on the right. -/
def packNormalize (exp : Int) (mant : U128) : Int × U128 :=
  let shift := u128Clz mant - (127 - 112)
  if shift > 0 then (exp - shift, u128Shl mant shift)
  else if shift < 0 then
    let rsh := -shift
    let sticky := u128And mant (u128Sub (u128Shl u128One rsh) u128One)
    let mant := u128Shr mant rsh
    let half := u128Shl u128One (rsh - 1)
    let mant := if u128Gt sticky half ||
        (u128Eq sticky half && !u128IsZero (u128And mant u128One)) then u128Inc mant else mant
    if !u128IsZero (u128Shr mant 113) then (exp + 1 + rsh, u128Shr mant 1) else (exp + rsh, mant)
  else (exp, mant)

/-- The part of `f128_pack_parts` after normalisation: subnormal, overflowing
and normal results. -/
def packEncode (sign : Bool) (exp : Int) (mant : U128) : LrF128 :=
  if exp ≤ -16383 then
    let subnormShift := -16382 - exp + 1
    if subnormShift ≥ 113 then ⟨0#64, signWord sign⟩
    else
      let mant := u128Shr mant subnormShift
      ⟨mant.lo, signWord sign ||| (mant.hi &&& fracMask)⟩
  else
    let biased := exp + 16383
    if biased ≥ 0x7FFF then ⟨0#64, signWord sign ||| (0x7FFF#64 <<< 48)⟩
    else
      let mant := u128And mant (u128Sub (u128Shl u128One 112) u128One)
      ⟨mant.lo, signWord sign ||| (BitVec.ofInt 64 biased <<< 48) ||| (mant.hi &&& fracMask)⟩

def f128PackParts (sign : Bool) (exp : Int) (mant : U128) : LrF128 :=
  if u128IsZero mant then ⟨0#64, signWord sign⟩
  else
    let (exp, mant) := packNormalize exp mant
    packEncode sign exp mant

def f128MakeNan : LrF128 := ⟨0#64, 0x7FFF800000000000#64⟩
def f128MakeInf (sign : Bool) : LrF128 := ⟨0#64, signWord sign ||| (0x7FFF#64 <<< 48)⟩
def f128MakeZero (sign : Bool) : LrF128 := ⟨0#64, signWord sign⟩

/-- `2` for unordered operands. -/
def f128CmpInternal (a b : LrF128) : Int :=
  let pa := f128Unpack a
  let pb := f128Unpack b
  if pa.isNan || pb.isNan then 2
  else if pa.isZero && pb.isZero then 0
  else if pa.isZero then (if pb.sign then 1 else -1)
  else if pb.isZero then (if pa.sign then -1 else 1)
  else if pa.sign ≠ pb.sign then (if pa.sign then -1 else 1)
  else
    let mag : Int :=
      if pa.isInf && pb.isInf then 0
      else if pa.isInf then 1
      else if pb.isInf then -1
      else if pa.exp ≠ pb.exp then (if pa.exp > pb.exp then 1 else -1)
      else if u128Gt pa.mant pb.mant then 1
      else if u128Lt pa.mant pb.mant then -1
      else 0
    if pa.sign then -mag else mag

def lrF128Eq (a b : LrF128) : Bool := f128CmpInternal a b == 0

def lrF128Ne (a b : LrF128) : Bool :=
  let c := f128CmpInternal a b
  if c = 2 then true else c != 0

/-- The four ordered comparisons: false for unordered operands. -/
def orderedCmp (holds : Int → Bool) (a b : LrF128) : Bool :=
  let c := f128CmpInternal a b
  if c = 2 then false else holds c

def lrF128Lt (a b : LrF128) : Bool := orderedCmp (fun c => c < 0) a b
def lrF128Le (a b : LrF128) : Bool := orderedCmp (fun c => c ≤ 0) a b
def lrF128Gt (a b : LrF128) : Bool := orderedCmp (fun c => 0 < c) a b
def lrF128Ge (a b : LrF128) : Bool := orderedCmp (fun c => 0 ≤ c) a b

/-- `bytes[15] ^= 0x80`: byte 15 is the top byte of the high word. -/
def f128Neg (a : LrF128) : LrF128 := { a with hi := a.hi ^^^ (0x80#64 <<< 56) }

def alignMant (shift : Int) (mant : U128) : U128 :=
  if shift < 128 then u128Shr mant shift else u128Zero

def f128AddSameSign (pa pb : F128Parts) : LrF128 :=
  let shift := pa.exp - pb.exp
  let mb := alignMant shift pb.mant
  let sum := u128Add pa.mant mb
  let exp := pa.exp
  if !u128IsZero (u128Shr sum 113) then f128PackParts pa.sign (exp + 1) (u128Shr sum 1)
  else f128PackParts pa.sign exp sum

def f128SubMag (pa pb : F128Parts) (resultSign : Bool) : LrF128 :=
  let shift := pa.exp - pb.exp
  let mb := alignMant shift pb.mant
  let diff := u128Sub pa.mant mb
  f128PackParts resultSign pa.exp diff

/-- `f128_add` after the operands have been sorted by magnitude. -/
def f128AddSorted (pa pb : F128Parts) : LrF128 :=
  if pa.sign = pb.sign then f128AddSameSign pa pb
  else if u128Eq pa.mant pb.mant ∧ pa.exp = pb.exp then f128MakeZero false
  else f128SubMag pa pb pa.sign

def f128Add (a b : LrF128) : LrF128 :=
  let pa := f128Unpack a
  let pb := f128Unpack b
  if pa.isNan then a
  else if pb.isNan then b
  else if pa.isInf ∧ pb.isInf then (if pa.sign ≠ pb.sign then f128MakeNan else a)
  else if pa.isInf then a
  else if pb.isInf then b
  else if pa.isZero ∧ pb.isZero then f128MakeZero (pa.sign && pb.sign)
  else if pa.isZero then b
  else if pb.isZero then a
  else if pa.exp < pb.exp ∨ (pa.exp = pb.exp ∧ u128Lt pa.mant pb.mant) then f128AddSorted pb pa
  else f128AddSorted pa pb

def f128Sub (a b : LrF128) : LrF128 := f128Add a (f128Neg b)

/-- A product cut at a place of its upper half. -/
def mulRoundHigh (prodHi prodLo : U128) (rsh2 : Int) : U128 :=
  let resultMant := u128Shr prodHi rsh2
  let roundBit := if rsh2 > 0 then u128Bit prodHi (rsh2 - 1) else u128Bit prodLo 127
  let sticky := if rsh2 > 1 then u128And prodHi (u128Sub (u128Shl u128One (rsh2 - 1)) u128One)
    else u128Zero
  let sticky := u128Or sticky prodLo
  if roundBit && (!u128IsZero sticky || !u128IsZero (u128And resultMant u128One)) then
    u128Inc resultMant
  else resultMant

/-- A product cut at a place of its lower half. -/
def mulRoundLow (prodHi prodLo : U128) (rsh : Int) : U128 :=
  let resultMant := u128Or (u128Shl prodHi (128 - rsh)) (u128Shr prodLo rsh)
  let roundBit := u128Bit prodLo (rsh - 1)
  let sticky := u128And prodLo (u128Sub (u128Shl u128One (rsh - 1)) u128One)
  if roundBit && (!u128IsZero sticky || !u128IsZero (u128And resultMant u128One)) then
    u128Inc resultMant
  else resultMant

/-- `f128_mul` for finite non-zero operands. -/
def f128MulFinite (pa pb : F128Parts) (rsign : Bool) : LrF128 :=
  let (prodHi, prodLo) := u128Mul128 pa.mant pb.mant
  let exp := pa.exp + pb.exp
  let lz := u128Clz prodHi
  let rsh := 255 - lz - 112
  let resultMant := if rsh ≥ 128 then mulRoundHigh prodHi prodLo (rsh - 128)
    else mulRoundLow prodHi prodLo rsh
  f128PackParts rsign (exp + (rsh - 112)) resultMant

def f128Mul (a b : LrF128) : LrF128 :=
  let pa := f128Unpack a
  let pb := f128Unpack b
  let rsign := pa.sign ^^ pb.sign
  if pa.isNan then a
  else if pb.isNan then b
  else if pa.isInf || pb.isInf then
    (if pa.isZero || pb.isZero then f128MakeNan else f128MakeInf rsign)
  else if pa.isZero || pb.isZero then f128MakeZero rsign
  else f128MulFinite pa pb rsign

/-- The restoring division loop: `n` rounds from the given remainder and
quotient. -/
def divLoop (mantB : U128) : Nat → U128 → U128 → U128 × U128
  | 0, remainder, quotient => (remainder, quotient)
  | n + 1, remainder, quotient =>
    let remainder := u128Shl1 remainder
    let quotient := u128Shl1 quotient
    if u128Gte remainder mantB then
      divLoop mantB n (u128Sub remainder mantB) (u128Or quotient u128One)
    else divLoop mantB n remainder quotient

/-- `f128_div` for finite non-zero operands. -/
def f128DivFinite (pa pb : F128Parts) (rsign : Bool) : LrF128 :=
  let (remainder, quotient) := divLoop pb.mant 113 pa.mant u128Zero
  let quotient := if u128Gte (u128Shl1 remainder) pb.mant then u128Inc quotient else quotient
  f128PackParts rsign (pa.exp - pb.exp - 1) quotient

def f128Div (a b : LrF128) : LrF128 :=
  let pa := f128Unpack a
  let pb := f128Unpack b
  let rsign := pa.sign ^^ pb.sign
  if pa.isNan then a
  else if pb.isNan then b
  else if pb.isZero then (if pa.isZero then f128MakeNan else f128MakeInf rsign)
  else if pa.isInf then (if pb.isInf then f128MakeNan else f128MakeInf rsign)
  else if pa.isZero then f128MakeZero rsign
  else if pb.isInf then f128MakeZero rsign
  else f128DivFinite pa pb rsign

def f128FromF64 (bits : BitVec 64) : LrF128 :=
  let sign := bits >>> 63 != 0#64
  let dexp : Int := ((bits >>> 52) &&& 0x7FF#64).toNat
  let dmant := bits &&& 0x000FFFFFFFFFFFFF#64
  if dexp = 0x7FF then (if dmant ≠ 0#64 then f128MakeNan else f128MakeInf sign)
  else if dexp = 0 ∧ dmant = 0#64 then f128MakeZero sign
  else if dexp ≠ 0 then
    f128PackParts sign (dexp - 1023) (u128Shl (u128FromU64 (dmant ||| (1#64 <<< 52))) (112 - 52))
  else f128PackParts sign (-1022 - 52) (u128Shl (u128FromU64 dmant) (112 - 52))

def f128FromF32 (bits : BitVec 32) : LrF128 :=
  let sign := bits >>> 31 != 0#32
  let fexp : Int := ((bits >>> 23) &&& 0xFF#32).toNat
  let fmant := bits &&& 0x007FFFFF#32
  if fexp = 0xFF then (if fmant ≠ 0#32 then f128MakeNan else f128MakeInf sign)
  else if fexp = 0 ∧ fmant = 0#32 then f128MakeZero sign
  else if fexp ≠ 0 then
    f128PackParts sign (fexp - 127)
      (u128Shl (u128FromU64 ((fmant ||| (1#32 <<< 23)).setWidth 64)) (112 - 23))
  else f128PackParts sign (-126 - 23) (u128Shl (u128FromU64 (fmant.setWidth 64)) (112 - 23))

/-- `f128_to_f64` where the double is normal: the fraction is rounded without its
hidden bit. -/
def toF64Normal (p : F128Parts) (dexp : Int) : BitVec 64 :=
  let rsh : Int := 112 - 52
  let dmant := (u128Shr p.mant rsh).lo &&& 0x000FFFFFFFFFFFFF#64
  let roundBit := u128Bit p.mant (rsh - 1)
  let sticky := u128And p.mant (u128Sub (u128Shl u128One (rsh - 1)) u128One)
  let dmant := if roundBit && (!u128IsZero sticky || dmant &&& 1#64 != 0#64) then dmant + 1#64
    else dmant
  if dmant >>> 52 ≠ 0#64 then
    signWord p.sign ||| (BitVec.ofInt 64 (dexp + 1) <<< 52) ||| (dmant >>> 1)
  else signWord p.sign ||| (BitVec.ofInt 64 dexp <<< 52) ||| dmant

def f128ToF64 (a : LrF128) : BitVec 64 :=
  let p := f128Unpack a
  if p.isNan then 0x7FF8000000000000#64
  else if p.isInf then signWord p.sign ||| 0x7FF0000000000000#64
  else if p.isZero then signWord p.sign
  else
    let dexp := p.exp + 1023
    if dexp ≥ 0x7FF then signWord p.sign ||| 0x7FF0000000000000#64
    else if dexp ≤ 0 then
      let extraShift := 1 - dexp
      let rsh := (112 - 52) + extraShift
      if rsh ≥ 128 then signWord p.sign else signWord p.sign ||| (u128Shr p.mant rsh).lo
    else toF64Normal p dexp

def f128FromI32 (x : BitVec 32) : LrF128 :=
  if x = 0#32 then f128MakeZero false
  else
    let sign := x.slt 0#32
    let absX := if sign then -(x.signExtend 64) else x.signExtend 64
    let lz32 := lfClz32 (absX.setWidth 32)
    f128PackParts sign (31 - lz32) (u128Shl (u128FromU64 absX) (112 - (31 - lz32)))

def f128FromI64 (x : BitVec 64) : LrF128 :=
  if x = 0#64 then f128MakeZero false
  else
    let sign := x.slt 0#64
    let absX := if sign then -x else x
    let exp := 63 - lfClz64 absX
    f128PackParts sign exp (u128Shl (u128FromU64 absX) (112 - exp))

/-- `f128_to_i32` and `f128_to_i64` at their width, with its largest exponent. -/
def f128ToInt (w : Nat) (maxExp : Int) (a : LrF128) : BitVec w :=
  let p := f128Unpack a
  if p.isNan || p.isInf || p.isZero then 0
  else if p.exp < 0 then 0
  else if p.exp > maxExp then (if p.sign then BitVec.intMin w else BitVec.intMax w)
  else
    let v := (u128Shr p.mant (112 - p.exp)).lo.setWidth w
    if p.sign then -v else v

def f128ToI32 (a : LrF128) : BitVec 32 := f128ToInt 32 30 a
def f128ToI64 (a : LrF128) : BitVec 64 := f128ToInt 64 62 a

/-- Truncation toward zero. -/
def f128Trunc (a : LrF128) : LrF128 :=
  let p := f128Unpack a
  if p.isNan || p.isInf || p.isZero then a
  else if p.exp ≥ 112 then a
  else if p.exp < 0 then f128MakeZero p.sign
  else
    let fracBits := 112 - p.exp
    let mask := u128Not (u128Sub (u128Shl u128One fracBits) u128One)
    f128PackParts p.sign p.exp (u128And p.mant mask)

end Liric.Source.Float128
