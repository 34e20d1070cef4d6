import EpicsIocs.Lib.Words

/-!
# The digits of a double

`dtoa.rs`, the digits `json::dump` writes for a double.  Every operation is one on `u64`, `u32`, `u8`
or `i32`, in a build with overflow checks; the bits that a `<<` moves out of a `u64` are lost without
one.  `limit` is how often a loop may run: out of it, the run is `unfinished`, not a panic.

A double is its bits, as `to_bits` has them.
-/

namespace TimePix.Dtoa

open Faults hiding add mul
open Words Ints

/-- How a run fails without a panic. -/
inductive Stopped where
  | unfinished
  deriving DecidableEq, Repr

abbrev Run (α : Type) : Type := Outcome Stopped α

def i32 (v : Int) : Run Int := checked int32 v

/-- `as i32`. -/
def asI32 (v : Nat) : Int := (v : Int).bmod (2 ^ 32)

structure DiyFp where
  f : Nat
  e : Int
  deriving DecidableEq, Repr

namespace DiyFp

def sub (x y : DiyFp) : Run DiyFp := do
  let f ← Words.sub x.f y.f
  return ⟨f, x.e⟩

/-- The upper 64 bits of the product, rounded half up. -/
def mul (x y : DiyFp) : Run DiyFp := do
  let p ← add 128 (← Words.mul 128 x.f y.f) (2 ^ 63)
  let e ← i32 ((← i32 (x.e + y.e)) + 64)
  return ⟨(p >>> 64) % 2 ^ 64, e⟩

def leadingZeros (f : Nat) : Nat := if f = 0 then 64 else 63 - f.log2

def normalize (x : DiyFp) : Run DiyFp := do
  let shift := leadingZeros x.f
  let f ← shl 64 x.f shift
  let e ← i32 (x.e - shift)
  return ⟨f, e⟩

def normalizeTo (x : DiyFp) (targetExponent : Int) : Run DiyFp := do
  let f ← shl 64 x.f (← i32 (x.e - targetExponent))
  return ⟨f, targetExponent⟩

end DiyFp

def precision : Nat := 53
def bias : Int := 1023 + 52
def minExp : Int := 1 - bias
def hiddenBit : Nat := 2 ^ (precision - 1)

/-- `v` of `compute_boundaries`. -/
def unpack (e f : Nat) : Run DiyFp :=
  if e = 0 then return ⟨f, minExp⟩
  else do return ⟨← add 64 f hiddenBit, ← i32 (asI32 e - bias)⟩

/-- `m_minus` of `compute_boundaries`. -/
def lowerBoundary (v : DiyFp) (lowerBoundaryIsCloser : Bool) : Run DiyFp :=
  if lowerBoundaryIsCloser then do return ⟨← sub (← mul 64 4 v.f) 1, ← i32 (v.e - 2)⟩
  else do return ⟨← sub (← mul 64 2 v.f) 1, ← i32 (v.e - 1)⟩

/-- `compute_boundaries`: (w, m-, m+) for a finite positive value. -/
def computeBoundaries (bits : Nat) : Run (DiyFp × DiyFp × DiyFp) := do
  let e := bits >>> (precision - 1)
  let f := bits &&& (hiddenBit - 1)
  let v ← unpack e f
  let lowerBoundaryIsCloser := f = 0 ∧ e > 1
  let mPlus : DiyFp := ⟨← add 64 (← mul 64 2 v.f) 1, ← i32 (v.e - 1)⟩
  let mMinus ← lowerBoundary v lowerBoundaryIsCloser
  let wPlus ← mPlus.normalize
  let wMinus ← mMinus.normalizeTo wPlus.e
  return (← v.normalize, wMinus, wPlus)

def alpha : Int := -60

structure CachedPower where
  f : Nat
  e : Int
  k : Int
  deriving DecidableEq, Repr

def cachedPowers : List CachedPower :=
  [⟨0xAB70FE17C79AC6CA, -1060, -300⟩,
   ⟨0xFF77B1FCBEBCDC4F, -1034, -292⟩,
   ⟨0xBE5691EF416BD60C, -1007, -284⟩,
   ⟨0x8DD01FAD907FFC3C, -980, -276⟩,
   ⟨0xD3515C2831559A83, -954, -268⟩,
   ⟨0x9D71AC8FADA6C9B5, -927, -260⟩,
   ⟨0xEA9C227723EE8BCB, -901, -252⟩,
   ⟨0xAECC49914078536D, -874, -244⟩,
   ⟨0x823C12795DB6CE57, -847, -236⟩,
   ⟨0xC21094364DFB5637, -821, -228⟩,
   ⟨0x9096EA6F3848984F, -794, -220⟩,
   ⟨0xD77485CB25823AC7, -768, -212⟩,
   ⟨0xA086CFCD97BF97F4, -741, -204⟩,
   ⟨0xEF340A98172AACE5, -715, -196⟩,
   ⟨0xB23867FB2A35B28E, -688, -188⟩,
   ⟨0x84C8D4DFD2C63F3B, -661, -180⟩,
   ⟨0xC5DD44271AD3CDBA, -635, -172⟩,
   ⟨0x936B9FCEBB25C996, -608, -164⟩,
   ⟨0xDBAC6C247D62A584, -582, -156⟩,
   ⟨0xA3AB66580D5FDAF6, -555, -148⟩,
   ⟨0xF3E2F893DEC3F126, -529, -140⟩,
   ⟨0xB5B5ADA8AAFF80B8, -502, -132⟩,
   ⟨0x87625F056C7C4A8B, -475, -124⟩,
   ⟨0xC9BCFF6034C13053, -449, -116⟩,
   ⟨0x964E858C91BA2655, -422, -108⟩,
   ⟨0xDFF9772470297EBD, -396, -100⟩,
   ⟨0xA6DFBD9FB8E5B88F, -369, -92⟩,
   ⟨0xF8A95FCF88747D94, -343, -84⟩,
   ⟨0xB94470938FA89BCF, -316, -76⟩,
   ⟨0x8A08F0F8BF0F156B, -289, -68⟩,
   ⟨0xCDB02555653131B6, -263, -60⟩,
   ⟨0x993FE2C6D07B7FAC, -236, -52⟩,
   ⟨0xE45C10C42A2B3B06, -210, -44⟩,
   ⟨0xAA242499697392D3, -183, -36⟩,
   ⟨0xFD87B5F28300CA0E, -157, -28⟩,
   ⟨0xBCE5086492111AEB, -130, -20⟩,
   ⟨0x8CBCCC096F5088CC, -103, -12⟩,
   ⟨0xD1B71758E219652C, -77, -4⟩,
   ⟨0x9C40000000000000, -50, 4⟩,
   ⟨0xE8D4A51000000000, -24, 12⟩,
   ⟨0xAD78EBC5AC620000, 3, 20⟩,
   ⟨0x813F3978F8940984, 30, 28⟩,
   ⟨0xC097CE7BC90715B3, 56, 36⟩,
   ⟨0x8F7E32CE7BEA5C70, 83, 44⟩,
   ⟨0xD5D238A4ABE98068, 109, 52⟩,
   ⟨0x9F4F2726179A2245, 136, 60⟩,
   ⟨0xED63A231D4C4FB27, 162, 68⟩,
   ⟨0xB0DE65388CC8ADA8, 189, 76⟩,
   ⟨0x83C7088E1AAB65DB, 216, 84⟩,
   ⟨0xC45D1DF942711D9A, 242, 92⟩,
   ⟨0x924D692CA61BE758, 269, 100⟩,
   ⟨0xDA01EE641A708DEA, 295, 108⟩,
   ⟨0xA26DA3999AEF774A, 322, 116⟩,
   ⟨0xF209787BB47D6B85, 348, 124⟩,
   ⟨0xB454E4A179DD1877, 375, 132⟩,
   ⟨0x865B86925B9BC5C2, 402, 140⟩,
   ⟨0xC83553C5C8965D3D, 428, 148⟩,
   ⟨0x952AB45CFA97A0B3, 455, 156⟩,
   ⟨0xDE469FBD99A05FE3, 481, 164⟩,
   ⟨0xA59BC234DB398C25, 508, 172⟩,
   ⟨0xF6C69A72A3989F5C, 534, 180⟩,
   ⟨0xB7DCBF5354E9BECE, 561, 188⟩,
   ⟨0x88FCF317F22241E2, 588, 196⟩,
   ⟨0xCC20CE9BD35C78A5, 614, 204⟩,
   ⟨0x98165AF37B2153DF, 641, 212⟩,
   ⟨0xE2A0B5DC971F303A, 667, 220⟩,
   ⟨0xA8D9D1535CE3B396, 694, 228⟩,
   ⟨0xFB9B7CD9A4A7443C, 720, 236⟩,
   ⟨0xBB764C4CA7A44410, 747, 244⟩,
   ⟨0x8BAB8EEFB6409C1A, 774, 252⟩,
   ⟨0xD01FEF10A657842C, 800, 260⟩,
   ⟨0x9B10A4E5E9913129, 827, 268⟩,
   ⟨0xE7109BFBA19C0C9D, 853, 276⟩,
   ⟨0xAC2820D9623BF429, 880, 284⟩,
   ⟨0x80444B5E7AA7CF85, 907, 292⟩,
   ⟨0xBF21E44003ACDD2D, 933, 300⟩,
   ⟨0x8E679C2F5E44FF8F, 960, 308⟩,
   ⟨0xD433179D9C8CB841, 986, 316⟩,
   ⟨0x9E19DB92B4E31BA9, 1013, 324⟩]

def minDecExp : Int := -300
def decStep : Int := 8

def cachedPowerForBinaryExponent (e : Int) : Run CachedPower := do
  let f ← i32 ((← i32 (alpha - e)) - 1)
  let k ← i32 ((← i32 (f * 78913)).tdiv (2 ^ 18) + if f > 0 then 1 else 0)
  let index := (← i32 ((← i32 (-minDecExp + k)) + (decStep - 1))).tdiv decStep
  if index < 0 then panics
  else
    match cachedPowers[index.toNat]? with
    | some cached => return cached
    | none => panics

/-- The loop of `find_largest_pow10`; it runs while `k` is over 1. -/
def findLargestPow10From (n pow10 : Nat) : Nat → Nat × Nat
  | k + 2 => if n < pow10 then findLargestPow10From n (pow10 / 10) (k + 1) else (k + 2, pow10)
  | k => (k, pow10)

/-- `find_largest_pow10`: (k, 10^(k-1)) with 10^(k-1) <= n < 10^k. -/
def findLargestPow10 (n : Nat) : Nat × Nat := findLargestPow10From n 1000000000 10

/-- `buf.push(b'0' + d as u8)`. -/
def push (buf : List UInt8) (d : Nat) : Run (List UInt8) := do
  let c ← add 8 48 (d % 2 ^ 8)
  return buf ++ [UInt8.ofNat c]

/-- `*buf.last_mut().expect(..) -= 1`. -/
def lowerLast (buf : List UInt8) : Run (List UInt8) :=
  match buf.getLast? with
  | none => panics
  | some last => do
    let c ← sub last.toNat 1
    return buf.dropLast ++ [UInt8.ofNat c]

/-- The condition of the loop of `grisu2_round`. -/
def goesOn (dist delta rest tenK : Nat) : Run Bool := do
  if rest < dist then
    if (← sub delta rest) ≥ tenK then
      if (← add 64 rest tenK) < dist then return true
      else return (← sub dist rest) > (← sub (← add 64 rest tenK) dist)
    else return false
  else return false

def grisu2Round (dist delta tenK : Nat) : (limit : Nat) → (buf : List UInt8) → (rest : Nat) →
    Run (List UInt8)
  | 0, _, _ => fail .unfinished
  | limit + 1, buf, rest => do
    if ← goesOn dist delta rest tenK then
      let buf ← lowerLast buf
      let rest ← add 64 rest tenK
      grisu2Round dist delta tenK limit buf rest
    else return buf

/-- The loop over the digits of `p1`; where it returns from `grisu2_digit_gen`, the exponent is with
the digits. -/
def integerDigits (limit dist delta : Nat) (shift : Int) (p2 : Nat) :
    (n : Nat) → (p1 pow10 : Nat) → (buf : List UInt8) → Run (List UInt8 × Option Int)
  | 0, _, _, buf => return (buf, none)
  | n + 1, p1, pow10, buf => do
    let d ← div p1 pow10
    let r ← mod p1 pow10
    let buf ← push buf d
    let rest ← add 64 (← shl 64 r shift) p2
    if rest ≤ delta then
      let tenN ← shl 64 pow10 shift
      let buf ← grisu2Round dist delta tenN limit buf rest
      return (buf, some n)
    else integerDigits limit dist delta shift p2 n r (← div pow10 10) buf

/-- The loop over the digits of `p2`, `left` times at most. -/
def fractionDigits (limit : Nat) (shift : Int) (oneF : Nat) :
    (left p2 delta dist : Nat) → (m : Int) → (buf : List UInt8) → Run (List UInt8 × Int)
  | 0, _, _, _, _, _ => fail .unfinished
  | left + 1, p2, delta, dist, m, buf => do
    let p2 ← mul 64 p2 10
    let d ← shr 64 p2 shift
    let r := p2 &&& (← sub oneF 1)
    let buf ← push buf d
    let m ← i32 (m + 1)
    let delta ← mul 64 delta 10
    let dist ← mul 64 dist 10
    if r ≤ delta then
      let buf ← grisu2Round dist delta oneF limit buf r
      return (buf, ← i32 (-m))
    else fractionDigits limit shift oneF left r delta dist m buf

/-- `grisu2_digit_gen`: appends the digits; the decimal exponent adjustment is with them. -/
def grisu2DigitGen (limit : Nat) (buf : List UInt8) (mMinus w mPlus : DiyFp) :
    Run (List UInt8 × Int) := do
  let delta := (← DiyFp.sub mPlus mMinus).f
  let dist := (← DiyFp.sub mPlus w).f
  let shift ← i32 (-mPlus.e)
  let oneF ← shl 64 1 shift
  let p1 := (← shr 64 mPlus.f shift) % 2 ^ 32
  let p2 := mPlus.f &&& (← sub oneF 1)
  let (k, pow10) := findLargestPow10 p1
  match ← integerDigits limit dist delta shift p2 k p1 pow10 buf with
  | (buf, some n) => return (buf, n)
  | (buf, none) => fractionDigits limit shift oneF limit p2 delta dist 0 buf

/-- `grisu2`: the digits and the exponent of a finite value over 0,
value ~= digits * 10^exponent. -/
def grisu2 (limit : Nat) (bits : Nat) : Run (List UInt8 × Int) := do
  let (v, mMinus, mPlus) ← computeBoundaries bits
  let cached ← cachedPowerForBinaryExponent mPlus.e
  let cMinusK : DiyFp := ⟨cached.f, cached.e⟩
  let w ← v.mul cMinusK
  let wMinus ← mMinus.mul cMinusK
  let wPlus ← mPlus.mul cMinusK
  let lower : DiyFp := ⟨← add 64 wMinus.f 1, wMinus.e⟩
  let upper : DiyFp := ⟨← sub wPlus.f 1, wPlus.e⟩
  let negK ← i32 (-cached.k)
  let (buf, adjustment) ← grisu2DigitGen limit [] lower w upper
  return (buf, ← i32 (negK + adjustment))

end TimePix.Dtoa
