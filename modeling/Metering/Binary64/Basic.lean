/-!
# Double-precision numbers

A double is its 64 bits. A finite double of sign `s` has the value `± magnitude / 2 ^ 1074`
with a natural number as magnitude, so that sums and comparisons are integer arithmetic,
and rounding to the nearest double (ties to the even significand) is one division.
-/

namespace Metering

/-- An IEEE 754 binary64 datum, held as its bits: every NaN keeps its payload. -/
structure Binary64 where
  bits : UInt64
  deriving DecidableEq, Hashable, Inhabited

namespace Binary64

def word (x : Binary64) : Nat := x.bits.toNat

def unsigned (x : Binary64) : Nat := x.word % (1 <<< 63)

def isNegative (x : Binary64) : Bool := 1 <<< 63 ≤ x.word

/-- The biased exponent, eleven bits. -/
def exponentField (x : Binary64) : Nat := x.unsigned >>> 52

/-- The trailing significand, fifty-two bits. -/
def fraction (x : Binary64) : Nat := x.unsigned % (1 <<< 52)

/-- The word of positive infinity; larger unsigned words are the NaNs. -/
def infinityWord : Nat := 0x7ff <<< 52

def isNaN (x : Binary64) : Bool := infinityWord < x.unsigned

def isInfinite (x : Binary64) : Bool := x.unsigned = infinityWord

def isFinite (x : Binary64) : Bool := x.unsigned < infinityWord

/-- The double with the given sign and unsigned word. -/
def ofWord (negative : Bool) (unsigned : Nat) : Binary64 :=
  ⟨UInt64.ofNat (unsigned + if negative then 1 <<< 63 else 0)⟩

def zero : Binary64 := ofWord false 0

def infinity (negative : Bool) : Binary64 := ofWord negative infinityWord

/-- The largest finite double of a sign. -/
def largest (negative : Bool) : Binary64 := ofWord negative (infinityWord - 1)

/-- The NaN that an invalid operation produces. -/
def invalid : Binary64 := ofWord true (infinityWord + 1 <<< 51)

/-- The same NaN with its quiet bit set. -/
def quieted (x : Binary64) : Binary64 := ⟨x.bits ||| 0x0008000000000000⟩

/-! ## Finite values -/

/-- The integral significand; the hidden bit is absent from subnormal numbers. -/
def significand (x : Binary64) : Nat :=
  if x.exponentField = 0 then x.fraction else 1 <<< 52 + x.fraction

/-- The binary exponent of the significand's unit, counted from `2 ^ -1074`. -/
def unitExponent (x : Binary64) : Nat := x.exponentField - 1

/-- A finite double's absolute value in units of `2 ^ -1074`. -/
def magnitude (x : Binary64) : Nat := x.significand <<< x.unitExponent

/-- A finite double's value in units of `2 ^ -1074`. -/
def scaled (x : Binary64) : Int :=
  if x.isNegative then -(x.magnitude : Int) else x.magnitude

/-- The integer nearest to `n / d`, a tie going to the even one. -/
def divideToEven (n d : Nat) : Nat :=
  let q := n / d
  let twice := 2 * (n % d)
  if d < twice ∨ (twice = d ∧ q % 2 = 1) then q + 1 else q

/-- The double nearest to `± n / 2 ^ 1074`. Rounding may carry into the exponent, which the
sum of exponent and significand then holds, and from the largest double on into infinity. -/
def ofMagnitude (negative : Bool) (n : Nat) : Binary64 :=
  let p := n.log2 - 52
  ofWord negative (min infinityWord (p <<< 52 + divideToEven n (1 <<< p)))

def ofInt (i : Int) : Binary64 :=
  ofMagnitude (i < 0) (i.natAbs <<< 1074)

/-- The integer part, for a finite double. -/
def truncate (x : Binary64) : Int :=
  let n : Int := ((x.magnitude >>> 1074 : Nat) : Int)
  if x.isNegative then -n else n

/-- The integer part, clamped to an interval that holds zero; a NaN gives zero. -/
def clampTo (lo hi : Int) (x : Binary64) : Int :=
  if x.isNaN then 0
  else if x.isInfinite then (if x.isNegative then lo else hi)
  else max lo (min hi x.truncate)

/-! ## Arithmetic -/

/-- The sum rounded to nearest. A NaN operand is returned quieted, the left one first; an
exact zero is negative only if both operands are. -/
def add (x y : Binary64) : Binary64 :=
  if x.isNaN then x.quieted
  else if y.isNaN then y.quieted
  else if x.isInfinite then
    (if y.isInfinite && x.isNegative != y.isNegative then invalid else x)
  else if y.isInfinite then y
  else
    let s := x.scaled + y.scaled
    if s = 0 then ofWord (x.isNegative && y.isNegative) 0 else ofMagnitude (s < 0) s.natAbs

def negate (x : Binary64) : Binary64 := ⟨x.bits ^^^ 0x8000000000000000⟩

/-- The difference, rounded to nearest; a NaN operand keeps its sign. -/
def sub (x y : Binary64) : Binary64 :=
  if x.isNaN || y.isNaN then add x y else add x y.negate

/-! ## Order -/

/-- The place of a double that is not a NaN on the number line; both zeros are at zero. -/
def rank (x : Binary64) : Int :=
  if x.isNegative then -(x.unsigned : Int) else x.unsigned

def compare? (x y : Binary64) : Option Ordering :=
  if x.isNaN || y.isNaN then none else some (compare x.rank y.rank)

/-- Numeric equality: zeros of both signs are equal, and a NaN differs from itself. -/
def numericEq (x y : Binary64) : Bool := !x.isNaN && !y.isNaN && x.rank = y.rank

/-- Numeric order, false on NaNs. -/
def le (x y : Binary64) : Bool := !x.isNaN && !y.isNaN && x.rank ≤ y.rank

/-- The place of a double in the total order, which separates the zeros and orders NaNs. -/
def totalRank (x : Binary64) : Int :=
  if x.isNegative then -(x.unsigned : Int) - 1 else x.unsigned

/-! ## Single precision -/

/-- The double equal to a binary32 datum, given by its bits; a NaN is quieted. -/
def ofSingle (bits : UInt32) : Binary64 :=
  let w := bits.toNat
  let negative : Bool := 1 <<< 31 ≤ w
  let e := w >>> 23 % 256
  let f := w % (1 <<< 23)
  if e = 255 then
    if f = 0 then infinity negative else (ofWord negative (infinityWord + f <<< 29)).quieted
  else
    let m := if e = 0 then f else 1 <<< 23 + f
    ofMagnitude negative (m <<< (e - 1 + (1074 - 149)))

end Binary64
end Metering
