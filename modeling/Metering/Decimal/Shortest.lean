import Metering.Binary64.Basic

/-!
# The shortest decimal that reads back

Among the decimals that round to a given positive double, those with the fewest digits lie on
the coarsest grid of powers of ten that has a point in the double's rounding interval; of
these, the one nearest to the double is chosen, and an exact tie goes up.
-/

namespace Metering.Decimal

/-- The number `digits * 10 ^ exponent`. -/
structure Scientific where
  digits : Nat
  exponent : Int
  deriving DecidableEq, Repr

/-- A rational interval around a value, over a common denominator. -/
structure Target where
  low : Nat
  value : Nat
  high : Nat
  denominator : Nat
  /-- whether the ends belong to the interval -/
  closed : Bool

/-- The reals that round to `m * 2 ^ p / 2 ^ 1074`: half a unit to either side, but a quarter
below a power of two, where the spacing halves. The ends belong to it for an even significand. -/
def Target.ofDouble (m p : Nat) : Target :=
  let below := if m = 1 <<< 52 ∧ 0 < p then 1 else 2
  ⟨(4 * m - below) <<< p, (4 * m) <<< p, (4 * m + 2) <<< p, 4 <<< 1074, m % 2 = 0⟩

/-- Whether a multiple of the grid's unit lies in the interval. -/
def Target.holds (t : Target) (d scale : Nat) : Bool :=
  if t.closed then t.low ≤ d * scale ∧ d * scale ≤ t.high
  else t.low < d * scale ∧ d * scale < t.high

/-- The point of the grid with the given exponent that is nearest to the value and in the
interval. -/
def Target.onGrid? (t : Target) (exponent : Int) : Option Nat :=
  let up := Nat.pow 10 (-exponent).toNat
  let unit := Nat.pow 10 exponent.toNat * t.denominator
  let t := { t with low := t.low * up, value := t.value * up, high := t.high * up }
  let d := t.value / unit
  match 0 < d && t.holds d unit, t.holds (d + 1) unit with
  | true, true => some (if t.value - d * unit < (d + 1) * unit - t.value then d else d + 1)
  | true, false => some d
  | false, true => some (d + 1)
  | false, false => none

/-- The first hit on ever finer grids. -/
def Target.search (t : Target) : Nat → Int → Scientific
  | 0, exponent => ⟨0, exponent⟩
  | fuel + 1, exponent =>
    match t.onGrid? exponent with
    | some d => ⟨d, exponent⟩
    | none => t.search fuel (exponent - 1)

/-- The shortest decimal of a finite positive double. The search starts at a power of ten
above the double and needs no more than seventeen digits from the first of them on. -/
def shortest (x : Binary64) : Scientific :=
  let start : Int := ((x.magnitude.log2 : Int) - 1074) * 30103 / 100000 + 2
  (Target.ofDouble x.significand x.unitExponent).search 24 start

end Metering.Decimal
