import Metering.Decimal.Shortest
import Metering.Text.Numeral

/-!
# Written forms of doubles

Two forms are in use: the plain one is positional whatever the size of the number, and the
marked one always shows that the number is a double, by a fraction or by an exponent.
-/

namespace Metering.Decimal

/-- The digits with the point after the given number of them; missing places are zeros. -/
def positional (ds : List Char) (point : Int) : String :=
  if point ≤ 0 then "0." ++ String.ofList (List.replicate (-point).toNat '0' ++ ds)
  else
    let n := point.toNat
    if ds.length ≤ n then String.ofList (ds ++ List.replicate (n - ds.length) '0')
    else String.ofList (ds.take n) ++ "." ++ String.ofList (ds.drop n)

/-- One digit before the point and an exponent after the letter. -/
def exponential (ds : List Char) (point : Int) : String :=
  let mantissa := match ds with
    | d :: e :: r => String.ofList (d :: '.' :: e :: r)
    | ds => String.ofList ds
  mantissa ++ "e" ++ Numeral.ofInt (point - 1)

/-- The digits of the shortest decimal, and the place of the point counted from the first. -/
def Scientific.parts (s : Scientific) : List Char × Int :=
  let ds := (Numeral.ofNat s.digits).toList
  (ds, ds.length + s.exponent)

def signed (x : Binary64) (s : String) : String :=
  if x.isNegative then "-" ++ s else s

/-- The plain form: positional, without a fraction for integers. -/
def plain (x : Binary64) : String :=
  if x.isNaN then "NaN"
  else if x.isInfinite then signed x "inf"
  else if x.magnitude = 0 then signed x "0"
  else
    let (ds, point) := (shortest x).parts
    signed x (positional ds point)

/-- The marked form: an exponent from `10 ^ 16` up and below `10 ^ -4`, else a fraction. -/
def marked (x : Binary64) : String :=
  if x.isNaN then "NaN"
  else if x.isInfinite then signed x "inf"
  else if x.magnitude = 0 then signed x "0.0"
  else
    let (ds, point) := (shortest x).parts
    if 16 < point ∨ point < -3 then signed x (exponential ds point)
    else if ds.length ≤ point then signed x (positional ds point ++ ".0")
    else signed x (positional ds point)

end Metering.Decimal
