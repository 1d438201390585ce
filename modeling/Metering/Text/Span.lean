import Metering.Text.Numeral

/-!
# Lengths of time

A length of time is a number of nanoseconds. It is written in the largest of the units second,
millisecond, microsecond and nanosecond that it reaches, with the fraction it needs.
-/

namespace Metering

/-- A length of time in nanoseconds. -/
abbrev Span := Nat

namespace Span

def ofMillis (n : Nat) : Span := n * 1000000

def ofSeconds (n : Nat) : Span := n * 1000000000

def millis (d : Span) : Nat := d / 1000000

/-- A number of units with a fraction of the given places, whose trailing zeros are left out. -/
def inUnit (whole fraction places : Nat) (unit : String) : String :=
  let ds := Numeral.padLeft places (Numeral.inBase 10 fraction)
  let kept := (ds.reverse.dropWhile (· = '0')).reverse
  Numeral.ofNat whole ++ (if kept.isEmpty then "" else "." ++ String.ofList kept) ++ unit

def render (d : Span) : String :=
  if 1000000000 ≤ d then inUnit (d / 1000000000) (d % 1000000000) 9 "s"
  else if 1000000 ≤ d then inUnit (d / 1000000) (d % 1000000) 6 "ms"
  else if 1000 ≤ d then inUnit (d / 1000) (d % 1000) 3 "µs"
  else inUnit d 0 0 "ns"

end Span
end Metering
