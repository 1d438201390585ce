/-!
# Numerals

Writing and reading of integers in a positional base. Reading scans from the left and stops at
the first fault: a character that is no digit of the base, or a value above the limit.
-/

namespace Metering.Numeral

/-- The digits of a number in a base of at least two, the most significant first. -/
def digits (base n : Nat) : List Nat :=
  if _h : base < 2 ∨ n < base then [n]
  else digits base (n / base) ++ [n % base]
termination_by n
decreasing_by exact Nat.div_lt_self (by omega) (by omega)

/-- The numeral of a number in a base of at most sixteen, in lower case. -/
def inBase (base n : Nat) : List Char := (digits base n).map Nat.digitChar

def ofNat (n : Nat) : String := String.ofList (inBase 10 n)

/-- The decimal numeral with a minus sign for negative numbers. -/
def ofInt (i : Int) : String :=
  if i < 0 then "-" ++ ofNat i.natAbs else ofNat i.natAbs

def hex (n : Nat) : String := String.ofList (inBase 16 n)

/-- Zeros on the left up to a width. -/
def padLeft (width : Nat) (cs : List Char) : List Char :=
  List.replicate (width - cs.length) '0' ++ cs

/-- The hexadecimal numeral, padded with zeros to a width. -/
def paddedHex (width n : Nat) : String := String.ofList (padLeft width (inBase 16 n))

/-- Why a text is not a numeral of a number up to the limit. -/
inductive Fault where
  | empty
  | invalidDigit
  | overflow
  deriving DecidableEq, Repr

def Fault.message : Fault → String
  | .empty => "cannot parse integer from empty string"
  | .invalidDigit => "invalid digit found in string"
  | .overflow => "number too large to fit in target type"

/-- The value of a digit, of either case, in bases up to sixteen. -/
def digitValue? (base : Nat) (c : Char) : Option Nat :=
  let v? : Option Nat :=
    if '0' ≤ c ∧ c ≤ '9' then some (c.toNat - '0'.toNat)
    else if 'a' ≤ c ∧ c ≤ 'f' then some (c.toNat - 'a'.toNat + 10)
    else if 'A' ≤ c ∧ c ≤ 'F' then some (c.toNat - 'A'.toNat + 10)
    else none
  v?.filter (· < base)

/-- Reads digits onto a value read so far. -/
def readDigits (base limit : Nat) (value : Nat) : List Char → Except Fault Nat
  | [] => .ok value
  | c :: cs =>
    match digitValue? base c with
    | none => .error .invalidDigit
    | some d =>
      let value := value * base + d
      if limit < value then .error .overflow else readDigits base limit value cs

/-- Reads a numeral of a number up to the limit. One leading plus sign is allowed. -/
def read (base limit : Nat) (s : String) : Except Fault Nat :=
  match s.toList with
  | [] => .error .empty
  | [c] => readDigits base limit 0 [c]
  | c :: d :: cs => readDigits base limit 0 (if c = '+' then d :: cs else c :: d :: cs)

end Metering.Numeral
