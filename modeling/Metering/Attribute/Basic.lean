import Metering.Decimal.Notation
import Metering.Text.Quoted
import Metering.Text.Structure

/-!
# Attributes

Typed values under textual keys. Two values are the same if they have the same type and content,
floating-point content being compared by bits; `Value.numericEq` is the comparison of content as
numbers, in which a NaN differs from itself and both zeros agree.
-/

namespace Metering

/-- Keys are ordered as texts, by code points. -/
abbrev Key := String

/-- A typed attribute value. A value of a type that has no representation of its own keeps the
name of the type. -/
inductive Value where
  | bool (b : Bool)
  | int (i : Int64)
  | float (x : Binary64)
  | string (s : String)
  | bools (bs : List Bool)
  | ints (is : List Int64)
  | floats (xs : List Binary64)
  | strings (ss : List String)
  | unsupported (typeName : String)
  deriving DecidableEq, Inhabited

structure KeyValue where
  key : Key
  value : Value
  deriving DecidableEq, Inhabited

/-- The numeral of a 64-bit integer. -/
def Numeral.ofInt64 (i : Int64) : String := ofInt i.toInt

namespace Value

def kindName : Value → String
  | bool _ => "bool"
  | int _ => "i64"
  | float _ => "f64"
  | string _ => "string"
  | bools _ => "bool[]"
  | ints _ => "i64[]"
  | floats _ => "f64[]"
  | strings _ => "string[]"
  | unsupported _ => "unsupported"

/-- The parts of a list value, in brackets and separated by commas alone. -/
def bracketed (items : List String) : String := "[" ++ ",".intercalate items ++ "]"

/-- The content as text: a text as it is, and texts in a list quoted. -/
def text : Value → String
  | bool b => Text.truth b
  | int i => Numeral.ofInt64 i
  | float x => Decimal.plain x
  | string s => s
  | bools bs => bracketed (bs.map Text.truth)
  | ints is => bracketed (is.map Numeral.ofInt64)
  | floats xs => bracketed (xs.map Decimal.plain)
  | strings ss => bracketed (ss.map Text.quoted)
  | unsupported typeName => "<unsupported " ++ typeName ++ ">"

/-- The inspection text, which shows the type. -/
def inspect : Value → String
  | bool b => Text.applied "Bool" [Text.truth b]
  | int i => Text.applied "I64" [Numeral.ofInt64 i]
  | float x => Text.applied "F64" [Decimal.marked x]
  | string s => Text.applied "String" [Text.quoted s]
  | bools bs => array "Bool" (bs.map Text.truth)
  | ints is => array "I64" (is.map Numeral.ofInt64)
  | floats xs => array "F64" (xs.map Decimal.marked)
  | strings ss => array "String" (ss.map Text.quoted)
  | unsupported typeName => Text.applied "Unsupported" [Text.quoted typeName]
where
  array (kind : String) (items : List String) : String :=
    Text.applied "Array" [Text.applied kind [Text.listing items]]

/-- Whether two lists of doubles are numerically equal place by place. -/
def allNumericEq : List Binary64 → List Binary64 → Bool
  | [], [] => true
  | x :: xs, y :: ys => x.numericEq y && allNumericEq xs ys
  | _, _ => false

/-- Equality of type and content, doubles being compared as numbers. -/
def numericEq : Value → Value → Bool
  | float x, float y => x.numericEq y
  | floats xs, floats ys => allNumericEq xs ys
  | v, w => v = w

end Value
end Metering
