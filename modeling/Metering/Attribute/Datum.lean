import Metering.Attribute.Basic

/-!
# Values of host data

How data of a host program become attribute values: integers that every 64-bit signed integer
type can hold are widened, single-precision numbers are extended, and data of any other type
leave the name of their type.
-/

namespace Metering

/-- The integer types of a host program; `none` stands for the machine's word size. -/
structure IntegerType where
  signed : Bool
  width : Option Nat
  deriving DecidableEq

namespace IntegerType

def name (t : IntegerType) : String :=
  (if t.signed then "i" else "u") ++
    match t.width with
    | some n => Numeral.ofNat n
    | none => "size"

def ofName? (s : String) : Option IntegerType :=
  let widths := [some 8, some 16, some 32, some 64, some 128, none]
  (widths.flatMap fun w => [⟨true, w⟩, ⟨false, w⟩]).find? fun t => t.name == s

/-- Whether the type has a fixed width and all its integers are 64-bit signed ones. -/
def isWidened (t : IntegerType) : Bool :=
  match t.width with
  | some n => if t.signed then n ≤ 64 else n ≤ 32
  | none => false

end IntegerType

inductive Datum where
  | value (v : Value)
  | integer (type : IntegerType) (i : Int)
  | single (bits : UInt32)
  | other (typeName : String)

def Value.ofDatum : Datum → Value
  | .value v => v
  | .integer type i => if type.isWidened then .int (Int64.ofInt i) else .unsupported type.name
  | .single bits => .float (Binary64.ofSingle bits)
  | .other typeName => .unsupported typeName

end Metering
