import Metering.Attribute.LabelSet

/-!
# The display encoding

Attributes as `key=value` separated by commas. Commas, equals signs and backslashes of keys and
values are marked by a backslash, so that the text can be taken apart again.
-/

namespace Metering

/-- How a list of attributes is written. -/
abbrev LabelEncoder := List KeyValue → String

namespace Display

/-- The characters with a meaning of their own. -/
def isSpecial (c : Char) : Bool := c = '\\' || c = ',' || c = '='

def escape : List Char → List Char
  | [] => []
  | c :: cs => if isSpecial c then '\\' :: c :: escape cs else c :: escape cs

def keyValue (kv : KeyValue) : String :=
  String.ofList (escape kv.key.toList) ++ "=" ++ String.ofList (escape kv.value.text.toList)

/-- The encoding of a list of attributes, in the order given. -/
def encode : LabelEncoder := fun kvs => ",".intercalate (kvs.map keyValue)

/-- An encoder that shows the kinds of the values: every attribute in brackets. -/
def encodeKinds : LabelEncoder := fun kvs =>
  String.join (kvs.map fun kv => "[" ++ kv.key ++ ":" ++ kv.value.kindName ++ "]")

end Display

/-- A label set as written by an encoder; the empty set is always the empty text. -/
def LabelSet.encodedWith (s : LabelSet) (encoder : LabelEncoder) : String :=
  if s.isEmpty then "" else encoder s.entries

end Metering
