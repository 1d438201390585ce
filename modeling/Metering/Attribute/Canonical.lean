import Metering.Attribute.LabelSet

/-!
# The canonical encoding

A text that identifies a list of attributes: texts are written with their length in bytes in
front, numbers with an end mark, and every value with a letter for its type.
-/

namespace Metering.Canonical

/-- A text after its length. -/
def sized (s : String) : String := Numeral.ofNat s.utf8ByteSize ++ ":" ++ s

def flag (b : Bool) : String := if b then "T" else "F"

def int (i : Int64) : String := Numeral.ofInt64 i ++ ";"

def float (x : Binary64) : String := Numeral.paddedHex 16 x.word

/-- The items of a list after the letter of their type and their number. -/
def list {α : Type} (letter : String) (item : α → String) (items : List α) : String :=
  letter ++ Numeral.ofNat items.length ++ ":" ++ String.join (items.map item)

def value : Value → String
  | .bool b => "b" ++ flag b
  | .int i => "i" ++ int i
  | .float x => "f" ++ float x
  | .string s => "s" ++ sized s
  | .bools bs => list "B" flag bs
  | .ints is => list "I" int is
  | .floats xs => list "F" float xs
  | .strings ss => list "S" sized ss
  | .unsupported typeName => "u" ++ sized typeName

def keyValue (kv : KeyValue) : String := sized kv.key ++ value kv.value

/-- The encoding of a list of attributes, in the order given. -/
def encode (kvs : List KeyValue) : String := String.join (kvs.map keyValue)

end Canonical

namespace LabelSet

/-- The text that identifies a label set. -/
def encoded (s : LabelSet) : String := Canonical.encode s.entries

/-- The hash of a label set, that of its text. -/
def hash (digest : String → UInt64) (s : LabelSet) : UInt64 := digest s.encoded

/-- Whether two label sets are the same: the texts are compared only if the hashes agree. -/
def same (digest : String → UInt64) (s t : LabelSet) : Bool :=
  s.hash digest == t.hash digest && s.encoded == t.encoded

end LabelSet

end Metering
