/-!
# Inspection texts of composite values

The pieces from which inspection texts are put together: records with named fields, applied
constructors, lists and maps. Every function takes the texts of the parts.
-/

namespace Metering.Text

/-- A record: its name and its fields in order. -/
def record (name : String) (fields : List (String × String)) : String :=
  let parts := fields.map fun (field, text) => field ++ ": " ++ text
  if parts.isEmpty then name else name ++ " \x7b " ++ ", ".intercalate parts ++ " \x7d"

/-- A record of which only some fields are shown. -/
def recordAbridged (name : String) (fields : List (String × String)) : String :=
  let parts := fields.map fun (field, text) => field ++ ": " ++ text ++ ", "
  name ++ " \x7b " ++ String.join parts ++ ".. \x7d"

/-- A constructor applied to arguments. -/
def applied (name : String) (args : List String) : String :=
  name ++ "(" ++ ", ".intercalate args ++ ")"

def listing (items : List String) : String :=
  "[" ++ ", ".intercalate items ++ "]"

/-- A map, as its entries in order. -/
def mapping (entries : List (String × String)) : String :=
  "\x7b" ++ ", ".intercalate (entries.map fun (key, value) => key ++ ": " ++ value) ++ "\x7d"

def optional : Option String → String
  | none => "None"
  | some text => applied "Some" [text]

def truth (b : Bool) : String := if b then "true" else "false"

end Metering.Text
