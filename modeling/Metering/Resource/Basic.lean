import Metering.Attribute.Canonical
import Metering.Attribute.Display

/-!
# Resources

The attributes of what produces measurements. Of two merged resources the second wins where both
have a key.
-/

namespace Metering

/-- What produces measurements, by its attributes. -/
structure Resource where
  attributes : LabelSet
  deriving DecidableEq, Inhabited

namespace Resource

def empty : Resource := ⟨.empty⟩

def ofList (kvs : List KeyValue) : Resource := ⟨.ofList kvs⟩

def size (r : Resource) : Nat := r.attributes.size

def isEmpty (r : Resource) : Bool := r.attributes.isEmpty

def get? (r : Resource) (key : Key) : Option Value := r.attributes.get? key

/-- The attributes of both; the second resource's values win. -/
def merge (a b : Resource) : Resource :=
  ⟨.ofList (a.attributes.entries ++ b.attributes.entries)⟩

/-- The text that identifies a resource. -/
def identity (r : Resource) : String := r.attributes.encoded

def inspect (r : Resource) : String :=
  Text.record "Resource" [("attrs", r.attributes.inspect)]

end Resource
end Metering
