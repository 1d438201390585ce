import Metering.Attribute.Basic

/-!
# Merging ordered attributes

Two lists in order of keys become one list in order of keys; where both have a key next, the
first list's attribute is taken and the second's dropped.
-/

namespace Metering

def mergeAttributes : List KeyValue → List KeyValue → List KeyValue
  | [], bs => bs
  | as, [] => as
  | a :: as, b :: bs =>
    if a.key < b.key then a :: mergeAttributes as (b :: bs)
    else if a.key = b.key then a :: mergeAttributes as bs
    else b :: mergeAttributes (a :: as) bs
termination_by as bs => as.length + bs.length

end Metering
