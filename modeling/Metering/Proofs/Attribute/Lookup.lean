import Metering.Proofs.Attribute.Merge

/-!
# Looking up attributes

A label set is determined by what it finds for each key. A set built from a list finds the last
value given for a key, and a merge finds what the set that wins holds, or else what the other one
holds.
-/

namespace Metering

namespace LabelSet

theorem get?_eq_some_iff {s : LabelSet} {key : Key} {v : Value} :
    s.get? key = some v ↔ ⟨key, v⟩ ∈ s.entries := search_eq_some_iff s.ordered

theorem get?_eq_lastValue? (s : LabelSet) (key : Key) : s.get? key = lastValue? s.entries key := by
  apply Option.ext
  intro v
  rw [get?_eq_some_iff, s.ordered.lastValue?_eq_some_iff]

theorem get?_ofList (kvs : List KeyValue) (key : Key) :
    (ofList kvs).get? key = lastValue? kvs key := by
  apply Option.ext
  intro v
  rw [get?_eq_some_iff, mem_ofList]

end LabelSet

theorem lastValue?_mergeAttributes {as bs : List KeyValue} (ha : KeyOrdered as)
    (hb : KeyOrdered bs) (key : Key) :
    lastValue? (mergeAttributes as bs) key = (lastValue? as key).or (lastValue? bs key) := by
  apply Option.ext
  intro v
  rw [(ordered_mergeAttributes ha hb).lastValue?_eq_some_iff, mem_mergeAttributes ha hb,
    LabelSet.mem_keys_iff, ← ha.lastValue?_eq_some_iff, ← hb.lastValue?_eq_some_iff]
  cases lastValue? as key <;> simp

namespace Resource

theorem get?_ofList (kvs : List KeyValue) (key : Key) :
    (ofList kvs).get? key = lastValue? kvs key := LabelSet.get?_ofList kvs key

theorem get?_empty (key : Key) : empty.get? key = none := LabelSet.get?_eq_lastValue? .empty key

theorem get?_merge (r s : Resource) (key : Key) :
    (r.merge s).get? key = (s.get? key).or (r.get? key) := by
  rw [merge, get?, LabelSet.get?_ofList, lastValue?_append, ← LabelSet.get?_eq_lastValue?,
    ← LabelSet.get?_eq_lastValue?, get?, get?]

end Resource
end Metering
