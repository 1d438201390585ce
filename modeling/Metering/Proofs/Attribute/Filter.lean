import Metering.Proofs.Attribute.LabelSet

/-!
# Filtering label sets

A filtered set is the set built from the attributes that pass, in whatever order and however often
they are given. Filters compose, and a filter that looks at keys alone may come before the last
value of each key is chosen.
-/

namespace Metering

variable {kvs : List KeyValue} {key : Key} {v : Value}

theorem mem_of_lastValue? (h : lastValue? kvs key = some v) : ⟨key, v⟩ ∈ kvs := by
  rw [LabelSet.lastValue?_eq_find?] at h
  obtain ⟨kv, hfind, hvalue⟩ := Option.map_eq_some_iff.mp h
  have hkey : kv.key = key := by simpa using List.find?_some hfind
  have hmem : kv ∈ kvs := List.mem_reverse.mp (List.mem_of_find?_eq_some hfind)
  rw [← hkey, ← hvalue]
  exact hmem

theorem lastValue?_filter_key (keep : Key → Bool) (kvs : List KeyValue) (key : Key) :
    lastValue? (kvs.filter fun kv => keep kv.key) key =
      if keep key then lastValue? kvs key else none := by
  induction kvs with
  | nil => simp [lastValue?]
  | cons kv kvs ih =>
    rw [lastValue?, List.filter_cons]
    by_cases hkey : kv.key = key
    · subst hkey
      by_cases hkeep : keep kv.key <;> simp [hkeep, lastValue?, ih]
    · by_cases hkeep : keep kv.key <;> simp [hkeep, lastValue?, ih, hkey]

namespace LabelSet

theorem lastValue?_eq_some_iff_of_subset {s : LabelSet} (h : ∀ kv ∈ kvs, kv ∈ s.entries) :
    lastValue? kvs key = some v ↔ ⟨key, v⟩ ∈ kvs := by
  constructor
  · exact mem_of_lastValue?
  · intro hmem
    obtain ⟨w, hw⟩ := mem_keys_iff.mp (List.mem_map_of_mem hmem)
    have hheld : s.get? key = some v := (search_eq_some_iff s.ordered).mpr (h _ hmem)
    have hlast : s.get? key = some w :=
      (search_eq_some_iff s.ordered).mpr (h _ (mem_of_lastValue? hw))
    rw [hw, ← hlast, hheld]

theorem mem_filter {s : LabelSet} {keep : KeyValue → Bool} {kv : KeyValue} :
    kv ∈ (s.filter keep).entries ↔ kv ∈ s.entries ∧ keep kv = true := List.mem_filter

theorem filter_eq_ofList {s : LabelSet} {keep : KeyValue → Bool}
    (h : ∀ kv, kv ∈ kvs ↔ kv ∈ s.entries ∧ keep kv = true) : s.filter keep = ofList kvs := by
  have hsubset : ∀ kv ∈ kvs, kv ∈ s.entries := fun kv hkv => ((h kv).mp hkv).1
  apply eq_of_mem_iff
  intro kv
  rw [mem_filter, mem_ofList, lastValue?_eq_some_iff_of_subset hsubset, ← h]

/-- A set of which all attributes pass is itself, and one of which none passes is the empty set. -/
theorem filter_eq_ite (s : LabelSet) (keep : KeyValue → Bool) :
    s.filter keep =
      if s.entries.all keep then s
      else if (s.entries.filter keep).isEmpty then empty
      else ofList (s.entries.filter keep) := by
  split
  next hall =>
    apply eq_of_mem_iff
    intro kv
    rw [mem_filter, and_iff_left_of_imp (List.all_eq_true.mp hall kv)]
  next =>
    split
    next hnone =>
      apply eq_of_mem_iff
      intro kv
      rw [mem_filter, ← List.mem_filter, List.isEmpty_iff.mp hnone, empty]
    next => exact filter_eq_ofList fun kv => List.mem_filter

theorem filter_filter (s : LabelSet) (keep keep' : KeyValue → Bool) :
    (s.filter keep).filter keep' = s.filter fun kv => keep kv && keep' kv := by
  apply eq_of_mem_iff
  intro kv
  rw [mem_filter, mem_filter, mem_filter, Bool.and_eq_true, and_assoc]

theorem filter_ofList_of_key (keep : Key → Bool) (kvs : List KeyValue) :
    (ofList kvs).filter (fun kv => keep kv.key) = ofList (kvs.filter fun kv => keep kv.key) := by
  apply eq_of_mem_iff
  intro kv
  rw [mem_filter, mem_ofList, mem_ofList, lastValue?_filter_key]
  by_cases hkeep : keep kv.key <;> simp [hkeep]

-- A value that passes may not be the last one of its key.
example : (ofList [⟨"code", .int 1⟩, ⟨"code", .int 2⟩]).filter (fun kv => kv.value = .int 1) ≠
    ofList [⟨"code", .int 1⟩] := by decide

end LabelSet
end Metering
