import Mathlib.Data.Finset.Card
import Metering.Proofs.Attribute.Canonical

/-!
# A label set is a map

Of the attributes that are given for a key the last one counts, whatever their order otherwise is.
The set holds the resulting map in order of keys, the search by halves finds what it holds, and
the texts of two sets agree if and only if the maps do.
-/

namespace Metering

/-- The last value given for a key. -/
def lastValue? : List KeyValue → Key → Option Value
  | [], _ => none
  | kv :: kvs, key => (lastValue? kvs key).or (if kv.key = key then some kv.value else none)

namespace LabelSet

variable {kvs : List KeyValue}

theorem lastValue?_eq_find? (kvs : List KeyValue) (key : Key) :
    lastValue? kvs key = (kvs.reverse.find? (·.key = key)).map (·.value) := by
  induction kvs with
  | nil => rfl
  | cons kv kvs ih =>
    rw [lastValue?, ih, List.reverse_cons, List.find?_append, Option.map_or]
    by_cases h : kv.key = key <;> simp [h]

theorem mem_keys_iff {key : Key} :
    key ∈ kvs.map (·.key) ↔ ∃ v, lastValue? kvs key = some v := by
  rw [← Option.isSome_iff_exists, lastValue?_eq_find?]
  simp

/-! ## Building -/

theorem mem_firsts {seen : List Key} {kv : KeyValue} : kv ∈ firsts seen kvs ↔
    kv.key ∉ seen ∧ kvs.find? (·.key = kv.key) = some kv := by
  induction kvs generalizing seen with
  | nil => simp [firsts]
  | cons e es ih =>
    rw [firsts, List.find?_cons]
    by_cases hkey : e.key = kv.key
    · by_cases hseen : e.key ∈ seen
      · simp [hseen, ih, ← hkey]
      · simp [hseen, ih, ← hkey, eq_comm]
    · have hne : kv ≠ e := fun h => hkey (h ▸ rfl)
      by_cases hseen : e.key ∈ seen <;> simp [hseen, ih, hkey, hne, Ne.symm hkey]

theorem mem_lasts {kv : KeyValue} :
    kv ∈ lasts kvs ↔ lastValue? kvs kv.key = some kv.value := by
  rw [lasts, List.mem_reverse, mem_firsts, lastValue?_eq_find?]
  simp only [List.not_mem_nil, not_false_eq_true, true_and, Option.map_eq_some_iff]
  refine ⟨fun h => ⟨kv, h, rfl⟩, fun ⟨e, he, hvalue⟩ => ?_⟩
  have hkey : e.key = kv.key := by simpa using List.find?_some he
  obtain rfl : e = kv := by
    cases e
    cases kv
    simp_all
  exact he

theorem perm_foldl_place (es kvs : List KeyValue) : (kvs.foldl place es).Perm (kvs ++ es) := by
  induction kvs generalizing es with
  | nil => exact .refl _
  | cons kv kvs ih =>
    exact (ih (place es kv)).trans (((perm_place es kv).append_left kvs).trans List.perm_middle)

theorem mem_ofList {kv : KeyValue} :
    kv ∈ (ofList kvs).entries ↔ lastValue? kvs kv.key = some kv.value := by
  have hperm := perm_foldl_place [] (lasts kvs)
  rw [List.append_nil] at hperm
  exact hperm.mem_iff.trans mem_lasts

theorem nodup_keys (s : LabelSet) : (s.entries.map (·.key)).Nodup := by
  refine List.pairwise_map.mpr (s.ordered.imp fun {a b} hlt heq => ?_)
  rw [heq] at hlt
  exact String.lt_irrefl _ hlt

theorem mem_keys_ofList {key : Key} :
    key ∈ (ofList kvs).entries.map (·.key) ↔ key ∈ kvs.map (·.key) := by
  rw [List.mem_map]
  constructor
  · rintro ⟨kv, hkv, rfl⟩
    exact mem_keys_iff.mpr ⟨kv.value, mem_ofList.mp hkv⟩
  · intro hkey
    obtain ⟨v, hv⟩ := mem_keys_iff.mp hkey
    exact ⟨⟨key, v⟩, mem_ofList.mpr hv, rfl⟩

theorem size_ofList (kvs : List KeyValue) :
    (ofList kvs).size = (kvs.map (·.key)).toFinset.card := by
  have hkeys : (kvs.map (·.key)).toFinset = ((ofList kvs).entries.map (·.key)).toFinset := by
    ext key
    rw [List.mem_toFinset, List.mem_toFinset, mem_keys_ofList]
  rw [hkeys, List.toFinset_card_of_nodup (nodup_keys _), List.length_map, size]

/-! ## Searching -/

/-- The halves of ordered attributes lie on both sides of the one between them. -/
theorem split_of_drop {es later : List KeyValue} {e : KeyValue} (h : KeyOrdered es) {n : Nat}
    (hdrop : es.drop n = e :: later) :
    (∀ kv, kv ∈ es ↔ kv ∈ es.take n ∨ kv = e ∨ kv ∈ later) ∧
      (∀ kv ∈ es.take n, kv.key < e.key) ∧ ∀ kv ∈ later, e.key < kv.key := by
  have hes : es = es.take n ++ e :: later := by rw [← hdrop, List.take_append_drop]
  have hmem (kv : KeyValue) : kv ∈ es ↔ kv ∈ es.take n ∨ kv = e ∨ kv ∈ later := by
    conv_lhs => rw [hes]
    simp
  have hord := h
  rw [KeyOrdered, hes] at hord
  obtain ⟨-, hright, hacross⟩ := List.pairwise_append.mp hord
  exact ⟨hmem, fun kv hkv => hacross kv hkv e (.head _), (List.pairwise_cons.mp hright).1⟩

theorem search_eq_some_iff {es : List KeyValue} (h : KeyOrdered es) {key : Key} {v : Value} :
    search key es = some v ↔ ⟨key, v⟩ ∈ es := by
  fun_induction search key es with
  | case1 es hdrop =>
    have hnil : es = [] := by
      rw [List.drop_eq_nil_iff] at hdrop
      exact List.length_eq_zero_iff.mp (by omega)
    simp [hnil]
  | case2 es e later hdrop hlt ih =>
    obtain ⟨hmem, -, hafter⟩ := split_of_drop h hdrop
    rw [ih (h.sublist (List.take_sublist _ _)), hmem]
    refine (or_iff_left ?_).symm
    rintro (rfl | hkv)
    · exact String.lt_irrefl _ hlt
    · exact String.lt_asymm hlt (hafter _ hkv)
  | case3 es e later hdrop _ heq =>
    subst heq
    obtain ⟨hmem, hbefore, hafter⟩ := split_of_drop h hdrop
    rw [Option.some_inj, hmem]
    constructor
    · rintro rfl
      exact .inr (.inl rfl)
    · rintro (hkv | hkv | hkv)
      · exact absurd (hbefore _ hkv) (String.lt_irrefl _)
      · exact (congrArg KeyValue.value hkv).symm
      · exact absurd (hafter _ hkv) (String.lt_irrefl _)
  | case4 es e later hdrop hlt hne ih =>
    obtain ⟨hmem, hbefore, -⟩ := split_of_drop h hdrop
    have hlater : KeyOrdered later :=
      (List.pairwise_cons.mp (hdrop ▸ h.sublist (List.drop_sublist _ _))).2
    rw [ih hlater, hmem]
    refine ⟨fun hkv => .inr (.inr hkv), ?_⟩
    rintro (hkv | rfl | hkv)
    · exact absurd (hbefore _ hkv) (String.not_lt.mpr (String.not_lt.mp hlt))
    · exact absurd rfl hne
    · exact hkv

/-! ## Identity -/

theorem same_iff_eq (digest : String → UInt64) {s t : LabelSet} :
    s.same digest t = true ↔ s = t := by
  constructor
  · intro h
    have hencoded : s.encoded = t.encoded := by
      simp only [same, Bool.and_eq_true, beq_iff_eq] at h
      exact h.2
    obtain ⟨es, hes⟩ := s
    obtain ⟨fs, hfs⟩ := t
    obtain rfl : es = fs := Canonical.encode_inj hencoded
    rfl
  · rintro rfl
    simp [same]

theorem eq_of_mem_iff {s t : LabelSet} (h : ∀ kv, kv ∈ s.entries ↔ kv ∈ t.entries) : s = t := by
  have hperm : s.entries.Perm t.entries :=
    (List.perm_ext_iff_of_nodup (List.Nodup.of_map _ (nodup_keys s))
      (List.Nodup.of_map _ (nodup_keys t))).mpr h
  have hentries : s.entries = t.entries :=
    hperm.eq_of_pairwise (fun a b _ _ hab hba => absurd hab (String.lt_asymm hba)) s.ordered
      t.ordered
  obtain ⟨es, hes⟩ := s
  obtain ⟨fs, hfs⟩ := t
  obtain rfl : es = fs := hentries
  rfl

theorem ofList_eq_iff {kvs' : List KeyValue} :
    ofList kvs = ofList kvs' ↔ lastValue? kvs = lastValue? kvs' := by
  constructor
  · intro h
    funext key
    refine Option.ext fun v => ?_
    have hkvs : ⟨key, v⟩ ∈ (ofList kvs).entries ↔ lastValue? kvs key = some v := mem_ofList
    rw [← hkvs, h]
    exact mem_ofList
  · intro h
    refine eq_of_mem_iff fun kv => ?_
    rw [mem_ofList, mem_ofList, h]

/-- A label set is the map of the last values given for its keys: it lists the map in strictly
increasing order of keys, has as many attributes as there are keys, and finds for every key what
the map holds. Two sets are the same, and then have one hash, if and only if their maps are. -/
theorem ofList_is_last_values (kvs : List KeyValue) :
    let s := ofList kvs
    s.entries.Pairwise (·.key < ·.key) ∧
      (∀ kv, kv ∈ s.entries ↔ lastValue? kvs kv.key = some kv.value) ∧
      s.size = (kvs.map (·.key)).toFinset.card ∧
      (∀ key, s.get? key = lastValue? kvs key) ∧
      ∀ (kvs' : List KeyValue) (digest : String → UInt64),
        let t := ofList kvs'
        (s.same digest t = true ↔ lastValue? kvs = lastValue? kvs') ∧
          (s.same digest t = true → s.hash digest = t.hash digest) := by
  refine ⟨(ofList kvs).ordered, fun _ => mem_ofList, size_ofList kvs, fun key => ?_,
    fun kvs' digest => ⟨(same_iff_eq digest).trans ofList_eq_iff, fun h => ?_⟩⟩
  · refine Option.ext fun v => ?_
    rw [get?, search_eq_some_iff (ofList kvs).ordered, mem_ofList]
  · rw [(same_iff_eq digest).mp h]

end LabelSet
end Metering
