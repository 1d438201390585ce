import Metering.Attribute.Merge
import Metering.Proofs.Attribute.LabelSet
import Metering.Resource.Basic

/-!
# The merge of ordered attributes

Two lists in order of keys are merged by comparing their first attributes. Whatever the lists
repeat, the merge is in order of keys, holds the first list in its order and is no longer than
both. Of two label sets it is their union, in which the first set's values win: the attributes of
the two as resources, merged the other way round.
-/

namespace Metering

variable {as bs : List KeyValue}

theorem key_lt_of_not_lt {j k : Key} (hnlt : ¬j < k) (hne : j ≠ k) : k < j := by
  apply Decidable.byContradiction
  intro hge
  exact hne (String.le_antisymm (String.not_lt.mp hge) (String.not_lt.mp hnlt))

theorem mem_or_mem_of_mem_mergeAttributes {kv : KeyValue} (h : kv ∈ mergeAttributes as bs) :
    kv ∈ as ∨ kv ∈ bs := by
  fun_induction mergeAttributes as bs <;> grind

/-- A relation of keys that takes in the order holds throughout a merge if it holds throughout both
lists: it compares the attribute taken with its own list, and the other list is behind it. -/
theorem pairwise_mergeAttributes {R : Key → Key → Prop} (hlt : ∀ {j k}, j < k → R j k)
    (hstep : ∀ {i j k}, i < j → R j k → R i k) (ha : as.Pairwise (R ·.key ·.key))
    (hb : bs.Pairwise (R ·.key ·.key)) :
    (mergeAttributes as bs).Pairwise (R ·.key ·.key) := by
  fun_induction mergeAttributes as bs with
  | case1 bs => exact hb
  | case2 as => exact ha
  | case3 a as b bs hab ih =>
    have ⟨haa, has⟩ := List.pairwise_cons.mp ha
    have ⟨hbb, _⟩ := List.pairwise_cons.mp hb
    apply List.Pairwise.cons _ (ih has hb)
    intro kv hkv
    rcases mem_or_mem_of_mem_mergeAttributes hkv with hkv | hkv
    · exact haa kv hkv
    · rcases List.mem_cons.mp hkv with heq | hkv
      · rw [heq]
        exact hlt hab
      · exact hstep hab (hbb kv hkv)
  | case4 a as b bs _ hab ih =>
    have ⟨haa, has⟩ := List.pairwise_cons.mp ha
    have ⟨hbb, hbs⟩ := List.pairwise_cons.mp hb
    apply List.Pairwise.cons _ (ih has hbs)
    intro kv hkv
    rcases mem_or_mem_of_mem_mergeAttributes hkv with hkv | hkv
    · exact haa kv hkv
    · rw [hab]
      exact hbb kv hkv
  | case5 a as b bs hnlt hne ih =>
    have ⟨haa, _⟩ := List.pairwise_cons.mp ha
    have ⟨hbb, hbs⟩ := List.pairwise_cons.mp hb
    have hba : b.key < a.key := key_lt_of_not_lt hnlt hne
    apply List.Pairwise.cons _ (ih ha hbs)
    intro kv hkv
    rcases mem_or_mem_of_mem_mergeAttributes hkv with hkv | hkv
    · rcases List.mem_cons.mp hkv with heq | hkv
      · rw [heq]
        exact hlt hba
      · exact hstep hba (haa kv hkv)
    · exact hbb kv hkv

/-! ## Lists that repeat keys -/

theorem sorted_mergeAttributes (ha : as.Pairwise (·.key ≤ ·.key))
    (hb : bs.Pairwise (·.key ≤ ·.key)) : (mergeAttributes as bs).Pairwise (·.key ≤ ·.key) := by
  have hle {j k : Key} (hlt : j < k) : j ≤ k := String.not_lt.mp (String.lt_asymm hlt)
  apply pairwise_mergeAttributes hle _ ha hb
  intro i j k hij hjk
  apply String.not_lt.mp
  intro hki
  exact hjk (String.lt_trans hki hij)

theorem sublist_mergeAttributes (as bs : List KeyValue) : as.Sublist (mergeAttributes as bs) := by
  fun_induction mergeAttributes as bs with
  | case1 bs => exact List.nil_sublist bs
  | case2 as => exact List.Sublist.refl as
  | case3 a as b bs _ ih => exact ih.cons_cons a
  | case4 a as b bs _ _ ih => exact ih.cons_cons a
  | case5 a as b bs _ _ ih => exact ih.cons b

theorem length_mergeAttributes_le (as bs : List KeyValue) :
    (mergeAttributes as bs).length ≤ as.length + bs.length := by
  fun_induction mergeAttributes as bs <;> simp only [List.length_cons, List.length_nil] at * <;>
    omega

/-! ## Label sets -/

theorem ordered_mergeAttributes (ha : KeyOrdered as) (hb : KeyOrdered bs) :
    KeyOrdered (mergeAttributes as bs) :=
  pairwise_mergeAttributes (fun h => h) String.lt_trans ha hb

theorem KeyOrdered.lt_of_mem {a kv : KeyValue} (h : KeyOrdered (a :: as)) (hkv : kv ∈ as) :
    a.key < kv.key :=
  (List.pairwise_cons.mp h).1 kv hkv

theorem KeyOrdered.notMem_keys {a : KeyValue} {key : Key} (h : KeyOrdered (a :: as))
    (hlt : key < a.key) : key ∉ (a :: as).map (·.key) := by
  intro hmem
  simp only [List.map_cons, List.mem_cons, List.mem_map] at hmem
  rcases hmem with heq | ⟨kv, hkv, heq⟩
  · rw [heq] at hlt
    exact String.lt_irrefl _ hlt
  · have hbehind := String.lt_trans hlt (h.lt_of_mem hkv)
    rw [heq] at hbehind
    exact String.lt_irrefl _ hbehind

theorem mem_mergeAttributes (ha : KeyOrdered as) (hb : KeyOrdered bs) {kv : KeyValue} :
    kv ∈ mergeAttributes as bs ↔ kv ∈ as ∨ kv ∈ bs ∧ kv.key ∉ as.map (·.key) := by
  fun_induction mergeAttributes as bs with
  | case1 bs => simp
  | case2 as => simp
  | case3 a as b bs hab ih =>
    -- All of the second list is behind `a`, so the key of `a` excludes none of it.
    have hkeep (hkv : kv ∈ b :: bs) : kv.key ≠ a.key := by
      intro heq
      apply hb.notMem_keys hab
      rw [← heq]
      exact List.mem_map_of_mem hkv
    rw [List.mem_cons, ih (List.Pairwise.of_cons ha) hb]
    simp only [List.map_cons, List.mem_cons, not_or] at hkeep ⊢
    tauto
  | case4 a as b bs _ hab ih =>
    have hskip (heq : kv = b) : kv.key = a.key := by rw [heq, hab]
    have hkeep (hkv : kv ∈ bs) : kv.key ≠ a.key := by
      intro heq
      have hlt := hb.lt_of_mem hkv
      rw [heq, hab] at hlt
      exact String.lt_irrefl _ hlt
    rw [List.mem_cons, ih (List.Pairwise.of_cons ha) (List.Pairwise.of_cons hb)]
    simp only [List.map_cons, List.mem_cons, not_or]
    tauto
  | case5 a as b bs hnlt hne ih =>
    have hba : b.key < a.key := key_lt_of_not_lt hnlt hne
    have hkeep (heq : kv = b) : kv.key ∉ (a :: as).map (·.key) := by
      rw [heq]
      exact ha.notMem_keys hba
    rw [List.mem_cons, ih ha (List.Pairwise.of_cons hb), List.mem_cons (a := kv) (b := b)]
    tauto

theorem lastValue?_append (kvs kvs' : List KeyValue) (key : Key) :
    lastValue? (kvs ++ kvs') key = (lastValue? kvs' key).or (lastValue? kvs key) := by
  induction kvs with
  | nil => simp [lastValue?]
  | cons kv kvs ih => rw [List.cons_append, lastValue?, lastValue?, ih, Option.or_assoc]

/-- Ordered attributes give no key twice, so that each is the last one of its key. -/
theorem KeyOrdered.lastValue?_eq_some_iff {es : List KeyValue} (h : KeyOrdered es) {key : Key}
    {v : Value} : lastValue? es key = some v ↔ ⟨key, v⟩ ∈ es := by
  induction es generalizing v with
  | nil => simp [lastValue?]
  | cons e es ih =>
    have hes : KeyOrdered es := List.Pairwise.of_cons h
    rw [lastValue?, Option.or_eq_some_iff, ih hes, List.mem_cons]
    by_cases heq : e.key = key
    · have hnone : lastValue? es key = none := by
        apply Option.eq_none_iff_forall_ne_some.mpr
        intro w hw
        have hlt := h.lt_of_mem ((ih hes).mp hw)
        rw [heq] at hlt
        exact String.lt_irrefl _ hlt
      have hnot : ⟨key, v⟩ ∉ es := by
        intro hmem
        rw [← ih hes, hnone] at hmem
        cases hmem
      cases e
      simp_all [eq_comm]
    · have hne : ⟨key, v⟩ ≠ e := by
        intro he
        exact heq (congrArg KeyValue.key he).symm
      simp [heq, hne]

theorem Resource.mem_merge (r s : Resource) {kv : KeyValue} :
    kv ∈ (r.merge s).attributes.entries ↔ kv ∈ s.attributes.entries ∨
      kv ∈ r.attributes.entries ∧ kv.key ∉ s.attributes.entries.map (·.key) := by
  rw [merge, LabelSet.mem_ofList, lastValue?_append, LabelSet.mem_keys_iff,
    ← r.attributes.ordered.lastValue?_eq_some_iff, ← s.attributes.ordered.lastValue?_eq_some_iff]
  cases lastValue? s.attributes.entries kv.key <;> simp

/-- The merge of two label sets is that of the second as a resource with the first, attribute by
attribute: the union in strictly increasing order of keys, in which the first set's values win. Of
any two lists in order of keys, whatever keys they repeat, the merge is in order, has the first
list's attributes in their order, and is no longer than both together. -/
theorem mergeAttributes_agrees_with_resources :
    (∀ a b : LabelSet,
      let merged := mergeAttributes a.entries b.entries
      merged = ((Resource.mk b).merge ⟨a⟩).attributes.entries ∧
        merged.Pairwise (·.key < ·.key) ∧
        ∀ kv, kv ∈ merged ↔ kv ∈ a.entries ∨ kv ∈ b.entries ∧ kv.key ∉ a.entries.map (·.key)) ∧
      ∀ as bs : List KeyValue, as.Pairwise (·.key ≤ ·.key) → bs.Pairwise (·.key ≤ ·.key) →
        let merged := mergeAttributes as bs
        merged.Pairwise (·.key ≤ ·.key) ∧ as.Sublist merged ∧
          merged.length ≤ as.length + bs.length := by
  constructor
  · intro a b merged
    have hordered : KeyOrdered merged := ordered_mergeAttributes a.ordered b.ordered
    have hunion (kv : KeyValue) :
        kv ∈ merged ↔ kv ∈ a.entries ∨ kv ∈ b.entries ∧ kv.key ∉ a.entries.map (·.key) :=
      mem_mergeAttributes a.ordered b.ordered
    have hsame : (⟨merged, hordered⟩ : LabelSet) = ((Resource.mk b).merge ⟨a⟩).attributes := by
      apply LabelSet.eq_of_mem_iff
      intro kv
      rw [Resource.mem_merge]
      exact hunion kv
    exact ⟨congrArg LabelSet.entries hsame, hordered, hunion⟩
  · intro as bs ha hb merged
    exact ⟨sorted_mergeAttributes ha hb, sublist_mergeAttributes as bs,
      length_mergeAttributes_le as bs⟩

/-- Attributes of one key are dropped pair by pair: the second list's third attribute of the key
finds no partner in the first list, and is kept behind it. -/
theorem mergeAttributes_of_repeated_keys :
    let as := [⟨"b", .int 1⟩, ⟨"b", .int 2⟩, ⟨"d", .int 3⟩]
    let bs := [⟨"a", .int 4⟩, ⟨"b", .int 5⟩, ⟨"b", .int 6⟩, ⟨"b", .int 7⟩]
    mergeAttributes as bs =
        [⟨"a", .int 4⟩, ⟨"b", .int 1⟩, ⟨"b", .int 2⟩, ⟨"b", .int 7⟩, ⟨"d", .int 3⟩] ∧
      (mergeAttributes as bs).Pairwise (·.key ≤ ·.key) ∧ as.Sublist (mergeAttributes as bs) ∧
      (mergeAttributes as bs).length ≤ as.length + bs.length := by
  intro as bs
  constructor
  · have hba : ¬("b" : Key) < "a" := by decide
    have hdb : ¬("d" : Key) < "b" := by decide
    have hbb : ¬("b" : Key) < "b" := String.lt_irrefl "b"
    simp only [as, bs, mergeAttributes, hba, hbb, hdb, String.reduceEq, if_true, if_false]
  · exact mergeAttributes_agrees_with_resources.2 as bs (by decide) (by decide)

end Metering
