import Metering.Proofs.Attribute.Lookup
import Metering.Resource.Environment

/-!
# Resources under merging

A resource is what it finds for each key, and a merge finds what the second resource holds, or else
what the first one does. So the laws of a choice between two answers are laws of merging, and a
list of detectors finds what the last of them holds that holds anything.
-/

namespace Metering.Resource

theorem eq_of_get?_eq {a b : Resource} (h : ∀ key, a.get? key = b.get? key) : a = b := by
  have hattributes : a.attributes = b.attributes := by
    apply LabelSet.eq_of_mem_iff
    intro kv
    rw [← LabelSet.get?_eq_some_iff, ← LabelSet.get?_eq_some_iff]
    exact iff_of_eq (congrArg (· = some kv.value) (h kv.key))
  cases a
  cases b
  exact congrArg mk hattributes

theorem eq_empty_of_isEmpty {a : Resource} (h : a.isEmpty = true) : a = empty := by
  obtain ⟨⟨entries, hordered⟩⟩ := a
  obtain rfl : entries = [] := List.isEmpty_iff.mp h
  rfl

/-! ## Laws -/

theorem empty_merge (a : Resource) : empty.merge a = a := by
  apply eq_of_get?_eq
  intro key
  rw [get?_merge, get?_empty, Option.or_none]

theorem merge_empty (a : Resource) : a.merge empty = a := by
  apply eq_of_get?_eq
  intro key
  rw [get?_merge, get?_empty, Option.none_or]

theorem merge_self (a : Resource) : a.merge a = a := by
  apply eq_of_get?_eq
  intro key
  rw [get?_merge, Option.or_self]

theorem merge_assoc (a b c : Resource) : (a.merge b).merge c = a.merge (b.merge c) := by
  apply eq_of_get?_eq
  intro key
  rw [get?_merge, get?_merge, get?_merge, get?_merge, Option.or_assoc]

/-- Attributes have to be put together only where both resources hold some. -/
theorem merge_eq_ite (a b : Resource) : a.merge b =
    if a.isEmpty then b
    else if b.isEmpty then a
    else .ofList (a.attributes.entries ++ b.attributes.entries) := by
  split
  next ha => rw [eq_empty_of_isEmpty ha, empty_merge]
  next =>
    split
    next hb => rw [eq_empty_of_isEmpty hb, merge_empty]
    next => rfl

/-! ## Detectors -/

/-- The detectors that come later stand in front of what was found before them. -/
theorem get?_foldl_merge (env : Environment) (detectors : List Detector) (found : Resource)
    (key : Key) :
    (detectors.foldl (fun r d => r.merge (d.detect env)) found).get? key =
      (detectors.reverse.findSome? fun d => (d.detect env).get? key).or (found.get? key) := by
  induction detectors generalizing found with
  | nil => rfl
  | cons d detectors ih =>
    rw [List.foldl_cons, ih, get?_merge, List.reverse_cons, List.findSome?_append, Option.or_assoc,
      List.findSome?_singleton]

theorem get?_ofDetectors (env : Environment) (detectors : List Detector) (key : Key) :
    (ofDetectors env detectors).get? key =
      detectors.reverse.findSome? fun d => (d.detect env).get? key := by
  rw [ofDetectors, get?_foldl_merge, get?_empty, Option.or_none]

/-- Merging lets the second resource's values win, key by key. It is associative and idempotent and
has the empty resource as identity on both sides, where resources are equal if and only if they
are found to be the same, and if and only if their hashes and identifying texts agree. For each
key a list of detectors finds what the last detector holds that holds anything there. -/
theorem merge_last_wins :
    (∀ (a b : Resource) (key : Key), (a.merge b).get? key = (b.get? key).or (a.get? key)) ∧
      (∀ a b c : Resource, (a.merge b).merge c = a.merge (b.merge c)) ∧
      (∀ a : Resource, a.merge a = a ∧ empty.merge a = a ∧ a.merge empty = a) ∧
      (∀ a b : Resource, a.merge b =
        if a.isEmpty then b
        else if b.isEmpty then a
        else .ofList (a.attributes.entries ++ b.attributes.entries)) ∧
      (∀ (digest : String → UInt64) (a b : Resource),
        (a.attributes.same digest b.attributes = true ↔ a = b) ∧
          (a = b ↔ a.attributes.hash digest = b.attributes.hash digest ∧
            a.identity = b.identity)) ∧
      ∀ (env : Environment) (detectors : List Detector) (key : Key),
        (ofDetectors env detectors).get? key =
          detectors.reverse.findSome? fun d => (d.detect env).get? key := by
  refine ⟨get?_merge, merge_assoc, fun a => ⟨merge_self a, empty_merge a, merge_empty a⟩,
    merge_eq_ite, fun digest a b => ?_, get?_ofDetectors⟩
  have hsame : a.attributes.same digest b.attributes = true ↔ a = b := by
    rw [LabelSet.same_iff_eq]
    cases a
    cases b
    rw [mk.injEq]
  refine ⟨hsame, hsame.symm.trans ?_⟩
  rw [LabelSet.same, Bool.and_eq_true, beq_iff_eq, beq_iff_eq, identity, identity]

end Metering.Resource
