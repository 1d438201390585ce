import Metering.Attribute.Basic

/-!
# Label sets

A label set is a finite map from keys to values, held in increasing order of keys. Built from a
list it takes the last value given for each key.
-/

namespace Metering

/-- A list of attributes in strictly increasing order of keys. -/
def KeyOrdered (kvs : List KeyValue) : Prop := kvs.Pairwise (·.key < ·.key)

/-- A map from keys to values. -/
structure LabelSet where
  entries : List KeyValue
  ordered : KeyOrdered entries

namespace LabelSet

instance : DecidableEq LabelSet := fun s t =>
  decidable_of_iff (s.entries = t.entries) (by cases s; cases t; simp)

/-- The attributes whose keys were not seen before, in the order given. -/
def firsts (seen : List Key) : List KeyValue → List KeyValue
  | [] => []
  | kv :: kvs => if kv.key ∈ seen then firsts seen kvs else kv :: firsts (kv.key :: seen) kvs

/-- The last attribute of each key, in the order given. -/
def lasts (kvs : List KeyValue) : List KeyValue := (firsts [] kvs.reverse).reverse

/-- Puts an attribute behind those whose keys are not larger. -/
def place (es : List KeyValue) (kv : KeyValue) : List KeyValue :=
  match es with
  | [] => [kv]
  | e :: es => if kv.key < e.key then kv :: e :: es else e :: place es kv

/-- The attributes in order of their keys, those with one key in the order given. -/
def sort (kvs : List KeyValue) : List KeyValue := kvs.foldl place []

theorem key_notMem_seen {seen : List Key} {kvs : List KeyValue} {kv : KeyValue}
    (h : kv ∈ firsts seen kvs) : kv.key ∉ seen := by
  induction kvs generalizing seen with
  | nil => simp [firsts] at h
  | cons e es ih =>
    rw [firsts] at h
    split at h
    · exact ih h
    next hseen =>
      rcases List.mem_cons.mp h with rfl | h
      · exact hseen
      · exact List.not_mem_of_not_mem_cons (ih h)

theorem distinct_firsts (seen : List Key) (kvs : List KeyValue) :
    (firsts seen kvs).Pairwise (·.key ≠ ·.key) := by
  induction kvs generalizing seen with
  | nil => exact .nil
  | cons e es ih =>
    rw [firsts]
    split
    · exact ih seen
    · refine List.pairwise_cons.mpr ⟨fun kv hkv heq => ?_, ih _⟩
      exact key_notMem_seen hkv (heq ▸ List.mem_cons_self)

theorem distinct_lasts (kvs : List KeyValue) : (lasts kvs).Pairwise (·.key ≠ ·.key) :=
  List.pairwise_reverse.mpr ((distinct_firsts [] kvs.reverse).imp Ne.symm)

theorem perm_place (es : List KeyValue) (kv : KeyValue) : (place es kv).Perm (kv :: es) := by
  induction es with
  | nil => exact .refl _
  | cons d ds ih =>
    rw [place]
    split
    · exact .refl _
    · exact (ih.cons d).trans (.swap kv d ds)

theorem mem_place {es : List KeyValue} {kv e : KeyValue} : e ∈ place es kv ↔ e = kv ∨ e ∈ es :=
  (perm_place es kv).mem_iff.trans List.mem_cons

theorem ordered_place {es : List KeyValue} {kv : KeyValue} (h : KeyOrdered es)
    (hnew : ∀ e ∈ es, e.key ≠ kv.key) : KeyOrdered (place es kv) := by
  induction es with
  | nil => exact List.pairwise_singleton _ _
  | cons d ds ih =>
    obtain ⟨hd, hds⟩ := List.pairwise_cons.mp h
    rw [place]
    split
    next hlt =>
      refine List.pairwise_cons.mpr ⟨fun e he => ?_, h⟩
      rcases List.mem_cons.mp he with rfl | he
      · exact hlt
      · exact String.lt_trans hlt (hd e he)
    next hlt =>
      refine List.pairwise_cons.mpr ⟨fun e he => ?_, ih hds fun e he => hnew e (.tail _ he)⟩
      rcases mem_place.mp he with rfl | he
      · apply Decidable.byContradiction
        intro hge
        exact hnew d (.head _) (String.le_antisymm (String.not_lt.mp hlt) (String.not_lt.mp hge))
      · exact hd e he

theorem ordered_foldl_place {es kvs : List KeyValue} (h : KeyOrdered es)
    (hkvs : kvs.Pairwise (·.key ≠ ·.key)) (hnew : ∀ kv ∈ kvs, ∀ e ∈ es, e.key ≠ kv.key) :
    KeyOrdered (kvs.foldl place es) := by
  induction kvs generalizing es with
  | nil => exact h
  | cons kv kvs ih =>
    obtain ⟨hkv, hkvs⟩ := List.pairwise_cons.mp hkvs
    refine ih (ordered_place h (hnew kv (.head _))) hkvs fun d hd e he => ?_
    rcases mem_place.mp he with rfl | he
    · exact hkv d hd
    · exact hnew d (.tail _ hd) e he

theorem ordered_sort {kvs : List KeyValue} (h : kvs.Pairwise (·.key ≠ ·.key)) :
    KeyOrdered (sort kvs) :=
  ordered_foldl_place .nil h fun _ _ _ he => nomatch he

def empty : LabelSet := ⟨[], .nil⟩

instance : Inhabited LabelSet := ⟨empty⟩

/-- The set of the last values given for each key. -/
def ofList (kvs : List KeyValue) : LabelSet := ⟨sort (lasts kvs), ordered_sort (distinct_lasts kvs)⟩

def size (s : LabelSet) : Nat := s.entries.length

def isEmpty (s : LabelSet) : Bool := s.entries.isEmpty

/-- The value of a key among ordered attributes, of which half are left out at each step. -/
def search (key : Key) (es : List KeyValue) : Option Value :=
  match _h : es.drop (es.length / 2) with
  | [] => none
  | e :: later =>
    if key < e.key then search key (es.take (es.length / 2))
    else if key = e.key then some e.value
    else search key later
termination_by es.length
decreasing_by
  all_goals
    have := congrArg List.length _h
    simp only [List.length_drop, List.length_take, List.length_cons] at *
    omega

def get? (s : LabelSet) (key : Key) : Option Value := search key s.entries

def filter (s : LabelSet) (keep : KeyValue → Bool) : LabelSet :=
  ⟨s.entries.filter keep, s.ordered.filter _⟩

/-- Filtering by a predicate that may fail: the first failure among the attributes, or the
attributes that satisfy it. -/
def filterM {ε : Type} (s : LabelSet) (keep : KeyValue → Except ε Bool) : Except ε LabelSet :=
  match s.entries.mapM keep with
  | .error e => .error e
  | .ok _ => .ok (s.filter fun kv => match keep kv with | .ok b => b | .error _ => false)

def inspect (s : LabelSet) : String :=
  Text.mapping (s.entries.map fun kv => (Text.quoted kv.key, kv.value.inspect))

end LabelSet
end Metering
