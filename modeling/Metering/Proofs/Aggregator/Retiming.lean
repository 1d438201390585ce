import Metering.Proofs.Aggregator.New

/-!
# Aggregators at other times

Aggregators that were given the same measurements at other times differ in the stamps of their last
values alone. If the writes are in the same order, every operation keeps this.
-/

theorem Option.Rel.mono {α β : Type} {R S : α → β → Prop} {x : Option α} {y : Option β}
    (h : Option.Rel R x y) (hRS : ∀ a b, R a b → S a b) : Option.Rel S x y := by
  cases h with
  | none => exact .none
  | some hxy => exact .some (hRS _ _ hxy)

namespace Metering

/-- A correspondence between the writes of two runs, which are given by their numbers. -/
abbrev Retiming := Nat → Nat → Prop

namespace Retiming

/-- Whether corresponding writes are in the same order. -/
def Ordered (T : Retiming) : Prop := ∀ ⦃t t' u u'⦄, T t t' → T u u' → (t < u ↔ t' < u')

/-- Whether all corresponding writes come before those with some numbers. -/
def Before (T : Retiming) (next next' : Nat) : Prop := ∀ ⦃t t'⦄, T t t' → t < next ∧ t' < next'

def none : Retiming := fun _ _ => False

/-- A correspondence that continues with some writes from a pair of numbers on. -/
def extend (T : Retiming) (next next' length : Nat) : Retiming := fun t t' =>
  T t t' ∨ ∃ i < length, t = next + i ∧ t' = next' + i

variable {T : Retiming} {next next' : Nat}

theorem Before.mono (h : T.Before next next') {later later' : Nat} (hl : next ≤ later)
    (hl' : next' ≤ later') : T.Before later later' :=
  fun _ _ ht => ⟨(h ht).1.trans_le hl, (h ht).2.trans_le hl'⟩

theorem extend_of (T : Retiming) (next next' length : Nat) :
    ∀ t t', T t t' → T.extend next next' length t t' := fun _ _ h => .inl h

theorem Before.extend (h : T.Before next next') (length : Nat) :
    (T.extend next next' length).Before (next + length) (next' + length) := by
  rintro t t' (ht | ⟨i, hi, rfl, rfl⟩)
  · have := h ht
    omega
  · omega

theorem Ordered.extend (h : T.Ordered) (hb : T.Before next next') (length : Nat) :
    (T.extend next next' length).Ordered := by
  rintro t t' u u' (ht | ⟨i, hi, rfl, rfl⟩) (hu | ⟨j, hj, rfl, rfl⟩)
  · exact h ht hu
  · have := hb ht
    omega
  · have := hb hu
    omega
  · omega

end Retiming

/-- Whether readings have the same value, and stamps of corresponding writes. -/
def Reading.Retimed (T : Retiming) (r r' : Reading) : Prop :=
  r.value = r'.value ∧ T r.stamp.sequence r'.stamp.sequence

namespace Aggregator

/-- Whether aggregators differ at most in the stamps of their last values, which are those of
corresponding writes. -/
def Retimed (T : Retiming) : Aggregator → Aggregator → Prop
  | lastValue r, lastValue r' => Option.Rel (Reading.Retimed T) r r'
  | a, a' => a = a'

/-- An aggregator without the stamp of its last value. -/
def untimed : Aggregator → Aggregator
  | lastValue r => lastValue (r.map fun x => { x with stamp := ⟨0, 0⟩ })
  | a => a

variable {T : Retiming} {a a' b b' : Aggregator} {d : Descriptor}

theorem retimed_cases (h : Retimed T a a') :
    (∃ r r', a = lastValue r ∧ a' = lastValue r' ∧ Option.Rel (Reading.Retimed T) r r') ∨
    (a = a' ∧ ∀ r, a ≠ lastValue r) := by
  cases a with
  | lastValue r =>
    cases a' with
    | lastValue r' => exact .inl ⟨r, r', rfl, rfl, h⟩
    | _ => cases h
  | _ => exact .inr ⟨h, fun r hr => by cases hr⟩

theorem retimed_refl (h : ∀ r, a ≠ lastValue r) : Retimed T a a := by
  cases a with
  | lastValue r => exact absurd rfl (h r)
  | _ => rfl

theorem IsNew.retimed (h : IsNew d a) (T : Retiming) : Retimed T a a := by
  obtain ⟨kind, boundaries, rfl⟩ := h
  cases kind with
  | lastValue => exact .none
  | _ => rfl

theorem Retimed.mono {T' : Retiming} (h : Retimed T a a') (hT : ∀ t t', T t t' → T' t t') :
    Retimed T' a a' := by
  rcases retimed_cases h with ⟨r, r', rfl, rfl, hr⟩ | ⟨rfl, hne⟩
  · exact hr.mono fun _ _ hx => ⟨hx.1, hT _ _ hx.2⟩
  · exact retimed_refl hne

theorem Retimed.untimed_eq (h : Retimed T a a') : a.untimed = a'.untimed := by
  rcases retimed_cases h with ⟨r, r', rfl, rfl, hr⟩ | ⟨rfl, -⟩
  · cases hr with
    | none => rfl
    | some hx => simp [untimed, hx.1]
  · rfl

theorem Retimed.shape_eq (h : Retimed T a a') : a.shape = a'.shape := by
  rcases retimed_cases h with ⟨r, r', rfl, rfl, -⟩ | ⟨rfl, -⟩ <;> rfl

theorem Retimed.kind_eq (h : Retimed T a a') : a.kind = a'.kind := by
  rw [kind_eq_shape, kind_eq_shape, h.shape_eq]

theorem Retimed.update (h : Retimed T a a') (n : Number) {stamp stamp' : Stamp}
    (ht : T stamp.sequence stamp'.sequence) :
    Retimed T (a.update n d stamp) (a'.update n d stamp') := by
  rcases retimed_cases h with ⟨r, r', rfl, rfl, -⟩ | ⟨rfl, hne⟩
  · exact .some ⟨rfl, ht⟩
  · cases a with
    | lastValue r => exact absurd rfl (hne r)
    | minMaxSumCount kind state => cases state <;> rfl
    | _ => rfl

private theorem latest_retimed (hT : T.Ordered) {r r' s s' : Option Reading}
    (hr : Option.Rel (Reading.Retimed T) r r') (hs : Option.Rel (Reading.Retimed T) s s') :
    Option.Rel (Reading.Retimed T) (latest r s) (latest r' s') := by
  cases hr with
  | none =>
    cases hs with
    | none => exact .none
    | some hy => exact .some hy
  | some hx =>
    cases hs with
    | none => exact .some hx
    | some hy =>
      rw [latest, latest]
      simp only [hT hx.2 hy.2]
      split
      · exact .some hy
      · exact .some hx

/-- Merging keeps the order of the writes, and so the last value. -/
theorem Retimed.absorb (hT : T.Ordered) (ha : Retimed T a a') (hb : Retimed T b b') :
    Retimed T (a.absorb d b) (a'.absorb d b') := by
  rcases retimed_cases ha with ⟨r, r', rfl, rfl, hr⟩ | ⟨rfl, hne⟩
  · rcases retimed_cases hb with ⟨s, s', rfl, rfl, hs⟩ | ⟨rfl, hne⟩
    · exact latest_retimed hT hr hs
    · have hself : ∀ r, (lastValue r).absorb d b = lastValue r := by
        intro r
        cases b with
        | lastValue s => exact absurd rfl (hne s)
        | _ => rfl
      rw [hself, hself]
      exact hr
  · have hsame : a.absorb d b = a.absorb d b' := by
      rcases retimed_cases hb with ⟨s, s', rfl, rfl, -⟩ | ⟨rfl, -⟩
      · cases a with
        | lastValue r => exact absurd rfl (hne r)
        | _ => rfl
      · rfl
    rw [← hsame]
    refine retimed_refl fun r hr => ?_
    have hshape := shape_absorb d a b
    rw [hr] at hshape
    cases a with
    | lastValue r => exact hne r rfl
    | _ => cases hshape

theorem Retimed.less (ha : Retimed T a a') (hb : Retimed T b b') :
    Retimed T (a.less d b) (a'.less d b') := by
  rcases retimed_cases ha with ⟨r, r', rfl, rfl, hr⟩ | ⟨rfl, hne⟩
  · exact hr
  · cases a with
    | lastValue r => exact absurd rfl (hne r)
    | sum x =>
      rcases retimed_cases hb with ⟨s, s', rfl, rfl, -⟩ | ⟨rfl, -⟩
      · rfl
      · cases b <;> rfl
    | _ => rfl

theorem retimed_mergeAll (hT : T.Ordered) {as as' : List Aggregator}
    (h : List.Forall₂ (Retimed T) as as') :
    Option.Rel (Retimed T) (mergeAll d as) (mergeAll d as') := by
  cases h with
  | nil => exact .none
  | cons ha has => exact .some (List.rel_foldl (fun _ _ hx _ _ hy => hx.absorb hT hy) ha has)

end Aggregator
end Metering
