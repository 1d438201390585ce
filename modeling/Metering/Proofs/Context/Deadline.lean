import Mathlib
import Metering.Proofs.Context.Derivation

/-!
# Deadlines of derived contexts

A call that makes a context may ask for a deadline. Whatever the clock showed at the calls, the
deadline of a context is the earliest one that was asked for on the way to it, so that it is never
later than that of a context before it. What is cancelled once stays so.
-/

namespace Metering

/-- A deadline that is the earliest of some times, and none if there are none. -/
def IsEarliest : Option Time → Set Time → Prop
  | none, times => times = ∅
  | some t, times => IsLeast times t

theorem IsEarliest.exists_le {d : Option Time} {times : Set Time} {t : Time}
    (h : IsEarliest d times) (ht : t ∈ times) : ∃ t' ≤ t, d = some t' := by
  cases d with
  | none =>
    obtain rfl : times = ∅ := h
    exact ht.elim
  | some t' => exact ⟨t', h.2 ht, rfl⟩

theorem isEarliest_merge {d request : Option Time} {times : Set Time} (h : IsEarliest d times) :
    IsEarliest (d.merge min request) (times ∪ {t | request = some t}) := by
  cases request with
  | none =>
    have hempty : {t : Time | none = some t} = ∅ := by simp
    rwa [Option.merge_none_right, hempty, Set.union_empty]
  | some t =>
    have hsingle : {t' | some t = some t'} = {t} := by
      ext t'
      simp [eq_comm]
    rw [hsingle]
    cases d with
    | none =>
      obtain rfl : times = ∅ := h
      rw [Set.empty_union]
      exact isLeast_singleton
    | some current => exact IsLeast.union h isLeast_singleton

namespace ContextStore

variable {s s' : ContextStore} {calls : List (Time × ContextCall)} {c c' : Time × ContextCall}
  {i j : Nat}

/-- The call by which a context came into the store. -/
def MadeBy (calls : List (Time × ContextCall)) (i : Nat) (c : Time × ContextCall) : Prop :=
  ∃ before after, calls = before ++ c :: after ∧ (run before).contexts.length = i ∧
    (run (before ++ [c])).contexts.length = i + 1

/-- The deadlines asked for when a context was made, and when those before it in its derivation
were. -/
def requested (calls : List (Time × ContextCall)) (i : Nat) : Set Time :=
  {t | ∃ j c, (j = i ∨ (run calls).Derives j i) ∧ MadeBy calls j c ∧ c.2.request? c.1 = some t}

/-! ## Later stores -/

theorem Extends.trans {s'' : ContextStore} (h : s.Extends s') (h' : s'.Extends s'') :
    s.Extends s'' :=
  ⟨fun hcx => h'.contexts (h.contexts hcx), fun hused => h'.flags (h.flags hused)⟩

theorem extends_run (calls later : List (Time × ContextCall)) :
    (run calls).Extends (run (calls ++ later)) := by
  induction later using List.reverseRecOn with
  | nil =>
    rw [List.append_nil]
    exact ⟨id, id⟩
  | append_singleton later c ih =>
    rw [← List.append_assoc]
    exact ih.trans (makes_snoc _ c).extends

theorem Extends.lt_length (h : s.Extends s') (hi : i < s.contexts.length) :
    i < s'.contexts.length :=
  (List.getElem?_eq_some_iff.mp (h.contexts (List.getElem?_eq_getElem hi))).1

theorem Extends.isCancelled {now now' : Time} (h : s.Extends s') (hnow : now ≤ now')
    (hi : s.isCancelled now i = true) : s'.isCancelled now' i = true := by
  obtain ⟨cx, hcx, hcancelled⟩ := (Option.any_eq_true _ _).mp hi
  rw [ContextStore.isCancelled, h.contexts hcx]
  rw [Context.isCancelled, Bool.or_eq_true] at hcancelled
  refine Bool.or_eq_true_iff.mpr (hcancelled.imp (fun hused => ?_) fun hexpired => ?_)
  · obtain ⟨f, hf, hused⟩ := (Option.any_eq_true _ _).mp hused
    rw [hf]
    exact h.flags hused
  · obtain ⟨t, ht, hreached⟩ := (Option.any_eq_true _ _).mp hexpired
    rw [ht]
    exact decide_eq_true ((of_decide_eq_true hreached).trans hnow)

/-! ## The order of contexts -/

/-- A context comes into the store later than the one it is made from. -/
def Ordered (s : ContextStore) : Prop :=
  ∀ d ∈ s.derivations, d.parent < d.child ∧ d.child < s.contexts.length

theorem Ordered.makes {request : Option Time} (h : s.Ordered) (hmakes : s.Makes request s') :
    s'.Ordered := by
  cases hmakes with
  | nothing hcontexts hderivations _ =>
    rw [Ordered, hcontexts, hderivations]
    exact h
  | first hcontexts hderivations _ _ =>
    rw [Ordered, hcontexts, hderivations, List.length_append]
    exact fun d hd => ⟨(h d hd).1, Nat.lt_add_right _ (h d hd).2⟩
  | derived _ _ _ _ hparent hcontexts hderivations _ _ _ =>
    have hlt := (List.getElem?_eq_some_iff.mp hparent).1
    rw [Ordered, hcontexts, hderivations, List.length_append]
    intro d hd
    rcases List.mem_append.mp hd with hd | hd
    · exact ⟨(h d hd).1, Nat.lt_add_right _ (h d hd).2⟩
    · obtain rfl := List.mem_singleton.mp hd
      exact ⟨hlt, Nat.lt_succ_self _⟩

theorem ordered_run (calls : List (Time × ContextCall)) : (run calls).Ordered := by
  induction calls using List.reverseRecOn with
  | nil => simp [run, Ordered]
  | append_singleton calls c ih => exact ih.makes (makes_snoc calls c)

theorem lt_of_derives (hs : s.Ordered) (h : s.Derives j i) : j < i := by
  induction h with
  | single hstep =>
    obtain ⟨d, hd, rfl, rfl⟩ := hstep
    exact (hs d hd).1
  | tail _ hstep ih =>
    obtain ⟨d, hd, rfl, rfl⟩ := hstep
    exact ih.trans (hs d hd).1

theorem le_of_derives (hs : s.Ordered) (h : j = i ∨ s.Derives j i) : j ≤ i := by
  rcases h with rfl | h
  · exact Nat.le_refl j
  · exact (lt_of_derives hs h).le

/-! ## Derivations after a call -/

theorem Makes.exists_new {request : Option Time} (h : s.Makes request s') :
    ∃ new, s'.derivations = s.derivations ++ new ∧ ∀ d ∈ new, d.child = s.contexts.length := by
  cases h with
  | nothing _ hderivations _ => exact ⟨[], by rw [hderivations, List.append_nil], by simp⟩
  | first _ hderivations _ _ => exact ⟨[], by rw [hderivations, List.append_nil], by simp⟩
  | derived _ _ _ _ _ _ hderivations _ _ _ => exact ⟨_, hderivations, by simp⟩

theorem Makes.derives_iff {request : Option Time} (h : s.Makes request s') (hs : s.Ordered)
    (hi : i < s.contexts.length) : s'.Derives j i ↔ s.Derives j i := by
  obtain ⟨new, hderivations, hnew⟩ := h.exists_new
  have hold {d : Derivation} (hd : d ∈ s'.derivations) (hchild : d.child < s.contexts.length) :
      d ∈ s.derivations := by
    rw [hderivations] at hd
    exact (List.mem_append.mp hd).resolve_right fun hd => hchild.ne (hnew d hd)
  constructor
  · intro hderives
    induction hderives with
    | single hstep =>
      obtain ⟨d, hd, rfl, rfl⟩ := hstep
      exact .single ⟨d, hold hd hi, rfl, rfl⟩
    | tail _ hstep ih =>
      obtain ⟨d, hd, rfl, rfl⟩ := hstep
      exact .tail (ih ((hs d (hold hd hi)).1.trans hi)) ⟨d, hold hd hi, rfl, rfl⟩
  · intro hderives
    have hstep (k l : Nat) : (∃ d ∈ s.derivations, d.parent = k ∧ d.child = l) →
        ∃ d ∈ s'.derivations, d.parent = k ∧ d.child = l := by
      rintro ⟨d, hd, hd'⟩
      exact ⟨d, hderivations ▸ List.mem_append_left new hd, hd'⟩
    exact Relation.TransGen.mono hstep j i hderives

/-- What leads to a new context is the one it is made from and what leads to that. -/
theorem Makes.derives_new_iff {request : Option Time} {parent : Nat} {inherits : Bool}
    (h : s.Makes request s') (hs : s.Ordered) (hparent : parent < s.contexts.length)
    (hderivations : s'.derivations = s.derivations ++ [⟨parent, s.contexts.length, inherits⟩]) :
    s'.Derives j s.contexts.length ↔ j = parent ∨ s.Derives j parent := by
  -- older derivations lead to older contexts, so the last step comes from the given parent
  have hlast (k : Nat) : (∃ d ∈ s'.derivations, d.parent = k ∧ d.child = s.contexts.length) ↔
      k = parent := by
    rw [hderivations]
    constructor
    · rintro ⟨d, hd, rfl, hchild⟩
      rcases List.mem_append.mp hd with hd | hd
      · exact absurd hchild (hs d hd).2.ne
      · rw [List.mem_singleton.mp hd]
    · rintro rfl
      exact ⟨_, List.mem_append_right _ (List.mem_singleton_self _), rfl, rfl⟩
  rw [Derives, Relation.TransGen.tail'_iff]
  simp only [hlast, exists_eq_right, Relation.reflTransGen_iff_eq_or_transGen]
  exact or_congr eq_comm (h.derives_iff hs hparent)

/-! ## Deadlines asked for -/

theorem MadeBy.lt_length (h : MadeBy calls i c) : i < (run calls).contexts.length := by
  obtain ⟨before, after, rfl, -, hmade⟩ := h
  have hlater := extends_run (before ++ [c]) after
  rw [List.append_assoc, List.singleton_append] at hlater
  exact hlater.lt_length (by omega)

theorem madeBy_snoc : MadeBy (calls ++ [c]) i c' ↔ MadeBy calls i c' ∨
    c' = c ∧ (run calls).contexts.length = i ∧
      (run (calls ++ [c])).contexts.length = i + 1 := by
  constructor
  · rintro ⟨before, after, hcalls, hbefore, hmade⟩
    rcases List.eq_nil_or_concat after with rfl | ⟨after, last, rfl⟩
    · obtain ⟨rfl, hlast⟩ := List.append_inj' hcalls rfl
      obtain rfl : c = c' := by simpa using hlast
      exact .inr ⟨rfl, hbefore, hmade⟩
    · rw [List.concat_eq_append, ← List.cons_append, ← List.append_assoc] at hcalls
      obtain ⟨rfl, -⟩ := List.append_inj' hcalls rfl
      exact .inl ⟨before, after, rfl, hbefore, hmade⟩
  · rintro (⟨before, after, rfl, hbefore, hmade⟩ | ⟨rfl, hbefore, hmade⟩)
    · exact ⟨before, after ++ [c], by simp, hbefore, hmade⟩
    · exact ⟨calls, [], rfl, hbefore, hmade⟩

theorem madeBy_snoc_of_lt (hi : i < (run calls).contexts.length) :
    MadeBy (calls ++ [c]) i c' ↔ MadeBy calls i c' :=
  madeBy_snoc.trans (or_iff_left fun ⟨_, hlength, _⟩ => hi.ne' hlength)

theorem madeBy_length
    (hmade : (run (calls ++ [c])).contexts.length = (run calls).contexts.length + 1) :
    MadeBy (calls ++ [c]) (run calls).contexts.length c' ↔ c' = c := by
  rw [madeBy_snoc, or_iff_right fun h => (lt_irrefl _ h.lt_length)]
  exact and_iff_left ⟨rfl, hmade⟩

theorem requested_snoc_of_lt (hi : i < (run calls).contexts.length) :
    requested (calls ++ [c]) i = requested calls i := by
  have hs := ordered_run calls
  ext t
  refine exists_congr fun j => exists_congr fun c' => ?_
  rw [(makes_snoc calls c).derives_iff hs hi]
  refine and_congr_right fun hj => ?_
  rw [madeBy_snoc_of_lt ((le_of_derives hs hj).trans_lt hi)]

theorem requested_first
    (hcontexts : (run (calls ++ [c])).contexts = (run calls).contexts ++ [.unlimited])
    (hderivations : (run (calls ++ [c])).derivations = (run calls).derivations)
    (hrequest : c.2.request? c.1 = none) :
    requested (calls ++ [c]) (run calls).contexts.length = ∅ := by
  refine Set.eq_empty_iff_forall_notMem.mpr ?_
  rintro t ⟨j, c', rfl | hderives, hmade, ht⟩
  · obtain rfl := (madeBy_length (by rw [hcontexts, List.length_append]; rfl)).mp hmade
    simp [hrequest] at ht
  · obtain ⟨k, -, d, hd, -, hchild⟩ := Relation.TransGen.tail'_iff.mp hderives
    rw [hderivations] at hd
    exact (ordered_run calls d hd).2.ne hchild

/-- A context made from another adds what is asked for when it is made. -/
theorem requested_derived {parent : Nat} {inherits : Bool} {cx' : Context}
    (hparent : parent < (run calls).contexts.length)
    (hcontexts : (run (calls ++ [c])).contexts = (run calls).contexts ++ [cx'])
    (hderivations : (run (calls ++ [c])).derivations =
      (run calls).derivations ++ [⟨parent, (run calls).contexts.length, inherits⟩]) :
    requested (calls ++ [c]) (run calls).contexts.length =
      requested calls parent ∪ {t | c.2.request? c.1 = some t} := by
  have hs := ordered_run calls
  have hderives {j : Nat} := (makes_snoc calls c).derives_new_iff (j := j) hs hparent hderivations
  have hlast {c' : Time × ContextCall} :
      MadeBy (calls ++ [c]) (run calls).contexts.length c' ↔ c' = c :=
    madeBy_length (by rw [hcontexts, List.length_append]; rfl)
  ext t
  constructor
  · rintro ⟨j, c', rfl | hj, hmade, ht⟩
    · rw [hlast.mp hmade] at ht
      exact .inr ht
    · rw [hderives] at hj
      exact .inl ⟨j, c', hj,
        (madeBy_snoc_of_lt ((le_of_derives hs hj).trans_lt hparent)).mp hmade, ht⟩
  · rintro (⟨j, c', hj, hmade, ht⟩ | ht)
    · exact ⟨j, c', .inr (hderives.mpr hj),
        (madeBy_snoc_of_lt ((le_of_derives hs hj).trans_lt hparent)).mpr hmade, ht⟩
    · exact ⟨_, c, .inl rfl, hlast.mpr rfl, ht⟩

/-! ## Deadlines of a run -/

theorem eq_of_getElem?_snoc {cxs : List Context} {cx cx' : Context} (hi : ¬ i < cxs.length)
    (h : (cxs ++ [cx'])[i]? = some cx) : i = cxs.length ∧ cx = cx' := by
  obtain ⟨hlt, hcx⟩ := List.getElem?_eq_some_iff.mp h
  rw [List.length_append, List.length_singleton] at hlt
  obtain rfl : i = cxs.length := by omega
  exact ⟨rfl, by simpa using hcx.symm⟩

theorem isEarliest_run (calls : List (Time × ContextCall)) {cx : Context}
    (hcx : (run calls).contexts[i]? = some cx) : IsEarliest cx.deadline (requested calls i) := by
  induction calls using List.reverseRecOn generalizing i cx with
  | nil => simp [run] at hcx
  | append_singleton calls c ih =>
    -- a context there before the call keeps its deadline and all that led to it
    by_cases hi : i < (run calls).contexts.length
    · have hold := (extends_run calls [c]).contexts (List.getElem?_eq_getElem hi)
      rw [hold] at hcx
      rw [requested_snoc_of_lt hi]
      exact ih ((List.getElem?_eq_getElem hi).trans hcx)
    · cases makes_snoc calls c with
      | nothing hcontexts _ _ =>
        rw [hcontexts] at hcx
        exact absurd (List.getElem?_eq_some_iff.mp hcx).1 hi
      | first hcontexts hderivations _ hrequest =>
        obtain ⟨rfl, rfl⟩ := eq_of_getElem?_snoc hi (hcontexts ▸ hcx)
        exact requested_first hcontexts hderivations hrequest
      | derived parent _ _ _ hparent hcontexts hderivations _ _ hdeadline =>
        obtain ⟨rfl, rfl⟩ := eq_of_getElem?_snoc hi (hcontexts ▸ hcx)
        have hlt := (List.getElem?_eq_some_iff.mp hparent).1
        rw [requested_derived hlt hcontexts hderivations, hdeadline]
        exact isEarliest_merge (ih hparent)

theorem requested_subset (h : (run calls).Derives i j) :
    requested calls i ⊆ requested calls j := by
  rintro t ⟨k, c, hk, hmade, ht⟩
  refine ⟨k, c, .inr ?_, hmade, ht⟩
  rcases hk with rfl | hk
  · exact h
  · exact hk.trans h

/-- Whatever contexts were made, copied, given handles and timeouts and cancelled, at whatever
times: the deadline of a context is the earliest one asked for on the way to it, it is not later
than that of a context before it, and a context found cancelled is found so ever after. -/
theorem deadlines_tighten (calls : List (Time × ContextCall)) :
    (∀ i cx, (run calls).contexts[i]? = some cx → IsEarliest cx.deadline (requested calls i)) ∧
    (∀ i j cx cx' t, (run calls).Derives i j → (run calls).contexts[i]? = some cx →
      (run calls).contexts[j]? = some cx' → cx.deadline = some t →
      ∃ t' ≤ t, cx'.deadline = some t') ∧
    ∀ later now now' i, now ≤ now' → (run calls).isCancelled now i = true →
      (run (calls ++ later)).isCancelled now' i = true := by
  refine ⟨fun i cx => isEarliest_run calls, ?_, fun later now now' i hnow hcancelled =>
    (extends_run calls later).isCancelled hnow hcancelled⟩
  intro i j cx cx' t hderives hcx hcx' ht
  have hrequested := isEarliest_run calls hcx
  rw [ht] at hrequested
  exact (isEarliest_run calls hcx').exists_le (requested_subset hderives hrequested.1)

/-- A timeout passed down through a copy and a handle: one that the clock cannot reach does not lift
it, and a shorter one counts from when it is asked for. -/
theorem deadlines_tighten_nested :
    let calls := [(0, .new), (5, .withTimeout 0 3600), (6, .clone 1), (7, .withCancellation 2),
      (8, .withTimeout 3 Time.limit), (9, .withTimeout 4 10)]
    let s := run calls
    IsEarliest (some 3605) (requested calls 4) ∧ s.Derives 4 5 ∧
      (∃ t ≤ 3605, (⟨some 0, some 19⟩ : Context).deadline = some t) ∧
      s.isCancelled 19 5 = true ∧
      (run (calls ++ [(20, .withTimeout 5 40), (21, .cancel 0)])).isCancelled 22 5 = true := by
  intro calls s
  have hderives : s.Derives 4 5 := .single ⟨⟨4, 5, true⟩, by decide, rfl, rfl⟩
  have hcx : s.contexts[4]? = some ⟨some 0, some 3605⟩ := by decide
  have hcx' : s.contexts[5]? = some ⟨some 0, some 19⟩ := by decide
  have hcancelled : s.isCancelled 19 5 = true := by decide
  obtain ⟨hearliest, htighter, hsticks⟩ := deadlines_tighten calls
  exact ⟨hearliest 4 _ hcx, hderives, htighter 4 5 _ _ 3605 hderives hcx hcx' rfl, hcancelled,
    hsticks [(20, .withTimeout 5 40), (21, .cancel 0)] 19 22 5 (by decide) hcancelled⟩

end ContextStore
end Metering
