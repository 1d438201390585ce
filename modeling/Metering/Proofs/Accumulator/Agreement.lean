import Metering.Proofs.Accumulator.Ledger
import Metering.Proofs.Accumulator.Merge

/-!
# Agreement of twins

What one accumulator hands over, with changed labels, merges for every series to what its twin
hands over, which was given the changed labels to begin with. No sum may leave its range on
either way.
-/

namespace Metering

def Relabelling.keep : Relabelling := fun _ labels => labels

/-- Whether values can be added up one after the other within the range of a kind. -/
def NumberKind.AddsUp (kind : NumberKind) (vs : List Int) : Prop :=
  ∀ ws, ws <+: vs → kind.InRange ws.sum

instance (kind : NumberKind) (vs : List Int) : Decidable (kind.AddsUp vs) :=
  decidable_of_iff (∀ ws ∈ vs.inits, kind.InRange ws.sum) (by simp [NumberKind.AddsUp])

theorem NumberKind.addsUp_nil (kind : NumberKind) : kind.AddsUp [] := by
  intro ws hws
  rw [List.prefix_nil.mp hws]
  exact inRange_zero kind

theorem Aggregator.Describes.toInt_sum {d : Descriptor} {rs : List Reading} {a : Aggregator}
    (h : a.Describes d rs) (hk : d.numberKind.IsInteger) {x : Number} (hx : a.sum? = some x) :
    d.numberKind.toInt x = total d.numberKind rs := by
  cases a with
  | sum y =>
    obtain rfl := Option.some.inj hx
    exact h
  | lastValue last => simp [sum?] at hx
  | minMaxSumCount kind state =>
    obtain rfl := Option.some.inj hx
    cases state with
    | none =>
      obtain rfl : rs = [] := h
      exact NumberKind.toInt_zero _ hk
    | some e => exact Extremes.Describes.sum h
  | histogram kind boundaries s =>
    obtain rfl := Option.some.inj hx
    exact Distribution.Describes.sum h

namespace Accumulator

variable {choose : Descriptor → Option Aggregator} {r : Relabelling} {ds : List Deed}
  {us : List Sample} {a b : Accumulator}

/-! ## The same data -/

theorem map_relabel_keep (us : List Sample) : us.map (Sample.relabel .keep) = us :=
  List.map_id us

private theorem merged_of_other_resource {resource : Resource} {k : SeriesId}
    (hne : k.resource ≠ resource) : merged k (handedOverAs r resource a) = none := by
  rw [merged_eq_none]
  intro acc hacc hk
  obtain ⟨s, -, rfl⟩ := List.mem_map.mp hacc
  exact hne (congrArg SeriesId.resource hk).symm

theorem Twins.merged_eq (h : Twins choose r ds us a b) (hfit : ∀ k, SumsFit choose r k us a)
    (hfit' : ∀ k, SumsFit choose .keep k (us.map (Sample.relabel r)) b) (k : SeriesId) :
    merged k (handedOverAs r a.resource a) = merged k (handedOverAs .keep b.resource b) := by
  rw [h.setup.resource]
  by_cases hres : k.resource = a.resource
  swap
  · rw [merged_of_other_resource hres, merged_of_other_resource hres]
  obtain ⟨d, labels, resource⟩ := k
  obtain rfl : resource = a.resource := hres
  have hleft := h.holds.merged_handedOverAs (hfit (d, labels)) a.resource
  have hright := h.holds'.merged_handedOverAs (hfit' (d, labels)) a.resource
  rw [map_relabel_keep] at hright
  rcases hleft with ⟨hnil, hm⟩ | ⟨hne, g, m, hg, hm, hdesc, hcl, hint⟩
  · rcases hright with ⟨-, hm'⟩ | ⟨hne, -⟩
    · exact hm.trans hm'.symm
    · exact absurd hnil hne
  · rcases hright with ⟨hnil, -⟩ | ⟨-, g', m', hg', hm', hdesc', hcl', -⟩
    · exact absurd hnil hne
    · obtain rfl : g = g' := Option.some.inj (hg.symm.trans hg')
      have hwrites :
          ((readings (d, labels) (us.map (Sample.relabel r))).map (·.stamp.sequence)).Nodup :=
        List.pairwise_map.mpr ((h.holds'.pairwise_readings (d, labels)).imp fun ht => ht.ne)
      have hmm : m = m' := hdesc.unique hdesc' (hcl.trans hcl'.symm) hint hwrites
      exact hm.trans ((congrArg some hmm).trans hm'.symm)

/-! ## Ranges -/

/-- The value that a deed adds to the series with a key, if it does. -/
def takenValue (choose : Descriptor → Option Aggregator) (k : SeriesKey) (deed : Deed) :
    Option Int :=
  (taken choose deed).bind fun x =>
    if x.1 = k then some (k.1.numberKind.toInt x.2) else none

def takenValues (choose : Descriptor → Option Aggregator) (k : SeriesKey) (ds : List Deed) :
    List Int := ds.filterMap (takenValue choose k)

/-- Whether no integer sum leaves its range, from one sweep to the end of the next: neither those
of the series, nor those of accumulations that are merged under changed labels, nor those of
series with the changed labels. -/
structure StaysInRange (choose : Descriptor → Option Aggregator) (r : Relabelling)
    (ds : List Deed) : Prop where
  series : ∀ k : SeriesKey, KeepsSum choose k.1 → k.1.numberKind.AddsUp (takenValues choose k ds)
  merged : ∀ k : SeriesKey, KeepsSum choose k.1 →
    k.1.numberKind.AddsUp (handedValues k (ds.map (Deed.relabel r)))
  reduced : ∀ k : SeriesKey, KeepsSum choose k.1 →
    k.1.numberKind.AddsUp (takenValues choose k (ds.map (Deed.relabel r)))

def takenKeys (choose : Descriptor → Option Aggregator) (ds : List Deed) : List SeriesKey :=
  ds.filterMap fun deed => (taken choose deed).map (·.1)

def handedKeys (ds : List Deed) : List SeriesKey := (handed ds).map (·.series.key)

theorem takenValues_eq_nil {k : SeriesKey} (h : k ∉ takenKeys choose ds) :
    takenValues choose k ds = [] := by
  refine List.filterMap_eq_nil_iff.mpr fun deed hdeed => ?_
  rw [takenValue]
  cases ht : taken choose deed with
  | none => rfl
  | some x =>
    have hx : x.1 ≠ k := by
      rintro rfl
      exact h (List.mem_filterMap.mpr ⟨deed, hdeed, by rw [ht]; rfl⟩)
    rw [Option.bind_some, if_neg hx]

theorem handedValues_eq_nil {k : SeriesKey} (h : k ∉ handedKeys ds) : handedValues k ds = [] := by
  refine List.filterMap_eq_nil_iff.mpr fun deed hdeed => ?_
  cases deed with
  | processed acc =>
    have hacc : acc.series.key ≠ k := by
      rintro rfl
      exact h (List.mem_map.mpr ⟨acc, List.mem_filterMap.mpr ⟨_, hdeed, rfl⟩, rfl⟩)
    rw [handedValue, if_neg hacc]
  | _ => rfl

theorem StaysInRange.of_keys
    (hseries : ∀ k ∈ takenKeys choose ds, k.1.numberKind.AddsUp (takenValues choose k ds))
    (hmerged : ∀ k ∈ handedKeys (ds.map (Deed.relabel r)),
      k.1.numberKind.AddsUp (handedValues k (ds.map (Deed.relabel r))))
    (hreduced : ∀ k ∈ takenKeys choose (ds.map (Deed.relabel r)),
      k.1.numberKind.AddsUp (takenValues choose k (ds.map (Deed.relabel r)))) :
    StaysInRange choose r ds := by
  refine ⟨fun k _ => ?_, fun k _ => ?_, fun k _ => ?_⟩
  · by_cases hk : k ∈ takenKeys choose ds
    · exact hseries k hk
    · rw [takenValues_eq_nil hk]
      exact NumberKind.addsUp_nil _
  · by_cases hk : k ∈ handedKeys (ds.map (Deed.relabel r))
    · exact hmerged k hk
    · rw [handedValues_eq_nil hk]
      exact NumberKind.addsUp_nil _
  · by_cases hk : k ∈ takenKeys choose (ds.map (Deed.relabel r))
    · exact hreduced k hk
    · rw [takenValues_eq_nil hk]
      exact NumberKind.addsUp_nil _

private theorem takenValues_eq (k : SeriesKey) (us : List Sample) (ds : List Deed)
    (h : (us.map fun u => (u.key, u.reading.value)) = ds.filterMap (taken choose)) :
    takenValues choose k ds =
      (readings k us).map fun r => k.1.numberKind.toInt r.value := by
  have hbind : takenValues choose k ds = (ds.filterMap (taken choose)).filterMap fun x =>
      if x.1 = k then some (k.1.numberKind.toInt x.2) else none :=
    List.filterMap_filterMap.symm
  rw [hbind, ← h, List.filterMap_map, readings, List.map_filterMap]
  refine List.filterMap_congr fun u _ => ?_
  by_cases hu : u.key = k <;> simp [hu]

private theorem inRange_of_addsUp {kind : NumberKind} {rs : List Reading}
    (h : kind.AddsUp (rs.map fun r => kind.toInt r.value)) :
    ∀ rs', rs' <+: rs → kind.InRange (total kind rs') :=
  fun _ hp => h _ (hp.map _)

theorem takenValues_append (k : SeriesKey) (ds ds' : List Deed) :
    takenValues choose k (ds ++ ds') = takenValues choose k ds ++ takenValues choose k ds' :=
  List.filterMap_append

theorem takenValues_processed (k : SeriesKey) (accs : List Accumulation) :
    takenValues choose k (accs.map .processed) = [] := by
  rw [takenValues, List.filterMap_map, List.filterMap_eq_nil_iff]
  exact fun _ _ => rfl

theorem Contains.sum_eq {k : SeriesKey} {rs : List Reading} {s : LiveSeries}
    (h : Contains choose k rs s) (hkeeps : KeepsSum choose k.1)
    (hdesc : s.current.Describes k.1 rs) :
    s.current.sum?.map k.1.numberKind.toInt = some (total k.1.numberKind rs) := by
  obtain ⟨g, hg, hnew, hint, -, -, hcl⟩ := h.new
  obtain ⟨g', hg', hsome⟩ := hkeeps
  obtain rfl : g = g' := Option.some.inj (hg.symm.trans hg')
  have hshape := Aggregator.shape_eq_of_cleared (d := k.1) (hcl.trans hnew.cleared.symm)
  obtain ⟨x, hx⟩ := Option.isSome_iff_exists.mp ((Aggregator.hasSum_congr hshape).trans hsome)
  rw [hx, Option.map_some, hdesc.toInt_sum (hint hsome) hx]

/-- The values handed over are the sums of what the series that join hold. -/
theorem Holds.handedValues_eq (h : Holds choose us a) {k : SeriesKey}
    (hkeeps : KeepsSum choose k.1)
    (hseries : ∀ k', r.key k' = k → ∀ rs, rs <+: readings k' us →
      k.1.numberKind.InRange (total k.1.numberKind rs)) (resource : Resource) :
    handedValues k ((handedOverAs r resource a).map .processed) =
      (joining r k a).map fun s => total k.1.numberKind (readings s.key us) := by
  have hhanded : handedValues k ((handedOverAs r resource a).map .processed) =
      (joining r k a).filterMap fun s => s.current.sum?.map k.1.numberKind.toInt := by
    rw [handedValues, handedOverAs, List.map_map, List.filterMap_map, joining]
    generalize a.series.filter (·.isPending) = pending
    rw [List.filterMap_filter]
    refine List.filterMap_congr fun s _ => ?_
    by_cases hs : r.key s.key = k
    · have hacc : ((handOver resource s).relabel r).series.key = k := hs
      simp only [Function.comp_apply, handedValue, hacc, hs, if_true, decide_true]
      rfl
    · have hacc : ((handOver resource s).relabel r).series.key ≠ k := hs
      simp only [Function.comp_apply, handedValue, hacc, hs, if_false, decide_false,
        Bool.false_eq_true]
  rw [hhanded, ← List.filterMap_eq_map]
  refine List.filterMap_congr fun s hs => ?_
  obtain ⟨hk, hd, hcont, -⟩ := h.of_mem_joining hs
  have hdesc := hcont.describes (h.pairwise_readings _) (by rw [hd]; exact fun _ => hseries _ hk)
  have hsum := hcont.sum_eq (by rw [hd]; exact hkeeps) hdesc
  rw [hd] at hsum
  exact hsum

theorem handedValues_append (k : SeriesKey) (ds ds' : List Deed) :
    handedValues k (ds ++ ds') = handedValues k ds ++ handedValues k ds' :=
  List.filterMap_append

theorem handedValues_of_handed {k : SeriesKey} (h : handed ds = []) :
    handedValues k (ds.map (Deed.relabel r)) = [] := by
  rw [handedValues, List.filterMap_map, List.filterMap_eq_nil_iff]
  intro deed hdeed
  have hnone := List.filterMap_eq_nil_iff.mp h deed hdeed
  cases deed with
  | processed acc => cases hnone
  | _ => rfl

theorem total_flatten (kind : NumberKind) (rss : List (List Reading)) :
    total kind rss.flatten = (rss.map (total kind)).sum := by
  rw [total, List.map_flatten, List.sum_flatten, List.map_map]
  rfl

theorem Holds.eq_singleton_of_prefix (h : Holds choose us a) {k : SeriesKey} {ss : List LiveSeries}
    (hss : ss <+: joining .keep k a) : ss = [] ∨ ∃ s, ss = [s] ∧ s.key = k := by
  have hkeys : ∀ s ∈ ss, s.key = k := fun s hs => (h.of_mem_joining (hss.subset hs)).1
  have hnodup : (ss.map (·.key)).Nodup :=
    (distinct_filter (distinct_filter h.distinct _) _).sublist (hss.sublist.map _)
  rcases ss with _ | ⟨s, _ | ⟨t, ss⟩⟩
  · exact .inl rfl
  · exact .inr ⟨s, rfl, hkeys s (by simp)⟩
  · have hst : s.key = t.key := (hkeys s (by simp)).trans (hkeys t (by simp)).symm
    simp [hst] at hnodup

/-- Twins hand over what merges to the same, if no sum leaves its range until they have. -/
theorem Twins.agree (h : Twins choose r ds us a b) (hds : handed ds = [])
    (hr : StaysInRange choose r (ds ++ (handedOverAs .keep a.resource a).map .processed))
    (k : SeriesId) :
    merged k (handedOverAs r a.resource a) = merged k (handedOverAs .keep b.resource b) := by
  have hrelabel : ((handedOverAs .keep a.resource a).map Deed.processed).map (Deed.relabel r) =
      (handedOverAs r a.resource a).map .processed := by
    simp only [handedOverAs, List.map_map]
    rfl
  have hsamples : ((us.map (Sample.relabel r)).map fun u => (u.key, u.reading.value)) =
      (ds.map (Deed.relabel r)).filterMap (taken choose) := by
    have htaken : ∀ deed, (taken choose ∘ Deed.relabel r) deed =
        (taken choose deed).map fun x => (r.key x.1, x.2) := taken_relabel r
    rw [List.filterMap_map, funext htaken, ← List.map_filterMap, ← h.samples, List.map_map,
      List.map_map]
    rfl
  have hseries : ∀ k : SeriesKey, KeepsSum choose k.1 → ∀ rs, rs <+: readings k us →
      k.1.numberKind.InRange (total k.1.numberKind rs) := by
    intro k hk
    have hadds := hr.series k hk
    rw [takenValues_append, takenValues_processed, List.append_nil,
      takenValues_eq k us ds h.samples] at hadds
    exact inRange_of_addsUp hadds
  have hreduced : ∀ k : SeriesKey, KeepsSum choose k.1 →
      ∀ rs, rs <+: readings k (us.map (Sample.relabel r)) →
        k.1.numberKind.InRange (total k.1.numberKind rs) := by
    intro k hk
    have hadds := hr.reduced k hk
    rw [List.map_append, hrelabel, takenValues_append, takenValues_processed, List.append_nil,
      takenValues_eq k _ _ hsamples] at hadds
    exact inRange_of_addsUp hadds
  refine h.merged_eq (fun k => ⟨fun hk k' hk' => ?_, fun hk ss hss => ?_⟩)
    (fun k => ⟨fun hk k' hk' => ?_, fun hk ss hss => ?_⟩) k
  · subst hk'
    exact hseries k' hk
  · have hadds := hr.merged k hk
    have hown : ∀ k', r.key k' = k → ∀ rs, rs <+: readings k' us →
        k.1.numberKind.InRange (total k.1.numberKind rs) := by
      rintro k' rfl
      exact hseries k' hk
    rw [List.map_append, handedValues_append, handedValues_of_handed hds, List.nil_append, hrelabel,
      h.holds.handedValues_eq hk hown] at hadds
    have hsum := hadds _ (hss.map _)
    rwa [total_flatten, List.map_map]
  · obtain rfl : k' = k := hk'
    exact hreduced k' hk
  · rcases h.holds'.eq_singleton_of_prefix hss with rfl | ⟨s, rfl, rfl⟩
    · exact NumberKind.inRange_zero _
    · simpa using hreduced s.key hk _ (List.prefix_refl _)

/-! ## Collections of twins -/

theorem Twins.afterCallbacks (h : Twins choose r ds us a b) (cx : Context) :
    ∃ us', Twins choose r (ds ++ calledAll cx (List.range a.observers.length) a) us'
      (a.afterCallbacks cx) (b.afterCallbacks cx) := by
  obtain ⟨-, us', ht⟩ := h.callObservers cx (List.range a.observers.length)
  have hlength : b.observers.length = a.observers.length := by rw [h.observers, List.length_map]
  refine ⟨us', ?_⟩
  rw [Accumulator.afterCallbacks, Accumulator.afterCallbacks, hlength]
  exact ht

theorem Twins.proceeds_iff (h : Twins choose r ds us a b) {cx : Context}
    {errors : List MetricsError} : Proceeds cx a errors ↔ Proceeds cx b errors := by
  obtain ⟨hr, -⟩ := h.callObservers cx (List.range a.observers.length)
  have hlength : b.observers.length = a.observers.length := by rw [h.observers, List.length_map]
  obtain ⟨us', ht⟩ := h.afterCallbacks cx
  have hcancelled := ht.isCancelled cx
  have hpoisoned := h.setup.isPoisoned
  constructor
  · intro hp
    exact ⟨hpoisoned.trans hp.intact, by rw [hlength, ← hr]; exact hp.called,
      hcancelled.trans hp.goesOn⟩
  · intro hp
    refine ⟨hpoisoned.symm.trans hp.intact, ?_, hcancelled.symm.trans hp.goesOn⟩
    rw [hr, ← hlength]
    exact hp.called

/-- Twins hold nothing after their sweeps. -/
theorem Twins.sweep {σ σ' : Type} {P : σ → Prop} {P' : σ' → Prop} {step : ProcessorStep σ}
    {step' : ProcessorStep σ'} (h : Twins choose r ds us a b) (hstep : Silent P step)
    (hstep' : Silent P' step') {p : σ} {p' : σ'} (hp : P p) (hp' : P' p')
    (events events' : List Event) :
    let swept := (sweep step p a).1
    let swept' := (Accumulator.sweep step' p' b).1
    Twins choose r [] [] { swept with epoch := swept.epoch + 1, now := swept.now + 1, events }
      { swept' with epoch := swept'.epoch + 1, now := swept'.now + 1, events := events' } := by
  intro swept swept'
  obtain ⟨-, hholds, hsetup, hobservers, hflags, hstamp⟩ := h.holds.sweep hstep hp
  obtain ⟨-, hholds', hsetup', hobservers', hflags', hstamp'⟩ := h.holds'.sweep hstep' hp'
  have hboth := (hsetup.symm.trans h.setup).trans hsetup'
  refine ⟨hholds.same rfl (le_refl _), hholds'.same rfl (le_refl _), rfl,
    hsetup.selector.trans h.selector, hsetup.isPoisoned.trans h.intact, ?_, ?_, ?_, ?_, ?_⟩
  · exact ⟨hboth.selector, hboth.resource, hboth.idleCycles, congrArg (· + 1) hboth.epoch,
      hboth.isPoisoned⟩
  · exact (hobservers'.trans h.observers).trans (congrArg (List.map _) hobservers.symm)
  · exact fun o ho => h.suits o (hobservers ▸ ho)
  · exact (hflags'.trans h.flags).trans hflags.symm
  · exact congrArg Stamp.tick ((hstamp'.trans h.stamp).trans hstamp.symm)

end Accumulator
end Metering
