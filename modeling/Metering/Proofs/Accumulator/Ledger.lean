import Metering.Proofs.Accumulator.Deeds
import Metering.Proofs.Number.Range

/-!
# Sums are neither lost nor counted twice

For a series of which the measurements are summed up, what was handed to processors and what the
series still holds add up to what was recorded, through any collections, re-entrant recording and
evictions.
-/

namespace Metering.Accumulator

variable {choose : Descriptor → Option Aggregator} {k : SeriesKey}

/-! ## Amounts -/

/-- The value that a deed records for a key. -/
def recordedValue (k : SeriesKey) : Deed → Option Int
  | .recorded m =>
    if m.key = k ∧ m.isAccepted = true then some (k.1.numberKind.toInt m.number) else none
  | _ => none

/-- The sum that a deed hands over for a key. -/
def handedValue (k : SeriesKey) : Deed → Option Int
  | .processed acc =>
    if acc.series.key = k then acc.aggregator.sum?.map k.1.numberKind.toInt else none
  | _ => none

def recordedValues (k : SeriesKey) (ds : List Deed) : List Int := ds.filterMap (recordedValue k)

def handedValues (k : SeriesKey) (ds : List Deed) : List Int := ds.filterMap (handedValue k)

def amount (s : LiveSeries) : Int :=
  s.current.sum?.elim 0 s.descriptor.numberKind.toInt

/-- The sum that a key has not yet handed over: none if there is no series with it. -/
def held (s? : Option LiveSeries) : Int := s?.elim 0 amount

/-- Whether the absolute values accepted for a key add up within the range. -/
def Fits (k : SeriesKey) (ds : List Deed) : Prop :=
  ((recordedValues k ds).map (|·|)).sum ≤ k.1.numberKind.highest

theorem recordedValues_snoc (ds : List Deed) (deed : Deed) :
    recordedValues k (ds ++ [deed]) = recordedValues k ds ++ (recordedValue k deed).toList := by
  rw [recordedValues, recordedValues, List.filterMap_append]
  cases h : recordedValue k deed <;> simp [h]

theorem handedValues_snoc (ds : List Deed) (deed : Deed) :
    handedValues k (ds ++ [deed]) = handedValues k ds ++ (handedValue k deed).toList := by
  rw [handedValues, handedValues, List.filterMap_append]
  cases h : handedValue k deed <;> simp [h]

theorem Fits.of_snoc {ds : List Deed} {deed : Deed} (h : Fits k (ds ++ [deed])) : Fits k ds := by
  rw [Fits, recordedValues_snoc] at h
  cases hv : recordedValue k deed with
  | none =>
    rw [Fits]
    simpa [hv] using h
  | some v =>
    simp only [hv, Option.toList_some, List.map_append, List.map_cons, List.map_nil,
      List.sum_append, List.sum_singleton] at h
    exact (le_add_of_nonneg_right (abs_nonneg v)).trans h

theorem amount_add {s : LiveSeries} {x : Number} (hs : s.current = .sum x)
    (hint : s.descriptor.numberKind.IsInteger) {n : Number}
    (h : |amount s| + |s.descriptor.numberKind.toInt n| ≤ s.descriptor.numberKind.highest)
    (stamp : Stamp) : amount (s.add n stamp) = amount s + s.descriptor.numberKind.toInt n := by
  simp only [amount, LiveSeries.add, hs, Aggregator.update, Aggregator.sum?,
    Option.elim_some] at h ⊢
  exact NumberKind.toInt_add hint (NumberKind.inRange_add hint x n h)

/-! ## Properties of a single series -/

/-- Properties of the series with a key and of the deeds that measurements keep. -/
structure KeptAt (k : SeriesKey) (P : List Deed → Option LiveSeries → Prop) : Prop where
  other : ∀ {ds s?}, P ds s? → ∀ deed, recordedValue k deed = none → handedValue k deed = none →
    P (ds ++ [deed]) s?
  add : ∀ {ds s?}, P ds s? → ∀ m : Measurement, m.key = k → m.isAccepted = true → ∀ stamp,
    P (ds ++ [.recorded m]) (some ((s?.getD (.opened k .newSum)).add m.number stamp))

theorem KeptAt.kept {P : List Deed → Option LiveSeries → Prop} (hP : KeptAt k P)
    (hsync : k.1.kind.isSynchronous = true) (hsum : choose k.1 = some .newSum) :
    Kept choose fun ds a => P ds (seek k a.series) where
  same := by
    intro ds a b h _ hs
    rw [hs]
    exact h
  record := by
    intro ds a ha h m
    rw [seek_record ha.selector]
    split
    next hm =>
      have hslot : slot choose k a.series =
          some ((seek k a.series).getD (.opened k .newSum)) := by
        rw [slot, hsum]
        cases seek k a.series <;> rfl
      rw [hslot]
      exact hP.add h m hm.1 hm.2 a.stamp
    next hm => exact hP.other h _ (if_neg hm) rfl
  observe := by
    intro ds a registered ha hr h d n labels
    by_cases hd : d ∈ registered
    · have hk : (d, labels) ≠ k := by
        rintro rfl
        exact absurd hsync (by simp [hr d hd])
      rw [(measured_observe ha.selector registered d n labels).frame k hk]
      exact hP.other h _ rfl rfl
    · have hs : (a.observe registered d n labels).series = a.series := by
        rw [observe, if_neg hd]
        rfl
      rw [hs]
      exact hP.other h _ rfl rfl

theorem KeptAt.and {P Q : List Deed → Option LiveSeries → Prop} (hP : KeptAt k P)
    (hQ : KeptAt k Q) : KeptAt k fun ds s? => P ds s? ∧ Q ds s? where
  other h deed hr hh := ⟨hP.other h.1 deed hr hh, hQ.other h.2 deed hr hh⟩
  add h m hm ha stamp := ⟨hP.add h.1 m hm ha stamp, hQ.add h.2 m hm ha stamp⟩

/-- The series with a key is a sum, and what it holds is what was recorded and not handed over,
while the values accepted fit into the range. -/
structure Account (k : SeriesKey) (ds : List Deed) (s? : Option LiveSeries) : Prop where
  summed : ∀ s, s? = some s → s.key = k ∧ ∃ x y, s.current = .sum x ∧ s.checkpoint = .sum y
  balance : Fits k ds → (handedValues k ds).sum + held s? = (recordedValues k ds).sum
  bound : Fits k ds → |held s?| ≤ ((recordedValues k ds).map (|·|)).sum

/-- A series holds nothing if it has no more measurements than it had at some point. -/
def EmptyAt (n : Nat) (s : LiveSeries) : Prop := s.updates = n → amount s = 0

/-- The series with a key counts no more measurements as collected than it has, and holds nothing
if it counts them all. -/
def Clean (_ : List Deed) (s? : Option LiveSeries) : Prop :=
  ∀ s, s? = some s → s.collected ≤ s.updates ∧ EmptyAt s.collected s

/-- The series with a key was handed over when it had some number of measurements. -/
def Moved (n : Nat) (_ : List Deed) (s? : Option LiveSeries) : Prop :=
  ∃ s, s? = some s ∧ s.collected ≤ n ∧ n ≤ s.updates ∧ EmptyAt n s

/-- There is a series with a key, with at least some number of measurements. -/
def Found (n : Nat) (_ : List Deed) (s? : Option LiveSeries) : Prop :=
  ∃ s, s? = some s ∧ n ≤ s.updates

theorem Moved.clean {n : Nat} {ds : List Deed} {s? : Option LiveSeries} (h : Moved n ds s?) :
    Clean ds s? := by
  obtain ⟨s, rfl, hc, hu, he⟩ := h
  intro t ht
  obtain rfl := Option.some.inj ht
  exact ⟨hc.trans hu, fun hx => he (le_antisymm (hx.trans_le hc) hu)⟩

theorem keptAt_account (hint : k.1.numberKind.IsInteger) : KeptAt k (Account k) where
  other := by
    intro ds s? h deed hr hh
    refine ⟨h.summed, fun hf => ?_, fun hf => ?_⟩
    · rw [recordedValues_snoc, handedValues_snoc, hr, hh]
      simpa using h.balance hf.of_snoc
    · rw [recordedValues_snoc, hr]
      simpa using h.bound hf.of_snoc
  add := by
    intro ds s? h m hm hacc stamp
    have hv : recordedValue k (.recorded m) = some (k.1.numberKind.toInt m.number) :=
      if_pos ⟨hm, hacc⟩
    -- a series that is opened holds nothing, as if it had been there
    obtain ⟨s, hs, hkey, x, y, hx, hy, hheld⟩ : ∃ s, s?.getD (.opened k .newSum) = s ∧
        s.key = k ∧ ∃ x y, s.current = .sum x ∧ s.checkpoint = .sum y ∧ amount s = held s? := by
      cases s? with
      | none => exact ⟨_, rfl, rfl, ⟨0⟩, ⟨0⟩, rfl, rfl, NumberKind.toInt_zero _ hint⟩
      | some s =>
        obtain ⟨hk, x, y, hx, hy⟩ := h.summed s rfl
        exact ⟨s, rfl, hk, x, y, hx, hy, rfl⟩
    have hd : s.descriptor = k.1 := congrArg Prod.fst hkey
    have hsum : Fits k (ds ++ [.recorded m]) →
        held (some (s.add m.number stamp)) = held s? + k.1.numberKind.toInt m.number := by
      intro hf
      have hb := h.bound hf.of_snoc
      rw [Fits, recordedValues_snoc, hv] at hf
      simp only [Option.toList_some, List.map_append, List.map_cons, List.map_nil,
        List.sum_append, List.sum_singleton] at hf
      have hadd := amount_add hx (hd ▸ hint) (n := m.number) (by rw [hd, hheld]; omega) stamp
      rw [hd, hheld] at hadd
      exact hadd
    rw [hs]
    refine ⟨?_, fun hf => ?_, fun hf => ?_⟩
    · rintro t ⟨⟩
      exact ⟨hkey, _, y, by rw [LiveSeries.add, hx]; rfl, hy⟩
    · have hb := h.balance hf.of_snoc
      rw [hsum hf, recordedValues_snoc, handedValues_snoc, hv, List.sum_append, List.sum_append]
      simp only [handedValue, Option.toList_none, Option.toList_some, List.sum_nil,
        List.sum_singleton]
      omega
    · have hb := h.bound hf.of_snoc
      have htri := abs_add_le (held s?) (k.1.numberKind.toInt m.number)
      rw [hsum hf, recordedValues_snoc, hv]
      simp only [Option.toList_some, List.map_append, List.map_cons, List.map_nil,
        List.sum_append, List.sum_singleton]
      omega

theorem keptAt_clean : KeptAt k Clean where
  other h _ _ _ := h
  add := by
    intro ds s? h m _ _ stamp t ht
    obtain rfl := Option.some.inj ht
    have hle : (s?.getD (.opened k .newSum)).collected ≤
        (s?.getD (.opened k .newSum)).updates := by
      cases s? with
      | none => exact le_refl _
      | some s => exact (h s rfl).1
    exact ⟨Nat.le_succ_of_le hle, fun hx => absurd hx (Nat.lt_succ_of_le hle).ne'⟩

theorem keptAt_moved (n : Nat) : KeptAt k (Moved n) where
  other h _ _ _ := h
  add := by
    rintro ds s? ⟨s, rfl, hc, hu, he⟩ m _ _ stamp
    exact ⟨_, rfl, hc, Nat.le_succ_of_le hu, fun hx => absurd hx (Nat.lt_succ_of_le hu).ne'⟩

theorem keptAt_found (n : Nat) : KeptAt k (Found n) where
  other h _ _ _ := h
  add := by
    rintro ds s? ⟨s, rfl, hu⟩ m _ _ stamp
    exact ⟨_, rfl, Nat.le_succ_of_le hu⟩

/-! ## Sweeps -/

def Booked (k : SeriesKey) (ds : List Deed) (a : Accumulator) : Prop :=
  Account k ds (seek k a.series) ∧ Clean ds (seek k a.series)

theorem Account.replace {ds : List Deed} {s t : LiveSeries} (h : Account k ds (some s))
    (hk : t.key = s.key) (hc : t.current = s.current) (hp : t.checkpoint = s.checkpoint) :
    Account k ds (some t) := by
  obtain ⟨hs, x, y, hx, hy⟩ := h.summed s rfl
  have hheld : held (some t) = held (some s) := by
    have hd : t.descriptor = s.descriptor := congrArg Prod.fst hk
    simp only [held, amount, hc, hd, Option.elim_some]
  refine ⟨?_, hheld ▸ h.balance, hheld ▸ h.bound⟩
  rintro _ ⟨⟩
  exact ⟨hk.trans hs, x, y, hc.trans hx, hp.trans hy⟩

/-- Handing over the series moves what it holds to what was handed over. -/
theorem Account.handOver {ds : List Deed} {s : LiveSeries} (h : Account k ds (some s))
    (hint : k.1.numberKind.IsInteger) (resource : Resource) :
    ∃ current checkpoint, s.current.move s.checkpoint s.descriptor = .ok (current, checkpoint) ∧
      Account k (ds ++ [.processed ⟨⟨s.descriptor, s.labels, resource⟩, checkpoint⟩])
        (some { s with current, checkpoint }) ∧
      amount { s with current, checkpoint } = 0 := by
  obtain ⟨hkey, x, y, hx, hy⟩ := h.summed s rfl
  have hd : s.descriptor = k.1 := congrArg Prod.fst hkey
  refine ⟨.sum ⟨0⟩, .sum x, by rw [hx, hy]; rfl, ?_, NumberKind.toInt_zero _ (hd ▸ hint)⟩
  have hzero : held (some { s with current := .sum ⟨0⟩, checkpoint := .sum x }) = 0 :=
    NumberKind.toInt_zero _ (hd ▸ hint)
  have hheld : held (some s) = k.1.numberKind.toInt x := by
    simp only [held, amount, hx, hd, Option.elim_some, Aggregator.sum?]
  have hhand : handedValue k (.processed ⟨⟨s.descriptor, s.labels, resource⟩, .sum x⟩) =
      some (k.1.numberKind.toInt x) := if_pos hkey
  refine ⟨?_, fun hf => ?_, fun hf => ?_⟩
  · rintro _ ⟨⟩
    exact ⟨hkey, _, _, rfl, rfl⟩
  · have hb := h.balance hf.of_snoc
    rw [hzero, recordedValues_snoc, handedValues_snoc, hhand, List.sum_append, ← hheld]
    simpa [recordedValue] using hb
  · rw [hzero, recordedValues_snoc]
    simpa [recordedValue] using (abs_nonneg _).trans (h.bound hf.of_snoc)

section
variable {σ : Type} {ds : List Deed} {a : Accumulator}

theorem KeptAt.checkpointSeries {P : List Deed → Option LiveSeries → Prop} (hP : KeptAt k P)
    (hsync : k.1.kind.isSynchronous = true) (hsum : choose k.1 = some .newSum)
    (step : ProcessorStep σ) {s : LiveSeries} (hs : s.key ≠ k) (p : σ) (ha : Sound choose a)
    (h : P ds (seek k a.series)) :
    let r := checkpointSeries (logged step) s (p, ds) a
    P r.2.1.2 (seek k r.1.series) := by
  intro r
  have hspec := checkpointSeries_spec step s p ds a
  cases hm : s.current.move s.checkpoint s.descriptor with
  | error cause =>
    simp only [hm] at hspec
    rw [show r = _ from hspec]
    exact h
  | ok moved =>
    obtain ⟨current, checkpoint⟩ := moved
    simp only [hm] at hspec
    obtain ⟨events, p', records, hr, hlog, -⟩ := hspec
    have hstore := measured_store a (k := s.key) (s := { s with current, checkpoint }) rfl
    have hprocessed : P (ds ++ [.processed ⟨⟨s.descriptor, s.labels, a.resource⟩, checkpoint⟩])
        (seek k (a.store { s with current, checkpoint }).series) := by
      rw [hstore.frame k hs]
      exact hP.other h _ rfl (if_neg hs)
    have hrec := ((hP.kept hsync hsum).recordAll records (ha.measured hstore) hprocessed).2
    rw [List.append_assoc] at hrec
    rw [show r.1 = _ from hr, show r.2.1 = _ from hlog]
    exact hrec

/-- Handing over the series with the key itself leaves it with what was recorded meanwhile. -/
theorem Account.checkpointSeries (hint : k.1.numberKind.IsInteger)
    (hsync : k.1.kind.isSynchronous = true) (hsum : choose k.1 = some .newSum)
    (step : ProcessorStep σ) {s : LiveSeries} (p : σ) (ha : Sound choose a)
    (hs : seek k a.series = some s) (h : Account k ds (some s)) (hc : s.collected ≤ s.updates) :
    let r := checkpointSeries (logged step) s (p, ds) a
    Account k r.2.1.2 (seek k r.1.series) ∧ Moved s.updates r.2.1.2 (seek k r.1.series) := by
  intro r
  obtain ⟨current, checkpoint, hm, hacc, hzero⟩ := h.handOver hint a.resource
  have hspec := checkpointSeries_spec step s p ds a
  simp only [hm] at hspec
  obtain ⟨events, p', records, hr, hlog, -⟩ := hspec
  have hkey := seek_key hs
  have hstore := measured_store a (k := k) (s := { s with current, checkpoint }) hkey
  have hseek : seek k (a.store { s with current, checkpoint }).series =
      some { s with current, checkpoint } := seek_store_self hkey hs
  have hmoved : Moved s.updates (ds ++ [.processed ⟨⟨s.descriptor, s.labels, a.resource⟩,
      checkpoint⟩]) (some { s with current, checkpoint }) :=
    ⟨_, rfl, hc, le_refl _, fun _ => hzero⟩
  have hrec := ((((keptAt_account hint).and (keptAt_moved s.updates)).kept hsync
    hsum).recordAll records (ha.measured hstore) (by rw [hseek]; exact ⟨hacc, hmoved⟩)).2
  rw [List.append_assoc] at hrec
  rw [show r.1 = _ from hr, show r.2.1 = _ from hlog]
  exact hrec

theorem booked_markCollected {found : LiveSeries} {n : Nat} (hk : found.key = k)
    (hle : found.updates ≤ n) (hacc : Account k ds (seek k a.series))
    (hmoved : Moved n ds (seek k a.series)) : Booked k ds (Accumulator.markCollected found a) := by
  subst hk
  obtain ⟨s, hs, -, hu, he⟩ := hmoved
  rw [Booked, seek_markCollected_self, hs, Option.map_some]
  rw [hs] at hacc
  refine ⟨hacc.replace rfl rfl rfl, ?_⟩
  rintro _ ⟨⟩
  exact ⟨hle.trans hu, fun hx => he (le_antisymm (hx.trans_le hle) hu)⟩

theorem checkpointAll_booked (hint : k.1.numberKind.IsInteger)
    (hsync : k.1.kind.isSynchronous = true) (hsum : choose k.1 = some .newSum)
    (step : ProcessorStep σ) (found : List LiveSeries) (hd : Distinct found) (p : σ)
    (ha : Sound choose a) (hb : Booked k ds a)
    (hfound : ∀ f ∈ found, f.key = k → Found f.updates ds (seek k a.series)) :
    let r := checkpointAll (logged step) found (p, ds) a
    Booked k r.2.1.2 r.1 := by
  induction found generalizing p ds a with
  | nil => exact hb
  | cons f found ih =>
    obtain ⟨hne, hd⟩ := List.nodup_cons.mp hd
    have hsound := ha.checkpointSeries (logged step)
      ((a.find? f.descriptor f.labels).getD f) (p, ds)
    simp only [checkpointAll]
    by_cases hf : f.key = k
    · -- the series itself: no later one has the same key
      obtain ⟨s, hs, hle⟩ := hfound f (by simp) hf
      have hfind : (a.find? f.descriptor f.labels).getD f = s := by
        rw [find?_eq_seek, show (f.descriptor, f.labels) = k from hf, hs]
        rfl
      obtain ⟨hacc, hclean⟩ := hb
      rw [hs] at hacc
      obtain ⟨hacc', hmoved⟩ := hacc.checkpointSeries hint hsync hsum step p ha hs
        (hclean s hs).1
      rw [hfind] at hsound ⊢
      rcases hr : checkpointSeries (logged step) s (p, ds) a with ⟨a', ⟨p', ds'⟩, cause | n⟩
      · rw [hr] at hacc' hmoved
        exact ⟨hacc', hmoved.clean⟩
      · rw [hr] at hsound hacc' hmoved
        refine ih hd p' (hsound.markCollected f) (booked_markCollected hf hle hacc' hmoved) ?_
        intro g hg hgk
        exact absurd (List.mem_map.mpr ⟨g, hg, hgk.trans hf.symm⟩) hne
    · have hkey := seek_getD_key f a
      generalize (a.find? f.descriptor f.labels).getD f = s at hkey hsound ⊢
      have hs : s.key ≠ k := hkey ▸ hf
      have hb' := ((keptAt_account hint).and keptAt_clean).checkpointSeries hsync hsum step hs p ha
        hb
      have hfound' : ∀ g ∈ found, g.key = k →
          Found g.updates (checkpointSeries (logged step) s (p, ds) a).2.1.2
            (seek k (checkpointSeries (logged step) s (p, ds) a).1.series) := fun g hg hgk =>
        (keptAt_found g.updates).checkpointSeries hsync hsum step hs p ha
          (hfound g (by simp [hg]) hgk)
      rcases hr : checkpointSeries (logged step) s (p, ds) a with ⟨a', ⟨p', ds'⟩, cause | n⟩
      · rw [hr] at hb'
        exact hb'
      · rw [hr] at hsound hb' hfound'
        have hmark := (measured_markCollected f a').frame k hf
        refine ih hd p' (hsound.markCollected f) ?_ ?_
        · rw [Booked, hmark]
          exact hb'
        · rw [hmark]
          exact hfound'

theorem Booked.evictIdle (h : Booked k ds a) (ha : Sound choose a) : Booked k ds a.evictIdle := by
  obtain ⟨events, he⟩ := evictIdle_eq a
  rw [he, Booked, seek_filter ha.distinct]
  obtain ⟨hacc, hclean⟩ := h
  cases hs : seek k a.series with
  | none =>
    rw [hs] at hacc
    exact ⟨hacc, by simp [Clean]⟩
  | some s =>
    rw [hs] at hacc hclean
    cases hevict : a.isEvictable s with
    | false =>
      rw [Option.filter_some_pos (by simp [hevict])]
      exact ⟨hacc, hclean⟩
    | true =>
      rw [Option.filter_some_neg (by simp [hevict])]
      have hpending : s.updates = s.collected := by
        simp only [isEvictable, LiveSeries.isPending, Bool.and_eq_true] at hevict
        simpa using hevict.2
      have hzero : held (some s) = 0 := (hclean s rfl).2 hpending
      refine ⟨⟨by simp, fun hf => ?_, fun hf => ?_⟩, by simp [Clean]⟩
      · have := hacc.balance hf
        rw [hzero] at this
        exact this
      · have := hacc.bound hf
        rw [hzero] at this
        exact this

theorem Booked.sweep (hint : k.1.numberKind.IsInteger)
    (hsync : k.1.kind.isSynchronous = true) (hsum : choose k.1 = some .newSum)
    (step : ProcessorStep σ) (p : σ) (ha : Sound choose a) (hb : Booked k ds a) :
    let r := Accumulator.sweep (logged step) (p, ds) a
    Booked k r.2.1.2 r.1 := by
  have hsound : Sound choose a.ageIdle :=
    ⟨ha.selector, distinct_map aged_key ha.distinct, ha.asynchronous⟩
  have haged : Booked k ds a.ageIdle := by
    obtain ⟨hacc, hclean⟩ := hb
    rw [Booked, ageIdle_series, seek_map aged_key]
    cases hs : seek k a.series with
    | none =>
      rw [hs] at hacc
      exact ⟨hacc, by simp [Clean]⟩
    | some s =>
      rw [hs] at hacc hclean
      rw [Option.map_some, aged]
      split
      · exact ⟨hacc, hclean⟩
      · refine ⟨hacc.replace rfl rfl rfl, ?_⟩
        rintro _ ⟨⟩
        exact hclean s rfl
  have hfound : ∀ f ∈ a.series.filter (·.isPending), f.key = k →
      Found f.updates ds (seek k a.ageIdle.series) := by
    intro f hf hfk
    have hs := seek_of_mem ha.distinct (List.mem_filter.mp hf).1
    rw [hfk] at hs
    rw [ageIdle_series, seek_map aged_key, hs]
    refine ⟨_, rfl, ?_⟩
    rw [aged]
    split <;> exact le_refl _
  have hb' := checkpointAll_booked hint hsync hsum step _ (distinct_filter ha.distinct _) p hsound
    haged hfound
  have hsound' := hsound.checkpointAll (logged step) (a.series.filter (·.isPending)) (p, ds)
  simp only [Accumulator.sweep]
  rcases hr : checkpointAll (logged step) (a.series.filter (·.isPending)) (p, ds) a.ageIdle with
    ⟨a', ⟨p', ds'⟩, cause | n⟩
  · rw [hr] at hb'
    exact hb'
  · rw [hr] at hsound' hb'
    exact Booked.evictIdle hb' hsound'

/-! ## Runs -/

theorem Booked.collect (hint : k.1.numberKind.IsInteger)
    (hsync : k.1.kind.isSynchronous = true) (hsum : choose k.1 = some .newSum) (cx : Context)
    (step : ProcessorStep σ) (p : σ) (ha : Sound choose a) (hb : Booked k ds a) :
    Booked k (ds ++ collected cx step p a) (Accumulator.collect cx step p a).1 := by
  obtain ⟨hsound, hcalled⟩ := (((keptAt_account hint).and keptAt_clean).kept hsync
    hsum).callObservers cx (List.range a.observers.length) ha hb
  rcases collect_cases cx step p a with ⟨hc, hds⟩ | ⟨hc, hds⟩ | ⟨new, hds, hlog, hc⟩
  · rw [hc, hds, List.append_nil]
    exact hb
  · rw [hc, hds]
    exact hcalled
  · have hswept := Booked.sweep hint hsync hsum step p hsound hcalled
    rw [hlog, List.append_assoc, ← hds] at hswept
    rcases hc with ⟨n, errors, -, -, hc⟩ | ⟨cause, -, hc⟩
    · rw [hc]
      exact hswept
    · rw [hc]
      exact hswept

theorem Booked.serve (hint : k.1.numberKind.IsInteger)
    (hsync : k.1.kind.isSynchronous = true) (hsum : choose k.1 = some .newSum)
    (request : Request σ) (ha : Sound choose a) (hb : Booked k ds a) :
    Booked k (ds ++ deeds request a) (serve request a) := by
  have hkept := ((keptAt_account hint).and keptAt_clean).kept hsync hsum
  cases request with
  | record m => exact hkept.record ha hb m
  | register descriptors calls =>
    obtain ⟨-, hsame, hseries⟩ := ha.register descriptors calls
    rw [deeds, List.append_nil]
    exact hkept.same hb hsame hseries
  | await now flags =>
    rw [deeds, List.append_nil]
    exact hb
  | collect cx step p => exact hb.collect hint hsync hsum cx step p ha

theorem booked_serveAll (hint : k.1.numberKind.IsInteger)
    (hsync : k.1.kind.isSynchronous = true) (hsum : choose k.1 = some .newSum)
    (requests : List (Request σ)) (ha : Sound choose a) (hb : Booked k ds a) :
    Booked k (ds ++ deedsAll requests a) (serveAll requests a) := by
  induction requests generalizing ds a with
  | nil =>
    rw [deedsAll, List.append_nil]
    exact hb
  | cons request requests ih =>
    rw [deedsAll, ← List.append_assoc]
    exact ih (ha.serve request) (hb.serve hint hsync hsum request ha)

theorem booked_new (k : SeriesKey) (resource : Resource) (idleCycles : Nat) (now : Time) :
    Booked k [] (new (.ofFunction choose) resource idleCycles now) :=
  ⟨⟨by simp [new], fun _ => rfl, fun _ => le_refl _⟩, by simp [Clean, new]⟩

end

/-- For a synchronous integer instrument of which the measurements are summed up, what was handed
to processors and what the series still holds add up to what was recorded. Every collection hands
over each series at most once, and counts what it hands over. -/
theorem measurements_conserved {σ : Type} (choose : Descriptor → Option Aggregator)
    (resource : Resource) (idleCycles : Nat) (created : Time) (requests : List (Request σ)) :
    let start := new (.ofFunction choose) resource idleCycles created
    let ds := deedsAll requests start
    let a := serveAll requests start
    (∀ k : SeriesKey, k.1.kind.isSynchronous = true → k.1.numberKind.IsInteger →
      choose k.1 = some .newSum →
      ((recordedValues k ds).map (|·|)).sum ≤ k.1.numberKind.highest →
      (handedValues k ds).sum + held (a.find? k.1 k.2) = (recordedValues k ds).sum) ∧
    ∀ (cx : Context) (step : ProcessorStep σ) (p : σ),
      ((handed (collected cx step p a)).map fun acc => acc.series.key).Nodup ∧
      ∀ n, ((collect cx step p a).2.2 = .ok n ∨
        ∃ errors, (collect cx step p a).2.2 = .error (.error (.partialCollection n errors))) →
        n = (handed (collected cx step p a)).length := by
  intro start ds a
  refine ⟨fun k hsync hint hsum hfits => ?_, fun cx step p => ?_⟩
  · have hb := booked_serveAll hint hsync hsum requests (sound_new resource idleCycles created)
      (booked_new k resource idleCycles created)
    rw [find?_eq_seek]
    exact hb.1.balance hfits
  · exact ((sound_new resource idleCycles created).serveAll requests).collected_handed cx step p

/-- Three requests are counted, and two more while these are handed over. -/
theorem measurements_conserved_requests :
    let d : Descriptor := { name := "requests", kind := .counter, numberKind := .u64 }
    let counted (n : Number) : Measurement := ⟨d, n, .u64, .empty⟩
    let step : ProcessorStep Unit := fun _ _ => ((), { records := [counted ⟨2⟩] })
    let requests : List (Request Unit) := [.record (counted ⟨3⟩), .collect {} step ()]
    let start := new (.ofFunction fun _ => some .newSum) .empty 1 0
    let ds := deedsAll requests start
    recordedValues (d, .empty) ds = [3, 2] ∧
      (handedValues (d, .empty) ds).sum +
        held ((serveAll requests start).find? d .empty) = 5 := by
  intro d counted step requests start ds
  have hvalues : recordedValues (d, .empty) ds = [3, 2] := rfl
  have hfits : ((recordedValues (d, .empty) ds).map (|·|)).sum ≤ d.numberKind.highest := by
    rw [hvalues]
    decide
  refine ⟨hvalues, ?_⟩
  rw [(measurements_conserved (fun _ => some .newSum) .empty 1 0 requests).1 (d, .empty) rfl
    (by decide) rfl hfits, hvalues]
  rfl

end Metering.Accumulator
