import Mathlib
import Metering.Proofs.Accumulator.Deeds

/-!
# What all aggregators of an accumulator have

A property of an instrument's aggregators that every choice of the selector has, and that measuring
and moving keep, is one of all series and of all that is handed to a processor. The selector may
choose differently each time it is asked.
-/

namespace Metering

/-- A property of the aggregators of each instrument that the choices of a selector have, and that
measurements in range and moves between two such aggregators keep. -/
structure Selector.Persists (selector : Selector) (P : Descriptor → Aggregator → Prop) : Prop where
  chosen : ∀ {asked d g}, selector.choose asked d = some g → P d g
  update : ∀ {d a n}, P d a → d.rangeTest n = .ok () → ∀ stamp, P d (a.update n d stamp)
  move : ∀ {d a b a' b'}, P d a → P d b → a.move b d = .ok (a', b') → P d a' ∧ P d b'

/-- Whether both aggregators of a series have a property. -/
def LiveSeries.Has (P : Descriptor → Aggregator → Prop) (s : LiveSeries) : Prop :=
  P s.descriptor s.current ∧ P s.descriptor s.checkpoint

namespace Accumulator

/-- Whether all series have a property, under a given selector. -/
structure AllHave (selector : Selector) (P : Descriptor → Aggregator → Prop) (a : Accumulator) :
    Prop where
  selector : a.selector = selector
  series : ∀ s ∈ a.series, s.Has P

variable {selector : Selector} {P : Descriptor → Aggregator → Prop} {a : Accumulator}
  {s : LiveSeries}

theorem allHave_new (resource : Resource) (idleCycles : Nat) (now : Time) :
    AllHave selector P (new selector resource idleCycles now) :=
  ⟨rfl, by simp [new]⟩

theorem AllHave.same {b : Accumulator} (h : AllHave selector P a)
    (hselector : b.selector = a.selector) (hseries : b.series = a.series) :
    AllHave selector P b :=
  ⟨hselector.trans h.selector, hseries ▸ h.series⟩

theorem AllHave.map (h : AllHave selector P a) {f : LiveSeries → LiveSeries}
    (hf : ∀ s, s.Has P → (f s).Has P) : AllHave selector P { a with series := a.series.map f } := by
  refine ⟨h.selector, fun s hs => ?_⟩
  obtain ⟨t, ht, rfl⟩ := List.mem_map.mp hs
  exact hf t (h.series t ht)

theorem AllHave.store (h : AllHave selector P a) (hs : s.Has P) :
    AllHave selector P (a.store s) := by
  refine h.map fun t ht => ?_
  split
  · exact hs
  · exact ht

/-! ## Measurements -/

section
variable (hP : selector.Persists P)
include hP

theorem AllHave.ask (h : AllHave selector P a) (d : Descriptor) :
    AllHave selector P (a.ask d).1 ∧ ∀ g, (a.ask d).2 = some g → P d g := by
  refine ⟨⟨h.selector, h.series⟩, fun g hg => ?_⟩
  have hchosen : a.selector.choose a.asked d = some g := hg
  exact hP.chosen (h.selector ▸ hchosen)

theorem AllHave.acquire (h : AllHave selector P a) (d : Descriptor) (labels : LabelSet) :
    AllHave selector P (a.acquire d labels).1 ∧
      ∀ s, (a.acquire d labels).2 = some s → s.descriptor = d ∧ s.Has P := by
  rw [Accumulator.acquire, find?_eq_seek]
  cases hfind : seek (d, labels) a.series with
  | some s =>
    refine ⟨h, fun t ht => ?_⟩
    obtain rfl := Option.some.inj ht
    exact ⟨congrArg Prod.fst (seek_key hfind), h.series s (seek_mem hfind)⟩
  | none =>
    obtain ⟨h₁, hcurrent⟩ := h.ask hP d
    rcases hask : a.ask d with ⟨a₁, _ | current⟩
    · exact ⟨by simpa [hask] using h₁, by simp⟩
    rw [hask] at h₁ hcurrent
    obtain ⟨h₂, hcheckpoint⟩ := h₁.ask hP d
    rcases hask' : a₁.ask d with ⟨a₂, _ | checkpoint⟩
    · exact ⟨by simpa [hask'] using h₂, by simp [hask']⟩
    rw [hask'] at h₂ hcheckpoint
    have hopened : LiveSeries.Has P { descriptor := d, labels, current, checkpoint } :=
      ⟨hcurrent current rfl, hcheckpoint checkpoint rfl⟩
    simp only [hask']
    refine ⟨⟨h₂.selector, fun s hs => ?_⟩, fun s hs => ?_⟩
    · rcases List.mem_append.mp hs with hs | hs
      · exact h₂.series s hs
      · exact List.mem_singleton.mp hs ▸ hopened
    · obtain rfl := Option.some.inj hs
      exact ⟨rfl, hopened⟩

theorem AllHave.reobserve (h : AllHave selector P a) (hs : s.Has P) :
    AllHave selector P (a.reobserve s).1 ∧
      ∀ t, (a.reobserve s).2 = .ok t → t.descriptor = s.descriptor ∧ t.Has P := by
  rw [Accumulator.reobserve]
  obtain ⟨h₁, hscratch⟩ := h.ask hP s.descriptor
  by_cases hrepeated : s.observedEpoch = a.epoch + 1
  swap
  · simp only [hrepeated, if_false]
    refine ⟨h, fun t ht => ?_⟩
    obtain rfl := Except.ok.inj ht
    exact ⟨rfl, hs⟩
  simp only [hrepeated, if_true]
  rcases hask : a.ask s.descriptor with ⟨a₁, _ | scratch⟩
  · rw [hask] at h₁
    refine ⟨h₁, fun t ht => ?_⟩
    obtain rfl := Except.ok.inj ht
    exact ⟨rfl, hs⟩
  rw [hask] at h₁ hscratch
  refine ⟨h₁, fun t ht => ?_⟩
  cases hmove : s.current.move scratch s.descriptor with
  | error cause => simp [hmove, Except.map] at ht
  | ok moved =>
    simp only [hmove, Except.map] at ht
    obtain rfl := Except.ok.inj ht
    exact ⟨rfl, (hP.move hs.1 (hscratch scratch rfl) hmove).1, hs.2⟩

theorem AllHave.addTo (h : AllHave selector P a) (hs : s.Has P) {n : Number}
    (hn : s.descriptor.rangeTest n = .ok ()) : AllHave selector P (a.addTo s n) :=
  have hstore := h.store (s := s.add n a.stamp) ⟨hP.update hs.1 hn a.stamp, hs.2⟩
  ⟨hstore.selector, hstore.series⟩

theorem AllHave.update (h : AllHave selector P a) (d : Descriptor) (n : Number)
    (labels : LabelSet) (isObserved : Bool) :
    AllHave selector P (a.update d n labels isObserved) := by
  rw [Accumulator.update]
  cases hn : d.rangeTest n with
  | error reason => exact ⟨h.selector, h.series⟩
  | ok _ =>
    obtain ⟨h₁, hacquired⟩ := h.acquire hP d labels
    simp only
    rcases hacq : a.acquire d labels with ⟨a₁, _ | s⟩
    · rwa [hacq] at h₁
    rw [hacq] at h₁ hacquired
    obtain ⟨rfl, hs⟩ := hacquired s rfl
    cases isObserved with
    | false => exact h₁.addTo hP hs hn
    | true =>
      obtain ⟨h₂, hprepared⟩ := h₁.reobserve hP hs
      simp only [if_true]
      rcases hobs : a₁.reobserve s with ⟨a₂, cause | t⟩
      · rw [hobs] at h₂
        have hstore := h₂.store (s := { s with observedEpoch := a₂.epoch + 1 }) hs
        exact ⟨hstore.selector, hstore.series⟩
      · rw [hobs] at h₂ hprepared
        obtain ⟨hd, ht⟩ := hprepared t rfl
        exact h₂.addTo hP ht (hd ▸ hn)

theorem AllHave.record (h : AllHave selector P a) (m : Measurement) :
    AllHave selector P (a.record m) := by
  simp only [Accumulator.record]
  split
  · exact h.update hP ..
  · exact ⟨h.selector, h.series⟩

theorem AllHave.observe (h : AllHave selector P a) (registered : List Descriptor)
    (d : Descriptor) (n : Number) (labels : LabelSet) :
    AllHave selector P (a.observe registered d n labels) := by
  rw [Accumulator.observe]
  split
  · exact h.update hP ..
  · exact ⟨h.selector, h.series⟩

theorem AllHave.recordAll (h : AllHave selector P a) (ms : List Measurement) :
    AllHave selector P (ms.foldl Accumulator.record a) := by
  induction ms generalizing a with
  | nil => exact h
  | cons m ms ih => exact ih (h.record hP m)

end

theorem AllHave.register (h : AllHave selector P a) (descriptors : List Descriptor)
    (calls : List (List CallbackAction)) :
    AllHave selector P (a.register descriptors calls).1 := by
  rw [Accumulator.register]
  split <;> exact ⟨h.selector, h.series⟩

/-! ## Callbacks -/

section
variable (hP : selector.Persists P) (cx : Context)
include hP

theorem AllHave.perform (h : AllHave selector P a) (registered : List Descriptor)
    (actions : List CallbackAction) : AllHave selector P (perform cx registered actions a).1 := by
  induction actions generalizing a with
  | nil => exact h
  | cons action rest ih =>
    cases action with
    | observe d n labels => exact ih (h.observe hP registered d n labels)
    | record m => exact ih (h.record hP m)
    | register descriptors calls =>
      have hregister := h.register descriptors calls
      exact ih ⟨hregister.selector, hregister.series⟩
    | cancel =>
      refine ih ?_
      rw [Accumulator.cancel]
      split <;> exact ⟨h.selector, h.series⟩
    | note text => exact ih ⟨h.selector, h.series⟩
    | fail error => exact h
    | panic cause => exact h

theorem AllHave.callObserver (h : AllHave selector P a) (i : Nat) :
    AllHave selector P (callObserver cx i a).1 := by
  rw [Accumulator.callObserver]
  cases a.observers[i]? with
  | none => exact h
  | some o =>
    have hcalled : AllHave selector P
        { a with observers := a.observers.set i { o with called := o.called + 1 } } :=
      ⟨h.selector, h.series⟩
    have hperform := hcalled.perform hP cx o.descriptors o.nextActions
    simp only
    split
    next hp => rwa [hp] at hperform
    next hp =>
      rw [hp] at hperform
      exact ⟨hperform.selector, hperform.series⟩

theorem AllHave.callObservers (h : AllHave selector P a) (is : List Nat) :
    AllHave selector P (callObservers cx is a).1 := by
  induction is generalizing a with
  | nil => exact h
  | cons i is ih =>
    rw [Accumulator.callObservers]
    split
    · exact h
    · exact ih (h.callObserver hP cx i)

end

/-! ## Collections -/

theorem AllHave.evictIdle (h : AllHave selector P a) : AllHave selector P a.evictIdle := by
  obtain ⟨events, hevicted⟩ := evictIdle_eq a
  rw [hevicted]
  exact ⟨h.selector, fun s hs => h.series s (List.mem_of_mem_filter hs)⟩

section
variable {σ : Type} {I : σ → Prop} {step : ProcessorStep σ} {p : σ}
  (hP : selector.Persists P)
  (hI : ∀ p acc, P acc.series.descriptor acc.aggregator → I p → I (step p acc).1)
include hP hI

theorem AllHave.checkpointSeries (h : AllHave selector P a) (hs : s.Has P) (hp : I p) :
    AllHave selector P (checkpointSeries step s p a).1 ∧ I (checkpointSeries step s p a).2.1 := by
  rw [Accumulator.checkpointSeries]
  cases hmove : s.current.move s.checkpoint s.descriptor with
  | error cause => exact ⟨⟨h.selector, h.series⟩, hp⟩
  | ok moved =>
    obtain ⟨current, checkpoint⟩ := moved
    obtain ⟨hcurrent, hcheckpoint⟩ := hP.move hs.1 hs.2 hmove
    have hstored := h.store (s := { s with current, checkpoint }) ⟨hcurrent, hcheckpoint⟩
    have hstep := hI p ⟨⟨s.descriptor, s.labels, a.resource⟩, checkpoint⟩ hcheckpoint hp
    have hrecorded := hstored.recordAll hP
      (step p ⟨⟨s.descriptor, s.labels, a.resource⟩, checkpoint⟩).2.records
    simp only
    split
    · exact ⟨hrecorded, hstep⟩
    · exact ⟨⟨hrecorded.selector, hrecorded.series⟩, hstep⟩
    · exact ⟨hrecorded, hstep⟩

omit hP hI in
theorem AllHave.markCollected (h : AllHave selector P a) (found : LiveSeries) :
    AllHave selector P (markCollected found a) := by
  refine h.map fun s hs => ?_
  split <;> exact hs

theorem AllHave.checkpointAll (h : AllHave selector P a) {found : List LiveSeries}
    (hfound : ∀ s ∈ found, s.Has P) (hp : I p) :
    AllHave selector P (checkpointAll step found p a).1 ∧
      I (checkpointAll step found p a).2.1 := by
  induction found generalizing a p with
  | nil => exact ⟨h, hp⟩
  | cons f found ih =>
    obtain ⟨hf, hfound⟩ := List.forall_mem_cons.mp hfound
    have hs : ((a.find? f.descriptor f.labels).getD f).Has P := by
      cases hfind : a.find? f.descriptor f.labels with
      | none => exact hf
      | some s => exact h.series s (List.mem_of_find?_eq_some hfind)
    obtain ⟨h₁, hp₁⟩ := h.checkpointSeries hP hI hs hp
    rw [Accumulator.checkpointAll]
    rcases hone : Accumulator.checkpointSeries step ((a.find? f.descriptor f.labels).getD f)
      p a with ⟨a₁, p₁, cause | n⟩
    · rw [hone] at h₁ hp₁
      exact ⟨h₁, hp₁⟩
    · rw [hone] at h₁ hp₁
      exact ih (h₁.markCollected f) hfound hp₁

theorem AllHave.sweep (h : AllHave selector P a) (hp : I p) :
    AllHave selector P (sweep step p a).1 ∧ I (sweep step p a).2.1 := by
  have haged : AllHave selector P a.ageIdle := by
    refine h.map fun s hs => ?_
    split <;> exact hs
  obtain ⟨h₁, hp₁⟩ := haged.checkpointAll hP hI
    (fun s hs => h.series s (List.mem_of_mem_filter (p := (·.isPending)) hs)) hp
  simp only [Accumulator.sweep]
  rcases hall : Accumulator.checkpointAll step (a.series.filter (·.isPending)) p a.ageIdle with
    ⟨a₁, p₁, cause | n⟩
  · rw [hall] at h₁ hp₁
    exact ⟨h₁, hp₁⟩
  · rw [hall] at h₁ hp₁
    exact ⟨h₁.evictIdle, hp₁⟩

/-- A collection keeps the property, and what its processor keeps of accumulations that have
it. -/
theorem AllHave.collect (h : AllHave selector P a) (cx : Context) (hp : I p) :
    AllHave selector P (collect cx step p a).1 ∧ I (collect cx step p a).2.1 := by
  have hcalled := h.callObservers hP cx (List.range a.observers.length)
  obtain ⟨hswept, hp'⟩ := hcalled.sweep hP hI hp
  obtain ⟨hc, -⟩ | ⟨hc, -⟩ | ⟨-, -, -, ⟨n, errors, -, -, hc⟩ | ⟨cause, -, hc⟩⟩ :=
    collect_cases cx step p a
  · rw [hc]
    exact ⟨h, hp⟩
  · rw [hc]
    exact ⟨hcalled, hp⟩
  · rw [hc]
    exact ⟨⟨hswept.selector, hswept.series⟩, hp'⟩
  · rw [hc]
    exact ⟨⟨hswept.selector, hswept.series⟩, hp'⟩

end
end Accumulator
end Metering
