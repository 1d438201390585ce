import Metering.Proofs.Accumulator.Deeds

/-!
# What an accumulator leaves to others

Measuring and collecting never export anything, whatever the selector, the callbacks and the
processor do. Measurements leave the callbacks alone, and one that is taken in is not counted as
dropped.
-/

namespace Metering

/-- Whether an exporter was called, or wrote a text. -/
def Event.isExport : Event → Bool
  | .exported _ | .written _ => true
  | _ => false

namespace Accumulator

variable {a b c : Accumulator}

/-- What exporters did, in order. -/
def shipped (a : Accumulator) : List Event := a.events.filter (·.isExport)

theorem shipped_emit (a : Accumulator) {e : Event} (he : e.isExport = false) :
    (a.emit e).shipped = a.shipped := by
  simp [shipped, emit, he]

theorem shipped_log (a : Accumulator) (entry : LogEntry) : (a.log entry).shipped = a.shipped :=
  shipped_emit a rfl

theorem shipped_report (a : Accumulator) (cause : MetricsError) :
    (a.report cause).shipped = a.shipped := shipped_emit a rfl

theorem shipped_drop (a : Accumulator) (reason : MetricsError) :
    (a.drop reason).shipped = a.shipped :=
  (shipped_report _ reason).trans (shipped_log _ _)

/-! ## Measurements -/

/-- What a measurement that is taken in leaves as it is. -/
structure TakesIn (a b : Accumulator) : Prop where
  observers : b.observers = a.observers
  shipped : b.shipped = a.shipped
  dropped : b.dropped = a.dropped

theorem TakesIn.trans (h : TakesIn a b) (h' : TakesIn b c) : TakesIn a c :=
  ⟨h'.observers.trans h.observers, h'.shipped.trans h.shipped, h'.dropped.trans h.dropped⟩

theorem takesIn_ask (a : Accumulator) (d : Descriptor) : TakesIn a (a.ask d).1 := ⟨rfl, rfl, rfl⟩

theorem takesIn_acquire (a : Accumulator) (d : Descriptor) (labels : LabelSet) :
    TakesIn a (a.acquire d labels).1 := by
  have hfirst := takesIn_ask a d
  rw [acquire]
  split
  · exact ⟨rfl, rfl, rfl⟩
  · split
    next h => rwa [h] at hfirst
    next b _ h =>
      rw [h] at hfirst
      have hsecond := takesIn_ask b d
      split
      next h' =>
        rw [h'] at hsecond
        exact hfirst.trans hsecond
      next h' =>
        rw [h'] at hsecond
        obtain ⟨hobservers, hshipped, hdropped⟩ := hfirst.trans hsecond
        exact ⟨hobservers, hshipped, hdropped⟩

theorem takesIn_reobserve (a : Accumulator) (s : LiveSeries) : TakesIn a (a.reobserve s).1 := by
  rw [reobserve]
  dsimp only
  split
  · have hasked := takesIn_ask a s.descriptor
    split
    next h => rwa [h] at hasked
    next h => rwa [h] at hasked
  · exact ⟨rfl, rfl, rfl⟩

theorem takesIn_addTo (a : Accumulator) (s : LiveSeries) (n : Number) :
    TakesIn a (a.addTo s n) := ⟨rfl, rfl, rfl⟩

theorem takesIn_update {d : Descriptor} {n : Number} (hn : d.rangeTest n = .ok ())
    (labels : LabelSet) (isObserved : Bool) : TakesIn a (a.update d n labels isObserved) := by
  have hacquired := takesIn_acquire a d labels
  rw [update, hn]
  dsimp only
  split
  next h => rwa [h] at hacquired
  next b s h =>
    rw [h] at hacquired
    split
    · have hprepared := hacquired.trans (takesIn_reobserve b s)
      split
      next h' =>
        rw [h'] at hprepared
        exact hprepared.trans (takesIn_addTo _ _ n)
      next b' cause h' =>
        rw [h'] at hprepared
        exact hprepared.trans ⟨rfl, shipped_report _ cause, rfl⟩
    · exact hacquired.trans (takesIn_addTo b s n)

theorem record_cases (a : Accumulator) (m : Measurement) :
    m.isAccepted = true ∧ TakesIn a (a.record m) ∨
      m.isAccepted = false ∧ ∃ reason, a.record m = a.drop reason := by
  simp only [record, Measurement.isAccepted]
  by_cases hkind : m.descriptor.numberKind = m.kind
  · rw [if_pos hkind]
    cases hn : m.descriptor.rangeTest m.number with
    | error reason => exact .inr ⟨by simp [Except.isOk, Except.toBool], reason, by rw [update, hn]⟩
    | ok _ => exact .inl ⟨by simp [hkind, Except.isOk, Except.toBool], takesIn_update hn _ _⟩
  · rw [if_neg hkind]
    exact .inr ⟨by simp [hkind], _, rfl⟩

theorem observers_record (a : Accumulator) (m : Measurement) :
    (a.record m).observers = a.observers := by
  obtain ⟨-, h⟩ | ⟨-, reason, h⟩ := record_cases a m
  · exact h.observers
  · rw [h]
    rfl

theorem shipped_record (a : Accumulator) (m : Measurement) :
    (a.record m).shipped = a.shipped := by
  obtain ⟨-, h⟩ | ⟨-, reason, h⟩ := record_cases a m
  · exact h.shipped
  · rw [h, shipped_drop]

theorem dropped_record (a : Accumulator) (m : Measurement) :
    (a.record m).dropped = a.dropped + if m.isAccepted then 0 else 1 := by
  obtain ⟨hm, h⟩ | ⟨hm, reason, h⟩ := record_cases a m
  · rw [h.dropped, hm]
    rfl
  · rw [h, hm]
    rfl

theorem shipped_observe (a : Accumulator) (registered : List Descriptor) (d : Descriptor)
    (n : Number) (labels : LabelSet) :
    (a.observe registered d n labels).shipped = a.shipped := by
  rw [observe]
  split
  · cases hn : d.rangeTest n with
    | error reason => rw [update, hn, shipped_drop]
    | ok _ => exact (takesIn_update hn labels true).shipped
  · exact shipped_drop a _

theorem acquire_mem {d : Descriptor} {labels : LabelSet} {s : LiveSeries}
    (h : a.acquire d labels = (b, some s)) :
    s ∈ b.series ∧ s.key = (d, labels) ∧ b.stamp = a.stamp := by
  rw [acquire] at h
  cases hfind : a.find? d labels with
  | some t =>
    rw [hfind] at h
    obtain ⟨rfl, hs⟩ := Prod.mk.inj h
    obtain rfl := Option.some.inj hs
    rw [find?_eq_seek] at hfind
    exact ⟨seek_mem hfind, seek_key hfind, rfl⟩
  | none =>
    rw [hfind] at h
    dsimp only [ask] at h
    split at h
    · cases h
    · split at h
      next => cases h
      next heq _ _ _ heq' =>
        obtain ⟨rfl, hs⟩ := Prod.mk.inj h
        obtain rfl := Option.some.inj hs
        obtain ⟨rfl, -⟩ := Prod.mk.inj heq'
        obtain ⟨rfl, -⟩ := Prod.mk.inj heq
        exact ⟨List.mem_append_right _ (List.mem_singleton_self _), rfl, rfl⟩

/-- A measurement that is taken in is added to the series of its instrument and labels, unless the
selector disables the instrument. -/
theorem record_adds {m : Measurement} (hm : m.isAccepted = true) {s : LiveSeries}
    (hs : (a.acquire m.descriptor m.labels).2 = some s) :
    s.key = m.key ∧ s.add m.number a.stamp ∈ (a.record m).series := by
  obtain ⟨hkind, hrange⟩ : m.descriptor.numberKind = m.kind ∧
      m.descriptor.rangeTest m.number = .ok () := by
    simp only [Measurement.isAccepted, Bool.and_eq_true, decide_eq_true_eq] at hm
    refine ⟨hm.1, ?_⟩
    cases hr : m.descriptor.rangeTest m.number with
    | ok _ => rfl
    | error reason => simp [hr, Except.isOk, Except.toBool] at hm
  obtain ⟨b, hb⟩ : ∃ b, a.acquire m.descriptor m.labels = (b, some s) := ⟨_, Prod.ext rfl hs⟩
  obtain ⟨hmem, hkey, hstamp⟩ := acquire_mem hb
  refine ⟨hkey, ?_⟩
  simp only [record, hkind, if_true, update, hrange, hb, Bool.false_eq_true, if_false]
  refine List.mem_map.mpr ⟨s, hmem, ?_⟩
  rw [if_pos (LiveSeries.isFor_iff.mpr rfl), ← hstamp]
  rfl

theorem shipped_recordAll (ms : List Measurement) (a : Accumulator) :
    (ms.foldl record a).shipped = a.shipped := by
  induction ms generalizing a with
  | nil => rfl
  | cons m ms ih => rw [List.foldl_cons, ih, shipped_record]

/-! ## Collections -/

theorem shipped_register (a : Accumulator) (descriptors : List Descriptor)
    (calls : List (List CallbackAction)) :
    (a.register descriptors calls).1.shipped = a.shipped := by
  rw [register]
  split <;> rfl

theorem shipped_cancel (a : Accumulator) (cx : Context) : (a.cancel cx).shipped = a.shipped := by
  rw [cancel]
  split <;> rfl

theorem shipped_perform (cx : Context) (registered : List Descriptor)
    (actions : List CallbackAction) (a : Accumulator) :
    (perform cx registered actions a).1.shipped = a.shipped := by
  induction actions generalizing a with
  | nil => rfl
  | cons action rest ih =>
    cases action with
    | observe d n labels => exact (ih _).trans (shipped_observe ..)
    | record m => exact (ih _).trans (shipped_record ..)
    | register descriptors calls =>
      exact (ih _).trans ((shipped_emit _ rfl).trans (shipped_register ..))
    | cancel => exact (ih _).trans (shipped_cancel ..)
    | note text => exact (ih _).trans (shipped_emit _ rfl)
    | fail error => rfl
    | panic cause => rfl

theorem shipped_callObserver (cx : Context) (i : Nat) (a : Accumulator) :
    (callObserver cx i a).1.shipped = a.shipped := by
  rw [callObserver]
  split
  · rfl
  next o _ =>
    have hperform := shipped_perform cx o.descriptors o.nextActions
      { a with observers := a.observers.set i { o with called := o.called + 1 } }
    dsimp only
    split
    next h => rwa [h] at hperform
    next h =>
      rw [h] at hperform
      exact (shipped_log _ _).trans hperform

theorem shipped_callObservers (cx : Context) (is : List Nat) (a : Accumulator) :
    (callObservers cx is a).1.shipped = a.shipped := by
  induction is generalizing a with
  | nil => rfl
  | cons i is ih =>
    rw [callObservers]
    split
    · rfl
    · exact (ih _).trans (shipped_callObserver cx i a)

section
variable {σ : Type} (step : ProcessorStep σ)

theorem shipped_checkpointSeries (s : LiveSeries) (p : σ) (a : Accumulator) :
    (checkpointSeries step s p a).1.shipped = a.shipped := by
  rw [checkpointSeries]
  split
  · exact shipped_report _ _
  next current checkpoint _ =>
    dsimp only
    have hrecords := shipped_recordAll
      (step p ⟨⟨s.descriptor, s.labels, a.resource⟩, checkpoint⟩).2.records
      (a.store { s with current, checkpoint })
    split
    · exact hrecords
    · exact (shipped_report _ _).trans hrecords
    · exact hrecords

theorem shipped_checkpointAll (found : List LiveSeries) (p : σ) (a : Accumulator) :
    (checkpointAll step found p a).1.shipped = a.shipped := by
  induction found generalizing p a with
  | nil => rfl
  | cons f found ih =>
    have hone := shipped_checkpointSeries step
      ((a.find? f.descriptor f.labels).getD f) p a
    rw [checkpointAll]
    dsimp only
    split
    next h => rwa [h] at hone
    next h =>
      rw [h] at hone
      exact (ih _ _).trans hone

theorem shipped_evictIdle (a : Accumulator) : a.evictIdle.shipped = a.shipped := by
  have hlog : ∀ (evicted : List LiveSeries) (b : Accumulator),
      (evicted.foldl (fun a s => a.log (.seriesEvicted s.descriptor.name)) b).shipped =
        b.shipped := by
    intro evicted
    induction evicted with
    | nil => exact fun _ => rfl
    | cons s evicted ih => exact fun b => (ih _).trans (shipped_log _ _)
  exact hlog _ _

theorem shipped_sweep (p : σ) (a : Accumulator) : (sweep step p a).1.shipped = a.shipped := by
  have hall := shipped_checkpointAll step (a.series.filter (·.isPending)) p a.ageIdle
  rw [sweep]
  split
  next h => rwa [h] at hall
  next h =>
    rw [h] at hall
    exact (shipped_evictIdle _).trans hall

theorem shipped_collect (cx : Context) (p : σ) (a : Accumulator) :
    (collect cx step p a).1.shipped = a.shipped := by
  have hcalled := shipped_callObservers cx (List.range a.observers.length) a
  have hswept := (shipped_sweep step p _).trans hcalled
  obtain ⟨hc, -⟩ | ⟨hc, -⟩ | ⟨-, -, -, ⟨n, errors, -, -, hc⟩ | ⟨cause, -, hc⟩⟩ :=
    collect_cases cx step p a
  · rw [hc]
  · rw [hc]
    exact hcalled
  · rw [hc]
    exact hswept
  · rw [hc]
    exact hswept

end

end Accumulator
end Metering
