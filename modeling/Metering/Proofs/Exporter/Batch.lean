import Mathlib.Data.List.Forall2
import Metering.Exporter.Text
import Metering.Proofs.Attribute.Display
import Metering.Proofs.Attribute.Lookup
import Metering.Proofs.Processor.Entries
import Metering.Proofs.Text.OneLine

/-!
# A batch is written whole or not at all

A record can be shown unless it holds a last value that was never set. One such record, wherever
it stands, keeps the text exporter from writing anything; without one every record has its line.
The line gives the name and the values of the record, and the labels in the name are found by
looking first at the record's labels, then at the exporter's resource, then at the record's own.
-/

namespace Metering

open Text (OneLine)

/-- Whether a record holds a last value that was never set. -/
def Record.IsUnset (r : Record) : Prop := r.aggregator = .lastValue none

instance : DecidablePred Record.IsUnset := fun r =>
  inferInstanceAs (Decidable (r.aggregator = .lastValue none))

/-- Whether a writer takes every text and flushes it. -/
def Writer.Succeeds (w : Writer) : Prop := w.reply = .accepted ∧ w.flushFailure = none

namespace ExportLine

variable {encoder : LabelEncoder} {timestamps : Bool} {resource : Resource} {r : Record}
  {records : List Record} {line : ExportLine}

/-! ## The name of a line -/

theorem get?_labels (r : Record) (resource : Resource) (key : Key) :
    (labels r resource).get? key =
      (r.series.labels.get? key).or ((resource.get? key).or (r.series.resource.get? key)) := by
  have hmerged := Resource.get?_merge r.series.resource resource key
  rw [Resource.get?, LabelSet.get?_eq_lastValue?] at hmerged
  rw [labels, LabelSet.get?_ofList, lastValue?_mergeAttributes r.series.labels.ordered
    (r.series.resource.merge resource).attributes.ordered, hmerged, LabelSet.get?_eq_lastValue?]

theorem nameOf_display (r : Record) (resource : Resource) :
    nameOf Display.encode r resource =
      if (labels r resource).isEmpty then r.series.descriptor.name
      else r.series.descriptor.name ++ "\x7b" ++ Display.encode (labels r resource).entries ++
        "\x7d" := by
  rw [nameOf, LabelSet.encodedWith]
  split
  next hempty => rfl
  next hempty =>
    have hshown : (Display.encode (labels r resource).entries).isEmpty = false := by
      rw [String.isEmpty_eq_false_iff, Ne, Display.encode_eq_empty_iff]
      simpa [LabelSet.isEmpty] using hempty
    simp only [hshown]
    rfl

/-! ## The line of a record -/

theorem ofRecord_of_isUnset (h : r.IsUnset) :
    ofRecord encoder timestamps resource r = .error .noDataCollected := by
  rw [ofRecord, show r.aggregator = .lastValue none from h]
  rfl

theorem exists_ofRecord (h : ¬r.IsUnset) :
    ∃ line, ofRecord encoder timestamps resource r = .ok line := by
  have hreading : ∃ last, (r.aggregator.reading?.elim (.ok none) fun x => x.map some) =
      (.ok last : Except MetricsError (Option Reading)) := by
    cases ha : r.aggregator with
    | lastValue last =>
      cases last with
      | none => exact absurd ha h
      | some last => exact ⟨some last, rfl⟩
    | _ => exact ⟨none, rfl⟩
  obtain ⟨last, hlast⟩ := hreading
  rw [ofRecord, hlast]
  exact ⟨_, rfl⟩

theorem oneLine_inspect (hsum : ∀ s ∈ line.sum, OneLine s) (hmin : ∀ s ∈ line.min, OneLine s)
    (hmax : ∀ s ∈ line.max, OneLine s) (hlast : ∀ s ∈ line.lastValue, OneLine s) :
    OneLine line.inspect := by
  have hcount : OneLine (Text.optional (line.count.map Numeral.ofNat)) :=
    OneLine.optional (by simp)
  have hbuckets : OneLine
      (Text.optional (line.buckets.map fun cs => Text.listing (cs.map Numeral.ofNat))) := by
    refine OneLine.optional fun s hs => ?_
    obtain ⟨cs, -, rfl⟩ := Option.mem_map.mp hs
    exact OneLine.listing (by simp)
  have htime : OneLine (Text.optional (line.time.map (Time.inspect "SystemTime"))) := by
    refine OneLine.optional fun s hs => ?_
    obtain ⟨t, -, rfl⟩ := Option.mem_map.mp hs
    exact Time.oneLine_inspect (by decide) t
  refine OneLine.record (by decide) ?_
  rw [valueTexts]
  simp only [List.forall_mem_append, List.forall_mem_cons]
  have hnil : ∀ f ∈ ([] : List (String × String)), OneLine f.1 ∧ OneLine f.2 := by simp
  exact ⟨⟨⟨⟨by decide, Text.oneLine_quoted line.name⟩, hnil⟩,
    ⟨by decide, OneLine.optional hsum⟩, ⟨by decide, hcount⟩, ⟨by decide, OneLine.optional hmin⟩,
    ⟨by decide, OneLine.optional hmax⟩, ⟨by decide, hbuckets⟩, ⟨by decide, OneLine.optional hlast⟩,
    hnil⟩, ⟨by decide, htime⟩, hnil⟩

theorem oneLine_of_ofRecord (h : ofRecord encoder timestamps resource r = .ok line) :
    OneLine line.inspect := by
  obtain ⟨last, -, hline⟩ := Processor.bind_eq_ok h
  obtain rfl := Except.ok.inj hline
  refine oneLine_inspect ?_ ?_ ?_ ?_
  all_goals
    intro s hs
    obtain ⟨x, -, rfl⟩ := Option.mem_map.mp hs
    exact Number.oneLine_inspect _ _

/-! ## The lines of a batch -/

theorem mapM_of_isUnset (h : ∃ r ∈ records, r.IsUnset) :
    records.mapM (ofRecord encoder timestamps resource) = .error .noDataCollected := by
  induction records with
  | nil => simp at h
  | cons r rs ih =>
    rw [List.mapM_cons]
    by_cases hr : r.IsUnset
    · rw [ofRecord_of_isUnset hr]
      rfl
    · obtain ⟨line, hline⟩ := exists_ofRecord hr
      have hrs : ∃ r ∈ rs, r.IsUnset := by
        obtain ⟨r', hmem, hr'⟩ := h
        rcases List.mem_cons.mp hmem with rfl | hmem
        · exact absurd hr' hr
        · exact ⟨r', hmem, hr'⟩
      rw [hline, ih hrs]
      rfl

theorem mapM_of_not_isUnset (encoder : LabelEncoder) (timestamps : Bool) (resource : Resource)
    (h : ∀ r ∈ records, ¬r.IsUnset) :
    ∃ lines, records.mapM (ofRecord encoder timestamps resource) = .ok lines ∧
      List.Forall₂ (fun r line => ofRecord encoder timestamps resource r = .ok line) records
        lines := by
  induction records with
  | nil => exact ⟨[], rfl, .nil⟩
  | cons r rs ih =>
    obtain ⟨hr, hrs⟩ := List.forall_mem_cons.mp h
    obtain ⟨line, hline⟩ := exists_ofRecord hr
    obtain ⟨lines, hlines, hall⟩ := ih hrs
    refine ⟨line :: lines, ?_, .cons hline hall⟩
    rw [List.mapM_cons, hline, hlines]
    rfl

/-! ## The text of a line -/

/-- What is known of a record's measurements, field by field, by the kind of its aggregator. -/
def known (timestamps : Bool) (r : Record) : List (String × String) :=
  let text (n : Number) : String := n.inspect r.series.descriptor.numberKind
  match r.aggregator with
  | .sum total => [("sum", text total)]
  | .lastValue none => []
  | .lastValue (some last) =>
    ("last_value", text last.value) ::
      if timestamps then [("timestamp", last.stamp.time.inspect "SystemTime")] else []
  | .minMaxSumCount kind none => [("sum", text kind.zero), ("count", Numeral.ofNat 0)]
  | .minMaxSumCount _ (some e) =>
    [("sum", text e.sum), ("count", Numeral.ofNat e.count), ("min", text e.min),
      ("max", text e.max)]
  | .histogram _ _ s =>
    [("sum", text s.sum), ("count", Numeral.ofNat s.count),
      ("buckets", Text.listing (s.buckets.map Numeral.ofNat))]

/-- The text of a line: the name in quotes, and every value that is known of the record. -/
def textOf (timestamps : Bool) (name : String) (r : Record) : String :=
  let values := ["sum", "count", "min", "max", "buckets", "last_value", "timestamp"]
  Text.record "ExportLine" <| ("name", Text.quoted name) ::
    values.map fun field => (field, Text.optional ((known timestamps r).lookup field))

theorem inspect_of_ofRecord (h : ofRecord encoder timestamps resource r = .ok line) :
    line.inspect = textOf timestamps (nameOf encoder r resource) r := by
  obtain ⟨last, hlast, hline⟩ := Processor.bind_eq_ok h
  obtain rfl := Except.ok.inj hline
  refine congrArg (Text.record "ExportLine" <| ("name", Text.quoted _) :: ·) ?_
  cases ha : r.aggregator with
  | lastValue last? =>
    cases last? with
    | none => simp [ha, Aggregator.reading?, Except.map] at hlast
    | some x =>
      obtain rfl : some x = last := by simpa [ha, Aggregator.reading?, Except.map] using hlast
      cases timestamps <;> simp [valueTexts, known, ha, List.lookup, Aggregator.sum?,
        Aggregator.count?, Aggregator.extremes?, Aggregator.buckets?]
  | minMaxSumCount kind state =>
    obtain rfl : none = last := by simpa [ha, Aggregator.reading?] using hlast
    cases state <;> simp [valueTexts, known, ha, List.lookup, Aggregator.sum?, Aggregator.count?,
      Aggregator.extremes?, Aggregator.buckets?, Except.toOption]
  | _ =>
    obtain rfl : none = last := by simpa [ha, Aggregator.reading?] using hlast
    simp [valueTexts, known, ha, List.lookup, Aggregator.sum?, Aggregator.count?,
      Aggregator.extremes?, Aggregator.buckets?]

/-- Whether a text shows a record on one line: the record's values, under a name that carries all
labels there are, each with the value of the first of the record's labels, the exporter's resource
and the record's resource that has its key. -/
structure Shows (timestamps : Bool) (resource : Resource) (r : Record) (text : String) : Prop where
  eq : ∃ combined : LabelSet,
    (∀ key, combined.get? key =
      (r.series.labels.get? key).or ((resource.get? key).or (r.series.resource.get? key))) ∧
    text = textOf timestamps
      (if combined.isEmpty then r.series.descriptor.name
        else r.series.descriptor.name ++ "\x7b" ++ Display.encode combined.entries ++ "\x7d") r
  oneLine : OneLine text

theorem shows_of_ofRecord (h : ofRecord Display.encode timestamps resource r = .ok line) :
    Shows timestamps resource r line.inspect where
  eq := by
    refine ⟨labels r resource, get?_labels r resource, ?_⟩
    rw [inspect_of_ofRecord h, nameOf_display]
  oneLine := oneLine_of_ofRecord h

end ExportLine

theorem Writer.Succeeds.write {w : Writer} (h : w.Succeeds) (text : String) :
    ∃ written, w.write text = (written, .ok ()) ∧ written.getD "" = text := by
  rw [Writer.write, h.1, h.2]
  simp only
  split
  next hempty => exact ⟨none, rfl, (String.isEmpty_iff.mp hempty).symm⟩
  next => exact ⟨some text, rfl, rfl⟩

namespace TextExporter

variable {e : TextExporter} {resource : Resource} {set : CheckpointSet}

theorem publish_of_format_eq_error {cause : MetricsError}
    (h : e.format resource set = .error cause) :
    e.publish resource set = (e, none, .error (.error cause)) := by
  rw [publish, h]

theorem publish_of_format_eq_ok {text : String} (h : e.format resource set = .ok text)
    (hpoisoned : e.isPoisoned = false) (hwriter : e.writer.Succeeds) :
    ∃ written, e.publish resource set = (e, written, .ok ()) ∧ written.getD "" = text := by
  obtain ⟨written, hwrite, htext⟩ := hwriter.write text
  refine ⟨written, ?_, htext⟩
  simp only [publish, h, hpoisoned, hwrite]
  rfl

/-- A text exporter that displays labels in the default way, and has no formatter of its own,
writes nothing and reports that there is no data if some record holds a last value that was never
set, whatever stands before it. Otherwise, if its writer is sound, it writes exactly one text for
each record, in the order of the records, each on a line of its own. -/
theorem publish_all_or_nothing (hencoder : e.encoder = Display.encode)
    (hformatter : e.formatter = none) (resource : Resource) (set : CheckpointSet) :
    ((∃ r ∈ set.records, r.IsUnset) →
      e.publish resource set = (e, none, .error (.error .noDataCollected))) ∧
    ((∀ r ∈ set.records, ¬r.IsUnset) → e.isPoisoned = false → e.writer.Succeeds →
      ∃ written texts, e.publish resource set = (e, written, .ok ()) ∧
        List.Forall₂ (ExportLine.Shows e.timestamps resource) set.records texts ∧
        written.getD "" = String.join (texts.map (· ++ "\n"))) := by
  refine ⟨fun h => ?_, fun h hpoisoned hwriter => ?_⟩
  · apply publish_of_format_eq_error
    rw [format, ExportLine.mapM_of_isUnset h]
    rfl
  · obtain ⟨lines, hlines, hall⟩ :=
      ExportLine.mapM_of_not_isUnset e.encoder e.timestamps resource h
    have hformat : e.format resource set = .ok (plainLines lines) := by
      rw [format, hlines, hformatter]
      rfl
    obtain ⟨written, hpublish, htext⟩ := publish_of_format_eq_ok hformat hpoisoned hwriter
    refine ⟨written, lines.map (·.inspect), hpublish, ?_, ?_⟩
    · rw [List.forall₂_map_right_iff]
      exact hall.imp fun r line hline => ExportLine.shows_of_ofRecord (hencoder ▸ hline)
    · rw [htext, plainLines, List.map_map]
      rfl

/-- Requests with a path of their own, whose host the exporter's resource knows better, and a level
that was observed or not. -/
theorem publish_all_or_nothing_requests :
    let e : TextExporter := {}
    let resource : Resource := .ofList [⟨"path", .string "x"⟩, ⟨"host", .string "b"⟩]
    let series (name : String) (kind : InstrumentKind) : SeriesId :=
      ⟨{ name, kind, numberKind := .u64 }, .ofList [⟨"path", .string "/a"⟩],
        .ofList [⟨"path", .string "y"⟩, ⟨"host", .string "c"⟩, ⟨"region", .string "d"⟩]⟩
    let requests : Record := ⟨series "requests" .counter, .sum ⟨5⟩, 0, 1⟩
    let level (last : Option Reading) : Record :=
      ⟨series "level" .gaugeObserver, .lastValue last, 0, 1⟩
    let observed := level (some ⟨⟨7⟩, 1500000000, 0⟩)
    e.publish resource ⟨[requests, level none], 0, 1⟩ =
        (e, none, .error (.error .noDataCollected)) ∧
      ∃ (written : Option String) (texts : List String),
        e.publish resource ⟨[requests, observed], 0, 1⟩ = (e, written, .ok ()) ∧
        List.Forall₂ (ExportLine.Shows true resource) [requests, observed] texts ∧
        written.getD "" = String.join (texts.map (· ++ "\n")) ∧
        written = some ("ExportLine \x7b name: \"requests\x7bhost=b,path=/a,region=d\x7d\", " ++
          "sum: Some(5), count: None, min: None, max: None, buckets: None, last_value: None, " ++
          "timestamp: None \x7d\n" ++
          "ExportLine \x7b name: \"level\x7bhost=b,path=/a,region=d\x7d\", " ++
          "sum: None, count: None, min: None, max: None, buckets: None, last_value: Some(7), " ++
          "timestamp: Some(SystemTime \x7b tv_sec: 1, tv_nsec: 500000000 \x7d) \x7d\n") := by
  intro e resource series requests level observed
  have hset : ∀ r ∈ [requests, observed], ¬r.IsUnset := by
    simp [Record.IsUnset, requests, observed, level]
  refine ⟨(publish_all_or_nothing (e := e) rfl rfl resource ⟨[requests, level none], 0, 1⟩).1
    ⟨level none, by simp, rfl⟩, ?_⟩
  obtain ⟨written, texts, hpublish, htexts, htext⟩ :=
    (publish_all_or_nothing (e := e) rfl rfl resource ⟨[requests, observed], 0, 1⟩).2 hset rfl
      ⟨rfl, rfl⟩
  refine ⟨written, texts, hpublish, htexts, htext, ?_⟩
  rw [show written = (e.publish resource ⟨[requests, observed], 0, 1⟩).2.1 by rw [hpublish]]
  decide +kernel

end TextExporter
end Metering
