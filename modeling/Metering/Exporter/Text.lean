import Metering.Exporter.Line

/-!
# The text exporter

Writes a checkpoint set as one batch of lines. Nothing is written unless all records can be
shown and the batch can be formatted; the text is then written at once and flushed.
-/

namespace Metering

inductive WriteReply where
  | accepted
  /-- takes nothing of the text -/
  | refused
  | failed (text : String)
  | panicked (cause : Panic)

structure Writer where
  reply : WriteReply := .accepted
  /-- the failure of every flush, if flushing fails -/
  flushFailure : Option String := none

namespace Writer

/-- Writes a text and flushes: what was accepted, and how it ended. An empty text needs no
writing. -/
def write (w : Writer) (text : String) : Option String × Except Halt Unit :=
  let failed (text : String) : Except Halt Unit := .error (.error (.other (.described text)))
  let flush : Except Halt Unit :=
    match w.flushFailure with
    | none => .ok ()
    | some text => failed text
  if text.isEmpty then (none, flush)
  else
    match w.reply with
    | .accepted => (some text, flush)
    | .refused => (none, .error (.error (.other .shortWrite)))
    | .failed text => (none, failed text)
    | .panicked cause => (none, .error (.panic cause))

end Writer

/-- How a batch of lines becomes a text. -/
abbrev Formatter := List ExportLine → Except MetricsError String

/-- The inspection text of every line on a line of its own. -/
def plainLines (lines : List ExportLine) : String :=
  String.join (lines.map fun l => l.inspect ++ "\n")

/-- A text exporter: its settings, and whether a panic left its writer unusable. -/
structure TextExporter where
  writer : Writer := {}
  isPoisoned : Bool := false
  timestamps : Bool := true
  encoder : LabelEncoder := Display.encode
  encoderName : String := "DefaultLabelEncoder"
  formatter : Option Formatter := none

namespace TextExporter

def format (e : TextExporter) (resource : Resource) (set : CheckpointSet) :
    Except MetricsError String := do
  let lines ← set.records.mapM (ExportLine.ofRecord e.encoder e.timestamps resource)
  match e.formatter with
  | some f => f lines
  | none => return plainLines lines

/-- Publishes a checkpoint set: the exporter afterwards, what was written, and how it ended. -/
def publish (e : TextExporter) (resource : Resource) (set : CheckpointSet) :
    TextExporter × Option String × Except Halt Unit :=
  match e.format resource set with
  | .error cause => (e, none, .error (.error cause))
  | .ok text =>
    if e.isPoisoned then (e, none, .error (.error .poisoned))
    else
      match e.writer.write text with
      | (written, .error (.panic cause)) =>
        ({ e with isPoisoned := true }, written, .error (.panic cause))
      | (written, result) => (e, written, result)

def inspect (e : TextExporter) : String :=
  Text.record "StdoutExporter"
    [("writer", Text.recordAbridged "Mutex"
        [("data", "Writer"), ("poisoned", Text.truth e.isPoisoned)]),
      ("timestamps", Text.truth e.timestamps), ("label_encoder", e.encoderName),
      ("formatter", Text.optional (e.formatter.map fun _ => "Formatter(closure)"))]

end TextExporter
end Metering
