import Metering.Resource.Basic
import Metering.Text.Blank

/-!
# Resources from the environment

Detectors find out what produces the measurements: from a list of attributes in an environment
variable, from the name of the service, and from what is known of this library. Several
detectors are merged in order, so that later ones win.
-/

namespace Metering

/-- The environment variables that are taken into account; `none` stands for a variable that is
not set or not text. -/
structure Environment where
  resourceAttributes : Option String := none
  serviceName : Option String := none
  exportInterval : Option String := none
  exportTimeout : Option String := none
  deriving Inhabited

def serviceNameKey : Key := "service.name"

namespace Environment

/-- The environment in which variables have the given texts. -/
def read (get : String → Option String) : Environment where
  resourceAttributes := get "OTEL_RESOURCE_ATTRIBUTES"
  serviceName := get "OTEL_SERVICE_NAME"
  exportInterval := get "OTEL_METRIC_EXPORT_INTERVAL"
  exportTimeout := get "OTEL_METRIC_EXPORT_TIMEOUT"

/-- The attribute that an entry gives: a key that is not blank, the first equals sign and a
value, blanks around either of them not counting. -/
def attribute? (entry : List Char) : Option KeyValue :=
  let key := Text.trimList (entry.takeWhile (· ≠ '='))
  match entry.dropWhile (· ≠ '=') with
  | [] => none
  | _ :: value =>
    if key = [] then none
    else some ⟨String.ofList key, .string (String.ofList (Text.trimList value))⟩

/-- The attributes of a list separated by commas, in which other entries do not count. -/
def attributes (raw : String) : List KeyValue :=
  (Text.splitList ',' raw.toList).filterMap attribute?

end Environment

/-- A source of resource attributes. -/
inductive Detector where
  /-- the attributes listed in the environment -/
  | environment
  /-- the name of the service -/
  | service
  /-- this library -/
  | library
  /-- given attributes -/
  | fixed (resource : Resource)

namespace Detector

def listed (env : Environment) : Resource :=
  .ofList ((env.resourceAttributes.map Environment.attributes).getD [])

/-- The name of the service: a variable of its own that is not empty, or the name among the listed
attributes, or a name for services of unknown name. -/
def serviceName (env : Environment) : Value :=
  match env.serviceName.filter (· ≠ "") with
  | some name => .string name
  | none => ((listed env).get? serviceNameKey).getD (.string "unknown_service")

def detect (env : Environment) : Detector → Resource
  | environment => listed env
  | service => .ofList [⟨serviceNameKey, serviceName env⟩]
  | library =>
    .ofList
      [⟨"telemetry.sdk.name", .string "telemetry_sdk"⟩,
        ⟨"telemetry.sdk.language", .string "rust"⟩,
        ⟨"telemetry.sdk.version", .string "0.1.0"⟩]
  | fixed resource => resource

end Detector

namespace Resource

/-- What a list of detectors finds, later ones winning. -/
def ofDetectors (env : Environment) (detectors : List Detector) : Resource :=
  detectors.foldl (fun r d => r.merge (d.detect env)) .empty

/-- The resource that stands where none is given. -/
def ofEnvironment (env : Environment) : Resource :=
  ofDetectors env [.library, .environment, .service]

end Resource
end Metering
