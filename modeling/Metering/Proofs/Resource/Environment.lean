import Metering.Proofs.Attribute.Lookup
import Metering.Proofs.Text.Blank
import Metering.Resource.Environment

/-!
# Attributes in the environment

The variable that lists attributes gives back what was written into it, with whatever blanks and
other entries between. In the resource of the environment the listed attributes win over those of
this library, and the name of the service is settled last.
-/

namespace Metering.Environment

open Text (IsBlankText trimList_append trimList_eq_nil)

/-! ## Listed attributes -/

/-- Keys that an entry can give. -/
structure IsKey (key : String) : Prop where
  ne_empty : key ≠ ""
  comma : ',' ∉ key.toList
  equals : '=' ∉ key.toList
  trimmed : Text.trim key = key

instance (key : String) : Decidable (IsKey key) :=
  decidable_of_iff (key ≠ "" ∧ ',' ∉ key.toList ∧ '=' ∉ key.toList ∧ Text.trim key = key)
    ⟨fun ⟨h₁, h₂, h₃, h₄⟩ => ⟨h₁, h₂, h₃, h₄⟩, fun ⟨h₁, h₂, h₃, h₄⟩ => ⟨h₁, h₂, h₃, h₄⟩⟩

/-- Values that an entry can give. -/
structure IsValue (value : String) : Prop where
  comma : ',' ∉ value.toList
  trimmed : Text.trim value = value

instance (value : String) : Decidable (IsValue value) :=
  decidable_of_iff (',' ∉ value.toList ∧ Text.trim value = value)
    ⟨fun ⟨h₁, h₂⟩ => ⟨h₁, h₂⟩, fun ⟨h₁, h₂⟩ => ⟨h₁, h₂⟩⟩

/-- Entries that give a list of attributes, in its order: each attribute with blanks around its
key and its value, and between them entries without an equals sign or without a key. -/
inductive Lists : List (String × String) → List String → Prop
  | nil : Lists [] []
  | pair {listed : List (String × String)} {entries : List String}
    (h : Lists listed entries) {key value : String} (hkey : IsKey key) (hvalue : IsValue value)
    (b₁ b₂ b₃ b₄ : String) (hblank : ∀ b ∈ [b₁, b₂, b₃, b₄], IsBlankText b.toList) :
    Lists ((key, value) :: listed) ((b₁ ++ key ++ b₂ ++ "=" ++ b₃ ++ value ++ b₄) :: entries)
  | flag {listed : List (String × String)} {entries : List String} (h : Lists listed entries)
    (text : String) (hcomma : ',' ∉ text.toList) (hequals : '=' ∉ text.toList) :
    Lists listed (text :: entries)
  | nameless {listed : List (String × String)} {entries : List String} (h : Lists listed entries)
    (blank text : String) (hblank : IsBlankText blank.toList) (hcomma : ',' ∉ text.toList) :
    Lists listed ((blank ++ "=" ++ text) :: entries)

/-- The attributes of a list of texts under keys. -/
def textual (listed : List (String × String)) : List KeyValue :=
  listed.map fun (key, value) => ⟨key, .string value⟩

theorem attribute?_eq_none {cs : List Char} (h : '=' ∉ cs) : attribute? cs = none := by
  have hnil : cs.dropWhile (· ≠ '=') = [] := by
    apply List.dropWhile_eq_nil_iff.mpr
    intro c hc
    simpa using ne_of_mem_of_not_mem hc h
  rw [attribute?, hnil]

theorem attribute?_append {key : List Char} (h : '=' ∉ key) (value : List Char) :
    attribute? (key ++ '=' :: value) =
      if Text.trimList key = [] then none
      else some ⟨String.ofList (Text.trimList key),
        .string (String.ofList (Text.trimList value))⟩ := by
  have hkey : ∀ c ∈ key, decide (c ≠ '=') = true := by
    intro c hc
    simpa using ne_of_mem_of_not_mem hc h
  rw [attribute?, List.takeWhile_append_of_pos hkey, List.dropWhile_append_of_pos hkey]
  simp

theorem attribute?_pair {key value : String} (hkey : IsKey key) (hvalue : IsValue value)
    {b₁ b₂ b₃ b₄ : String} (hblank : ∀ b ∈ [b₁, b₂, b₃, b₄], IsBlankText b.toList) :
    attribute? (b₁ ++ key ++ b₂ ++ "=" ++ b₃ ++ value ++ b₄).toList =
      some ⟨key, .string value⟩ := by
  simp only [List.forall_mem_cons] at hblank
  obtain ⟨h₁, h₂, h₃, h₄, -⟩ := hblank
  have htext : (b₁ ++ key ++ b₂ ++ "=" ++ b₃ ++ value ++ b₄).toList =
      (b₁.toList ++ key.toList ++ b₂.toList) ++
        '=' :: (b₃.toList ++ value.toList ++ b₄.toList) := by
    simp [String.toList_append]
  have hequals : '=' ∉ b₁.toList ++ key.toList ++ b₂.toList := by
    simp [h₁.notMem, h₂.notMem, hkey.equals, Text.isBlank]
  have htrimmed : String.ofList (Text.trimList key.toList) = key := hkey.trimmed
  have hne : Text.trimList key.toList ≠ [] := by
    intro hnil
    rw [hnil] at htrimmed
    exact hkey.ne_empty htrimmed.symm
  have hvalue : String.ofList (Text.trimList value.toList) = value := hvalue.trimmed
  rw [htext, attribute?_append hequals, trimList_append h₁ h₂, trimList_append h₃ h₄, if_neg hne,
    htrimmed, hvalue]

theorem attribute?_nameless {blank : String} (hblank : IsBlankText blank.toList) (text : String) :
    attribute? (blank ++ "=" ++ text).toList = none := by
  have htext : (blank ++ "=" ++ text).toList = blank.toList ++ '=' :: text.toList := by
    simp [String.toList_append]
  rw [htext, attribute?_append (hblank.notMem (by decide)), if_pos (trimList_eq_nil hblank)]

variable {listed : List (String × String)} {entries : List String}

theorem Lists.comma (h : Lists listed entries) : ∀ entry ∈ entries, ',' ∉ entry.toList := by
  induction h with
  | nil => simp
  | pair _ hkey hvalue b₁ b₂ b₃ b₄ hblank ih =>
    simp only [List.forall_mem_cons] at hblank
    obtain ⟨h₁, h₂, h₃, h₄, -⟩ := hblank
    refine List.forall_mem_cons.mpr ⟨?_, ih⟩
    simp [String.toList_append, h₁.notMem, h₂.notMem, h₃.notMem, h₄.notMem, hkey.comma,
      hvalue.comma, Text.isBlank]
  | flag _ text hcomma _ ih => exact List.forall_mem_cons.mpr ⟨hcomma, ih⟩
  | nameless _ blank text hblank hcomma ih =>
    refine List.forall_mem_cons.mpr ⟨?_, ih⟩
    simp [String.toList_append, hblank.notMem, hcomma, Text.isBlank]

theorem Lists.filterMap_attribute? (h : Lists listed entries) :
    (entries.map String.toList).filterMap attribute? = textual listed := by
  induction h with
  | nil => rfl
  | pair _ hkey hvalue b₁ b₂ b₃ b₄ hblank ih =>
    rw [List.map_cons, List.filterMap_cons_some (attribute?_pair hkey hvalue hblank), ih]
    rfl
  | flag _ text _ hequals ih =>
    rw [List.map_cons, List.filterMap_cons_none (attribute?_eq_none hequals), ih]
  | nameless _ blank text hblank _ ih =>
    rw [List.map_cons, List.filterMap_cons_none (attribute?_nameless hblank text), ih]

/-- The entries are found again in their joined text, which holds one empty entry if there are
none. -/
theorem Lists.attributes (h : Lists listed entries) :
    attributes (",".intercalate entries) = textual listed := by
  cases entries with
  | nil =>
    rw [← h.filterMap_attribute?]
    rfl
  | cons entry entries =>
    have hcomma : ∀ cs ∈ (entry :: entries).map String.toList, ',' ∉ cs := by
      intro cs hcs
      obtain ⟨text, htext, rfl⟩ := List.mem_map.mp hcs
      exact h.comma text htext
    rw [Environment.attributes, String.toList_intercalate, Text.splitList_eq_splitOn]
    have hsplit := List.splitOn_intercalate ',' hcomma (by simp)
    rw [← h.filterMap_attribute?]
    exact congrArg (List.filterMap attribute?) hsplit

/-! ## The resource of the environment -/

theorem get?_ofEnvironment (env : Environment) (key : Key) :
    (Resource.ofEnvironment env).get? key =
      ((Detector.service.detect env).get? key).or
        (((Detector.environment.detect env).get? key).or
          ((Detector.library.detect env).get? key)) := by
  simp only [Resource.ofEnvironment, Resource.ofDetectors, List.foldl_cons, List.foldl_nil,
    Resource.get?_merge, Resource.get?_empty, Option.or_none]

theorem get?_service (env : Environment) (key : Key) :
    (Detector.service.detect env).get? key =
      if serviceNameKey = key then some (Detector.serviceName env) else none := by
  rw [Detector.detect, Resource.get?_ofList]
  simp [lastValue?]

/-- A variable that lists attributes gives back those it lists, and no other entries count. In the
resource of the environment the service has the name in the variable of its own if that is not
empty, or else the last one listed, or else a name for unknown services; any other key has the last
value listed, or else what is known of this library. -/
theorem listed_attributes_round_trip (h : Lists listed entries) {get : String → Option String}
    (hget : get "OTEL_RESOURCE_ATTRIBUTES" = some (",".intercalate entries)) :
    let env := Environment.read get
    let given := textual listed
    Detector.environment.detect env = .ofList given ∧
      (∀ name, get "OTEL_SERVICE_NAME" = some name → name ≠ "" →
        (Resource.ofEnvironment env).get? "service.name" = some (.string name)) ∧
      (get "OTEL_SERVICE_NAME" = none ∨ get "OTEL_SERVICE_NAME" = some "" →
        (Resource.ofEnvironment env).get? "service.name" =
          some ((lastValue? given "service.name").getD (.string "unknown_service"))) ∧
      ∀ key ≠ "service.name", (Resource.ofEnvironment env).get? key =
        (lastValue? given key).or ((Detector.library.detect env).get? key) := by
  intro env given
  have hvariable : env.resourceAttributes = some (",".intercalate entries) := hget
  have hlisted : Detector.listed env = .ofList given := by
    rw [Detector.listed, hvariable, Option.map_some, Option.getD_some, h.attributes]
  have hservice : (Resource.ofEnvironment env).get? serviceNameKey =
      some (Detector.serviceName env) := by
    rw [get?_ofEnvironment, get?_service, if_pos rfl, Option.some_or]
  refine ⟨hlisted, fun name hname hne => ?_, fun hname => ?_, fun key hkey => ?_⟩
  · have hfilter : env.serviceName.filter (· ≠ "") = some name := by
      rw [show env.serviceName = some name from hname, Option.filter_some_pos (by simpa using hne)]
    refine hservice.trans (congrArg some ?_)
    rw [Detector.serviceName, hfilter]
  · have hfilter : env.serviceName.filter (· ≠ "") = none := by
      rcases hname with hname | hname
      · rw [show env.serviceName = none from hname, Option.filter_none]
      · rw [show env.serviceName = some "" from hname]
        rfl
    refine hservice.trans (congrArg some ?_)
    rw [Detector.serviceName, hfilter, hlisted, Resource.get?_ofList]
    rfl
  · have hother : ¬serviceNameKey = key := fun heq => hkey heq.symm
    rw [get?_ofEnvironment, get?_service, if_neg hother, Option.none_or, Detector.detect, hlisted,
      Resource.get?_ofList]

/-- Two tiers are listed, of which the second counts, and between the attributes a flag and an entry
without a key. The service is named by a variable of its own, or by none. -/
theorem listed_attributes_of_host :
    let listed := [("host", "web-3"), ("tier", "a"), ("token", "YWJj=="), ("tier", "b")]
    let entries := [" host = web-3 ", "tier=a", "flag", "token=YWJj==", "\t=orphan=1", "tier=b"]
    let get (name : Option String) : String → Option String := fun key =>
      if key = "OTEL_RESOURCE_ATTRIBUTES" then some (",".intercalate entries)
      else if key = "OTEL_SERVICE_NAME" then name
      else none
    let found (name : Option String) : Resource := .ofEnvironment (.read (get name))
    Lists listed entries ∧
      Detector.environment.detect (.read (get none)) = .ofList (textual listed) ∧
      (found (some "checkout")).get? "service.name" = some (.string "checkout") ∧
      (found (some "")).get? "service.name" = some (.string "unknown_service") ∧
      (found none).get? "tier" = some (.string "b") ∧
      (found none).get? "telemetry.sdk.language" = some (.string "rust") := by
  intro listed entries get found
  have htier : Lists [("tier", "b")] ["tier=b"] :=
    Lists.nil.pair (by decide) (by decide) "" "" "" "" (by decide)
  have htoken : Lists (("token", "YWJj==") :: _) ("token=YWJj==" :: _) :=
    (htier.nameless "\t" "orphan=1" (by decide) (by decide)).pair (by decide) (by decide)
      "" "" "" "" (by decide)
  have hflag : Lists (("tier", "a") :: _) ("tier=a" :: _) :=
    (htoken.flag "flag" (by decide) (by decide)).pair (by decide) (by decide)
      "" "" "" "" (by decide)
  have hlists : Lists listed entries :=
    hflag.pair (by decide) (by decide) " " " " " " " " (by decide)
  have hget (name : Option String) :
      get name "OTEL_RESOURCE_ATTRIBUTES" = some (",".intercalate entries) := rfl
  obtain ⟨hdetected, -, -, hother⟩ := listed_attributes_round_trip hlists (hget none)
  obtain ⟨-, hnamed, -, -⟩ := listed_attributes_round_trip hlists (hget (some "checkout"))
  obtain ⟨-, -, hunnamed, -⟩ := listed_attributes_round_trip hlists (hget (some ""))
  refine ⟨hlists, hdetected, hnamed _ rfl (by decide), hunnamed (.inr rfl), ?_, ?_⟩
  · exact hother "tier" (by decide)
  · refine (hother "telemetry.sdk.language" (by decide)).trans ?_
    rw [Detector.detect, Resource.get?_ofList]
    rfl

end Metering.Environment
