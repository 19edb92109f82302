import AgentFeatures.Gateway.Contracts
import AgentFeatures.Gateway.Failures
import AgentFeatures.Gateway.Registry

/-! The gateway as it starts without a cluster: the sample features, called in the process, and
the composite that greets and reports.
-/

namespace AgentFeatures

open Library
open Samples (Python SampleHandler SampleValue features greet textSchema words sentences)

-----------------------------------------------------------------------------------------
-- Calls in the process
-----------------------------------------------------------------------------------------

namespace LocalInvoker

/-- The output as JSON; a complex number has none. -/
def jsonOutput? (output : Dict String SampleValue) : Option (Dict String Json) :=
  (output.mapM fun value =>
    match value with
    | .json value => Except.ok value
    | .complex _ => .error ()).toOption

/-- `LocalInvoker.invoke`, with the latency it measures. `none` where no reply comes of it: an
exception that is not declared, or an output that is no JSON.
-/
def invoke (handlers : Dict String SampleHandler) (dispatch : Dispatch) (latencyMs : Rat)
    : Option Reply :=
  match handlers.get? dispatch.feature, dispatch.payload with
  | none, _ => some (.unavailable s!"no handler registered for '{dispatch.feature}'")
  | some handler, .obj fields =>
      match handler (Dict.ofList fields) with
      | .ok output => (jsonOutput? output).map fun output => .result output latencyMs
      | .error (.featureInputError message) => some (.inputError message)
      | .error (.raised _) => none
  | some _, _ => none

/-- The reply is one that the local invoker can give. -/
def Answers (handlers : Dict String SampleHandler) (dispatch : Dispatch) (reply : Reply) : Prop :=
  ∃ latencyMs ≥ 0, invoke handlers dispatch latencyMs = some reply

/-- A handler's output of JSON values comes back as the result. -/
theorem result_of_answers {handlers : Dict String SampleHandler} {handler : SampleHandler}
    {feature : String} {payload output : Dict String Json} {values : Dict String SampleValue}
    {context : RequestContext} {reply : Reply}
    (registered : handlers.get? feature = some handler)
    (computed : handler payload = .ok values) (shown : jsonOutput? values = some output)
    (answered : Answers handlers ⟨feature, .ofDict payload, context⟩ reply)
    : ∃ latencyMs, reply = .result output latencyMs := by
  obtain ⟨latencyMs, -, given⟩ := answered
  have same : Dict.ofList payload.entries = payload := Dict.ext (Dict.entries_ofList payload.nodup)
  simp only [invoke, registered, Json.ofDict, same, computed, shown, Option.map_some,
    Option.some.injEq] at given
  exact ⟨latencyMs, given.symm⟩

end LocalInvoker

-----------------------------------------------------------------------------------------
-- The dev catalog, its handlers and its composite
-----------------------------------------------------------------------------------------

namespace Samples

/-- The manifests that the dev catalog is built from. -/
def manifests (python : Python) : List Manifest := (features python).map Prod.fst

/-- The samples have different names. -/
theorem nodup_names {python : Python}
    : ((manifests python).map Manifest.name).Nodup := by
  change ["calculator", "text_stats", "clock", "greet-acme", "greet-globex"].Nodup
  decide

/-- The handlers of the dev invoker, by feature name. -/
def handlers (python : Python) : Dict String SampleHandler :=
  Dict.ofList ((features python).map fun entry => (entry.1.name, entry.2))

/-- The catalog that `build_dev_catalog_and_invoker` builds. -/
def catalog (python : Python) : PublishedCatalog :=
  InMemoryCatalog.publishedCatalog (manifests python)

/-- The step that calls the best vendor of `greet`. -/
def greetingStep : Step where
  name := "greeting"
  capability := "greet"
  inputs := Dict.ofList [("name", "input.name")]

def statsStep : Step where
  name := "stats"
  capability := "text_stats"
  inputs := Dict.ofList [("text", "greeting.greeting")]

/-- The composite's name is its capability. -/
theorem greetReport_named : "greet-report" = "" → "greet-report" = "" := id

/-- Greets someone, then reports on the greeting. -/
def greetReport : Composite where
  name := "greet-report"
  capability := "greet-report"
  description := "Greet someone, then report stats on the greeting."
  inputSchema := textSchema "name"
  steps := [greetingStep, statsStep]
  output :=
    Dict.ofList
      [("greeting", "greeting.greeting"), ("characters", "stats.characters"),
        ("words", "stats.words")]
  defaultCapability := greetReport_named

/-- `build_dev_composites`. -/
def devComposites : List Composite := [greetReport]

/-- The composites that the gateway is created with, by name. -/
def registry : Dict String Composite :=
  Dict.ofList (devComposites.map fun composite => (composite.name, composite))

/-- The gateway over the dev catalog. -/
def gateway (python : Python) (validator : Validator) (runtime : Runtime)
    (ranking : Option String)
    : Gateway :=
  Gateway.createApp (catalog python) validator runtime ranking

/-- On schemas of one required text the validator is right. -/
def ReadsTexts (validator : Validator) : Prop :=
  ∀ field payload,
    validator.iterErrors (textSchema field) payload = []
    ↔ (Json.ofDict (textSchema field)).accepts payload

/-- An object is valid for a text schema exactly when it has the text. -/
theorem accepts_textSchema_iff {field : String} {payload : Dict String Json}
    : (Json.ofDict (textSchema field)).accepts (Json.ofDict payload)
      ↔ ∃ text, payload.get? field = some (.str text) := by
  refine ⟨text_of_accepts, fun given => ?_⟩
  obtain ⟨text, found⟩ := given
  rw [Dict.get?] at found
  rw [textSchema, Json.ofDict, Dict.entries_ofList nodup_schema]
  simp [Json.ofDict, Json.accepts, Json.acceptsKeywords, Json.acceptsProperties,
    Json.acceptsFields, Json.acceptsType, Json.hasType, Json.acceptsRequired, found]

/-- The gateway finds no errors exactly in objects with the text. -/
theorem collectErrors_textSchema_iff {validator : Validator} (reads : ReadsTexts validator)
    {field : String} {payload : Dict String Json}
    : collectErrors validator (.ofDict payload) (textSchema field) = []
      ↔ ∃ text, payload.get? field = some (.str text) := by
  have filled : (textSchema field).entries.isEmpty = false := by
    rw [textSchema, Dict.entries_ofList nodup_schema]
    rfl
  rw [← accepts_textSchema_iff, ← reads, collectErrors, filled]
  simp only [Bool.false_eq_true, if_false, List.map_eq_nil_iff]
  rw [← List.length_eq_zero_iff, List.length_insertionSort, List.length_eq_zero_iff]

end Samples

end AgentFeatures
