import AgentFeatures.Catalog.Listing
import AgentFeatures.Composer.Run
import AgentFeatures.Gateway.Ranking
import AgentFeatures.Gateway.Validation
import AgentFeatures.Library.Coroutine

/-! The gateway's handlers for invoking features, capabilities and composites.

A handler runs undisturbed between two awaits: the invoker's call, or a streamed event.
-/

namespace AgentFeatures

open Library

/-- What the handlers of one gateway share: the metrics store and the composite registry. -/
structure AppState where
  store : MetricsStore
  composites : Dict String Composite

/-- The changes a handler makes to the shared state. -/
inductive Write where
  | record (featureId : String) (success : Bool) (latencyMs : Rat)
  | publish (composite : Composite)

def Write.apply : Write → AppState → AppState
  | record featureId success latencyMs, state =>
      { state with store := state.store.record featureId success latencyMs }
  | publish composite, state =>
      { state with composites := state.composites.set composite.name composite }

/-- One call of `invoker.invoke`. -/
structure Dispatch where
  feature : String
  payload : Json
  context : RequestContext

/-- How a dispatch ends: a result, or one of the two declared exceptions. -/
inductive Reply where
  | result (output : Dict String Json) (latencyMs : Rat)
  | inputError (message : String)
  | unavailable (message : String)

/-- The detail of an `HTTPException`. -/
inductive Detail where
  | text (message : String)
  | errors (messages : List String)

/-- How a request fails: an `HTTPException`, or an exception nothing catches. -/
inductive Fault where
  | http (status : Nat) (detail : Detail)
  | uncaught

/-- One streamed event of the chat. -/
inductive ChatEvent where
  | status (text : String)
  | error (message : String)
  | result (feature vendor : String) (output : Dict String Json) (latencyMs : Rat)

/-- A handler of the gateway. -/
abbrev Handler := Coroutine AppState Write ChatEvent Dispatch Reply Fault

/-- What `json` and `str` of the standard library do for the gateway's texts. -/
structure Runtime where
  /-- `json.loads`, `none` where it raises `ValueError`. -/
  loads : String → Option Json
  dumps : Json → String
  str : Json → String

/-- What a gateway is created with. -/
structure Gateway where
  catalog : Catalog
  policy : RankingPolicy
  validator : Validator
  runtime : Runtime

namespace Gateway

/-- `store.record(fid, success=…, latency_ms=…)`. -/
def record (featureId : String) (success : Bool) (latencyMs : Rat := 0) : Handler Unit :=
  .write (.record featureId success latencyMs) (.done ())

/-- `await invoker.invoke(feature, payload, context)`, whatever it ends in. -/
def dispatch (feature : String) (payload : Json) (context : RequestContext)
    : Handler Reply :=
  .call ⟨feature, payload, context⟩ .done

def raiseHttp {α : Type} (status : Nat) (detail : Detail) : Handler α :=
  .raise (.http status detail)

variable (gateway : Gateway)

/-- The features providing a capability under the pins; `none` when a version text raises. -/
def providers (capability : String) (vendor version : Option String)
    : Option (List Feature) :=
  selectProviders gateway.catalog.list capability vendor version

/-- `policy.rank(_providers(…), store)` on the store as it is now. -/
def rankProviders (capability : String) (vendor version : Option String)
    : Handler (List Feature) :=
  match gateway.providers capability vendor version with
  | none => .raise .uncaught
  | some providers =>
      .read fun state =>
        match gateway.policy.rank providers state.store with
        | none => .raise .uncaught
        | some ranked => .done ranked

/-- `collect_errors` with the gateway's validator. -/
def inputErrors (feature : Feature) (payload : Json) : List String :=
  collectErrors gateway.validator payload feature.manifest.inputSchema

-----------------------------------------------------------------------------------------
-- Invoking features and capabilities
-----------------------------------------------------------------------------------------

/-- `_invoke`: validates, dispatches and records the outcome. -/
def invoke (feature : Feature) (body : InvokeRequest) : Handler InvokeResponse := do
  let name := feature.manifest.name
  let fid := featureId feature
  match gateway.inputErrors feature (.ofDict body.input) with
  | error :: errors => raiseHttp 422 (.errors (error :: errors))
  | [] =>
      match ← dispatch name (.ofDict body.input) body.context with
      | .inputError _ => raiseHttp 422 (.text s!"feature '{name}' rejected the input")
      | .unavailable _ =>
          record fid false
          raiseHttp 503 (.text s!"feature '{name}' is currently unavailable")
      | .result output latencyMs =>
          record fid true latencyMs
          return {
            feature := name
            version := feature.manifest.version
            output
            latencyMs
            vendor := feature.manifest.vendor }

/-- `POST /features/{name}/invoke`. -/
def invokeFeature (name : String) (body : InvokeRequest) : Handler InvokeResponse :=
  match gateway.catalog.get name with
  | none => raiseHttp 404 (.text s!"unknown feature: {name}")
  | some feature => gateway.invoke feature body

/-- The text of a missing provider, with the pins that are set. -/
def noProvider (capability : String) (vendor version : Option String) : String :=
  s!"no provider for capability '{capability}'"
    ++ (match given vendor with
        | some vendor => s!" (vendor={vendor})"
        | none => "")
    ++ (match given version with
        | some version => s!" (version={version})"
        | none => "")

/-- `POST /capabilities/{capability}/invoke`: the top-ranked provider under the pins. -/
def invokeCapability (capability : String) (body : InvokeRequest)
    (vendor version : Option String)
    : Handler InvokeResponse := do
  match ← gateway.rankProviders capability vendor version with
  | [] => raiseHttp 404 (.text (noProvider capability vendor version))
  | feature :: _ => gateway.invoke feature body

/-- `_run_capability`: resolves and invokes one capability for a composite. The result is an
output, or a message for the caller.
-/
def runCapability : CapabilityInvoke Handler := fun capability input vendor version => do
  match ← gateway.rankProviders capability vendor version with
  | [] => return (none, some s!"no provider for capability '{capability}'")
  | feature :: _ =>
      let fid := featureId feature
      match gateway.inputErrors feature (.ofDict input) with
      | error :: errors =>
          return (none, some ("invalid input: " ++ String.intercalate "; " (error :: errors)))
      | [] =>
          match ← dispatch feature.manifest.name (.ofDict input) {} with
          | .inputError _ => return (none, some "the feature rejected the input")
          | .unavailable _ =>
              record fid false
              return (none, some "the provider is currently unavailable")
          | .result output latencyMs =>
              record fid true latencyMs
              return (some output, none)

/-- `POST /composites/{name}/invoke`. -/
def invokeComposite (name : String) (body : InvokeRequest) : Handler CompositeResult :=
  .read fun state =>
    match state.composites.get? name with
    | none => raiseHttp 404 (.text s!"unknown composite: {name}")
    | some composite =>
        match collectErrors gateway.validator (.ofDict body.input) composite.inputSchema with
        | error :: errors => raiseHttp 422 (.errors (error :: errors))
        | [] => Composer.run gateway.runCapability composite body.input

/-- The steps of a published composite as its summary lists them. -/
structure CompositeSummary where
  name : String
  capability : String
  description : String
  steps : List (String × String)

def compositeSummary (composite : Composite) : CompositeSummary where
  name := composite.name
  capability := composite.capability
  description := composite.description
  steps := composite.steps.map fun step => (step.name, step.capability)

/-- `POST /compose`: publishes a composite under its name. -/
def compose (spec : Composite) : Handler CompositeSummary :=
  .write (.publish spec) (.done (compositeSummary spec))

end Gateway

end AgentFeatures
