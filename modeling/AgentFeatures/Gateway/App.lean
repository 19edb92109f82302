import AgentFeatures.AgentDsl.Codegen
import AgentFeatures.Catalog.Capabilities
import AgentFeatures.Catalog.Discovery
import AgentFeatures.Gateway.Preferred
import AgentFeatures.Library.FloatRange

/-! All JSON routes of the gateway: discovery, ranking, registry, compiler and invocation. -/

namespace AgentFeatures

open Library

/-- A provider's live ranking score and the metrics behind it. -/
structure ProviderScore where
  featureId : String
  vendor : String
  version : String
  score : Rat
  invocations : Nat := 0
  successRate : Option Rat := none
  avgLatencyMs : Option Rat := none

/-- `round(value, digits)`. -/
def roundTo (digits : Nat) (value : Rat) : Rat :=
  FloatRange.roundHalfEven (value * 10 ^ digits) / 10 ^ digits

/-- What `POST /agents/compile` returns. -/
structure Compiled where
  ok : Bool
  errors : List String := []
  published : Bool := false
  agent : Option Gateway.CompositeSummary := none
  composite : Option Composite := none
  code : Dict String Text := ∅

/-- The requests to the gateway's JSON routes. -/
inductive AppRequest where
  | listFeatures (tag q : Option String)
  | getFeature (name : String)
  | listCapabilities
  | getCapability (capability : String)
  | capabilityRanking (capability : String)
  | listComposites
  | getComposite (name : String)
  | compileAgent (body : Json)
  | handled (request : Request)

inductive AppResponse where
  | features (features : List Feature)
  | feature (feature : Feature)
  | capabilities (summaries : List CapabilitySummary)
  | scores (rows : List ProviderScore)
  | composites (summaries : List Gateway.CompositeSummary)
  | composite (composite : Composite)
  | compiled (result : Compiled)
  | handled (response : Response)

/-- What an app is created with. -/
structure App where
  catalog : PublishedCatalog
  policy : RankingPolicy
  validator : Validator
  runtime : Runtime
  /-- `str.lower`. -/
  lower : String → String
  text : AgentDsl.TextFunctions

namespace App

/-- The app of a catalog, with the policy that the setting names. -/
def create (catalog : PublishedCatalog) (validator : Validator) (runtime : Runtime)
    (ranking : Option String) (lower : String → String) (text : AgentDsl.TextFunctions)
    : App where
  catalog
  policy := (Gateway.createApp catalog validator runtime ranking).policy
  validator
  runtime
  lower
  text

variable (app : App)

/-- The handlers that invoke features or publish composites. -/
def gateway : Gateway where
  catalog := app.catalog.toCatalog
  policy := app.policy
  validator := app.validator
  runtime := app.runtime

-----------------------------------------------------------------------------------------
-- Discovery
-----------------------------------------------------------------------------------------

/-- `catalog.list(query=q, tags=[tag] if tag else None)`. -/
def listFeatures (tag q : Option String) : Handler (List Feature) :=
  return InMemoryCatalog.sortedByName
    (filtered app.lower q ((given tag).map fun tag => [tag]) app.catalog.published)

/-- `GET /features/{name}`. -/
def getFeature (name : String) : Handler Feature :=
  match app.catalog.get name with
  | none => Gateway.raiseHttp 404 (.text s!"unknown feature: {name}")
  | some feature => return feature

/-- `GET /capabilities`. -/
def listCapabilities : Handler (List CapabilitySummary) :=
  match app.catalog.listCapabilities with
  | none => .raise .uncaught
  | some summaries => return summaries

/-- The providers of a capability, ranked now, or a 404 without any. -/
def rankedProviders (capability : String) : Handler (List Feature) :=
  match app.gateway.providers capability none none with
  | some [] => Gateway.raiseHttp 404 (.text s!"unknown capability: {capability}")
  | _ => app.gateway.rankProviders capability none none

/-- `GET /capabilities/{capability}`. -/
def getCapability (capability : String) : Handler (List Feature) := app.rankedProviders capability

/-- One row of the ranking. -/
def providerScore (store : MetricsStore) (f : Feature) : ProviderScore :=
  let m := store.get? (featureId f)
  { featureId := featureId f
    vendor := f.manifest.vendor
    version := f.manifest.version
    score := roundTo 4 (app.policy.score f store)
    invocations := (m.map FeatureMetrics.invocations).getD 0
    successRate := m.bind FeatureMetrics.successRate
    avgLatencyMs :=
      match m.bind FeatureMetrics.avgLatencyMs with
      | some latency => if latency = 0 then none else some (roundTo 3 latency)
      | none => none }

/-- The loop over the ranked providers. -/
def scoreRows : List Feature → Handler (List ProviderScore)
  | [] => return []
  | f :: rest =>
      .read fun state => do
        let rows ← scoreRows rest
        return app.providerScore state.store f :: rows

/-- `GET /capabilities/{capability}/ranking`. -/
def capabilityRanking (capability : String) : Handler (List ProviderScore) := do
  let ranked ← app.rankedProviders capability
  app.scoreRows ranked

-----------------------------------------------------------------------------------------
-- Registry and compiler
-----------------------------------------------------------------------------------------

/-- `GET /composites`. -/
def listComposites : Handler (List Gateway.CompositeSummary) :=
  .read fun state => return state.composites.entries.map fun entry =>
    Gateway.compositeSummary entry.2

/-- `GET /composites/{name}`. -/
def getComposite (name : String) : Handler Composite :=
  .read fun state =>
    match state.composites.get? name with
    | none => Gateway.raiseHttp 404 (.text s!"unknown composite: {name}")
    | some composite => return composite

/-- `LANGUAGES`. -/
def languages : List String := ["js", "ts", "go", "rust", "java", "proto"]

/-- `{lang: agentdsl.codegen(composite, lang) for lang in agentdsl.LANGUAGES}`. -/
def generated (composite : Composite) : Option (Dict String Text) :=
  (languages.mapM fun lang =>
    (AgentDsl.codegen app.text composite lang).map fun code => (lang, code)).map Dict.ofList

/-- `str(body.get("source", ""))`. -/
def sourceOf (fields : List (String × Json)) : String :=
  Mcp.display app.gateway ((fields.lookup "source").getD (.str ""))

/-- `bool(body.get("publish"))`. -/
def publishes (fields : List (String × Json)) : Bool :=
  ((fields.lookup "publish").getD .null).truthy

/-- The response to a source that was accepted. -/
def compiledResponse (fields : List (String × Json)) (composite : Composite)
    (code : Dict String Text)
    : Compiled where
  ok := true
  published := publishes fields
  agent := some (Gateway.compositeSummary composite)
  composite := some composite
  code

/-- What follows on parsing and publishing. -/
def respondCompiled (fields : List (String × Json)) (composite : Composite)
    : Handler Compiled :=
  match app.generated composite with
  | none => .raise .uncaught
  | some code => return compiledResponse fields composite code

/-- `POST /agents/compile`. Only an object has a `get`. -/
def compileAgent : Json → Handler Compiled
  | .obj fields =>
      match AgentDsl.parse (app.sourceOf fields) with
      | (none, errors) => return { ok := false, errors }
      | (some composite, _) =>
          if publishes fields then
            .write (.publish composite) (app.respondCompiled fields composite)
          else app.respondCompiled fields composite
  | _ => .raise .uncaught

-----------------------------------------------------------------------------------------
-- The app as a system
-----------------------------------------------------------------------------------------

/-- The handler of each request. -/
def serve : AppRequest → Handler AppResponse
  | .listFeatures tag q => .features <$> app.listFeatures tag q
  | .getFeature name => .feature <$> app.getFeature name
  | .listCapabilities => .capabilities <$> app.listCapabilities
  | .getCapability capability => .features <$> app.getCapability capability
  | .capabilityRanking capability => .scores <$> app.capabilityRanking capability
  | .listComposites => .composites <$> listComposites
  | .getComposite name => .composite <$> getComposite name
  | .compileAgent body => .compiled <$> app.compileAgent body
  | .handled request => .handled <$> app.gateway.serve request

/-- All requests in flight interleave at the await points of their handlers. -/
def system : System AppRequest AppState Write ChatEvent Dispatch Reply Fault AppResponse where
  apply := Write.apply
  serve := app.serve

end App

end AgentFeatures
