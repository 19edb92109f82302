import AgentFeatures.Json

/-! The gateway's data model: manifests, features and invocation messages. -/

namespace AgentFeatures

open Library (Dict)

/-- How much the marketplace trusts a vendor. -/
inductive TrustTier where
  | official
  | verified
  | community
deriving DecidableEq

inductive Visibility where
  | «public»
  | internal
  | «private»
deriving DecidableEq

inductive Protocol where
  | grpc
  | http
deriving DecidableEq

inductive Phase where
  | pending
  | provisioning
  | ready
  | failed
deriving DecidableEq

/-- Self-describing record of a feature. The model validator makes the capability default
to the name, so it is empty only with an empty name.
-/
structure Manifest where
  name : String
  version : String := "1.0.0"
  description : String := ""
  tags : List String := []
  inputSchema : Dict String Json := ∅
  outputSchema : Dict String Json := ∅
  visibility : Visibility := .«public»
  protocol : Protocol := .grpc
  vendor : String := "community"
  capability : String
  trust : TrustTier := .community
  defaultCapability : capability = "" → name = ""

/-- A manifest plus its runtime status, as surfaced by the catalog. -/
structure Feature where
  manifest : Manifest
  phase : Phase := .ready
  endpoint : Option String := none

/-- Trace context, tenancy and deadline carried through an invocation. -/
structure RequestContext where
  traceId : Option String := none
  tenant : Option String := none
  timeoutMs : Int := 30000
  metadata : Dict String String := ∅

structure InvokeRequest where
  input : Dict String Json := ∅
  context : RequestContext := {}

structure InvokeResponse where
  feature : String
  version : String
  output : Dict String Json
  latencyMs : Rat
  vendor : String := "community"

/-- The key under which a feature's outcomes are recorded: `vendor/name@version`. -/
def featureId (feature : Feature) : String :=
  feature.manifest.vendor ++ "/" ++ feature.manifest.name ++ "@" ++ feature.manifest.version

/-- The string when `if text:` takes its branch: it is there and not empty. -/
def given : Option String → Option String
  | some text => if text = "" then none else some text
  | none => none

end AgentFeatures
