import AgentFeatures.Gateway.Chat
import AgentFeatures.Gateway.Mcp
import AgentFeatures.Library.Interleaving

/-! The gateway as a system of concurrent requests. -/

namespace AgentFeatures

open Library

/-- The requests that invoke features or publish composites. -/
inductive Request where
  | invokeFeature (name : String) (body : InvokeRequest)
  | invokeCapability (capability : String) (body : InvokeRequest)
      (vendor version : Option String)
  | invokeComposite (name : String) (body : InvokeRequest)
  | compose (spec : Composite)
  | chat (text : String)
  | mcp (message : Json)

inductive Response where
  | invoked (response : InvokeResponse)
  | composed (result : CompositeResult)
  | published (summary : Gateway.CompositeSummary)
  | streamed
  | rpc (message : Option Json)

/-- The request comes in through the MCP face. -/
def Request.isMcp : Request → Bool
  | mcp _ => true
  | _ => false

namespace Gateway

/-- The handler of each request. -/
def serve (gateway : Gateway) : Request → Handler Response
  | .invokeFeature name body => .invoked <$> gateway.invokeFeature name body
  | .invokeCapability capability body vendor version =>
      .invoked <$> gateway.invokeCapability capability body vendor version
  | .invokeComposite name body => .composed <$> gateway.invokeComposite name body
  | .compose spec => .published <$> compose spec
  | .chat text => (fun _ => .streamed) <$> gateway.chat text
  | .mcp message => .rpc <$> Mcp.handle gateway message

/-- Requests in flight interleave at the await points of their handlers. -/
def system (gateway : Gateway)
    : System Request AppState Write ChatEvent Dispatch Reply Fault Response where
  apply := Write.apply
  serve := gateway.serve

/-- The gateway right after it was created, with its first composites. -/
def start (composites : Dict String Composite)
    : Pool Request AppState Write ChatEvent Dispatch Reply Fault Response :=
  .initial ⟨∅, composites⟩

/-- A feature without an input schema. -/
def echoManifest : Manifest where
  name := "echo"
  capability := "echo"
  vendor := "acme"
  defaultCapability := by decide

/-- A gateway with one feature, no schemas and the static ranking. -/
def echoGateway : Gateway where
  catalog := inMemoryCatalog [echoManifest]
  policy := baselinePolicy
  validator := smallValidator
  runtime := ⟨fun _ => none, fun _ => "", fun _ => ""⟩

/-- An invoker that answers every dispatch with an empty result. -/
def emptyResult (_ : Dispatch) (_ : Unit) : Reply × Unit := (.result ∅ 1, ())

end Gateway

end AgentFeatures
