import AgentFeatures.Gateway.Faces
import AgentFeatures.Gateway.Recording

/-! The invoker that calls feature workloads over gRPC, and replies that carry an error. -/

namespace AgentFeatures

open Library

namespace Wire

/-- The context of a request as the protocol carries it. -/
structure RequestContext where
  traceId : String
  tenant : String
  timeoutMs : BitVec 32
  metadata : Dict String String

structure InvokeRequest (Struct : Type) where
  feature : String
  input : Struct
  context : RequestContext

/-- An error a workload reports inside its reply. -/
structure Error where
  code : String
  message : String

/-- A workload's reply; its error is unset on success. -/
structure InvokeResponse (Struct : Type) where
  output : Struct
  latencyMs : BitVec 64 := 0#64
  error : Option Error := none

end Wire

/-- The statuses that a failed call ends with. -/
inductive StatusCode where
  | cancelled
  | unknown
  | invalidArgument
  | deadlineExceeded
  | notFound
  | alreadyExists
  | permissionDenied
  | resourceExhausted
  | failedPrecondition
  | aborted
  | outOfRange
  | unimplemented
  | internal
  | unavailable
  | dataLoss
  | unauthenticated
deriving DecidableEq

/-- The status inside an f-string. -/
def StatusCode.text : StatusCode → String
  | cancelled => "StatusCode.CANCELLED"
  | unknown => "StatusCode.UNKNOWN"
  | invalidArgument => "StatusCode.INVALID_ARGUMENT"
  | deadlineExceeded => "StatusCode.DEADLINE_EXCEEDED"
  | notFound => "StatusCode.NOT_FOUND"
  | alreadyExists => "StatusCode.ALREADY_EXISTS"
  | permissionDenied => "StatusCode.PERMISSION_DENIED"
  | resourceExhausted => "StatusCode.RESOURCE_EXHAUSTED"
  | failedPrecondition => "StatusCode.FAILED_PRECONDITION"
  | aborted => "StatusCode.ABORTED"
  | outOfRange => "StatusCode.OUT_OF_RANGE"
  | unimplemented => "StatusCode.UNIMPLEMENTED"
  | internal => "StatusCode.INTERNAL"
  | unavailable => "StatusCode.UNAVAILABLE"
  | dataLoss => "StatusCode.DATA_LOSS"
  | unauthenticated => "StatusCode.UNAUTHENTICATED"

/-- How a remote call ends: with the workload's reply, or with an `AioRpcError`. -/
inductive RpcOutcome (Struct : Type) where
  | replied (response : Wire.InvokeResponse Struct)
  | failed (code : StatusCode) (details : Option String)

/-- What protobuf does with `Struct` messages; `none` where it raises. -/
structure Protobuf where
  Struct : Type
  /-- `Struct().update(payload)`. -/
  update : Json → Option Struct
  /-- `json_format.MessageToDict`. -/
  messageToDict : Struct → Option (Dict String Json)

/-- The invoker with the workloads behind it: its resolver of endpoints, which may find a
feature unavailable, and the end of a call to an endpoint within a number of seconds.
-/
structure GrpcInvoker (protobuf : Protobuf) where
  resolve : String → Except String String
  call : String → Wire.InvokeRequest protobuf.Struct → Rat → RpcOutcome protobuf.Struct

/-- The endpoint of a feature, as the gateway resolves it in a cluster. -/
def resolveEndpoint (catalog : Catalog) (name : String) : Except String String :=
  match (catalog.get name).bind fun feature => given feature.endpoint with
  | some endpoint => .ok endpoint
  | none => .error s!"no endpoint for feature '{name}'"

namespace GrpcInvoker

variable {protobuf : Protobuf} (invoker : GrpcInvoker protobuf)

/-- The value of an `int32` field; a value out of range raises. -/
def int32? (value : Int) : Option (BitVec 32) :=
  if -2 ^ 31 ≤ value ∧ value < 2 ^ 31 then some (BitVec.ofInt 32 value) else none

/-- The request for a payload; `none` when a value does not fit into its message. -/
def request (feature : String) (payload : Json) (context : RequestContext)
    : Option (Wire.InvokeRequest protobuf.Struct) := do
  let timeoutMs ← int32? context.timeoutMs
  let input ← protobuf.update payload
  return {
    feature
    input
    context := {
      traceId := (given context.traceId).getD ""
      tenant := (given context.tenant).getD ""
      timeoutMs
      metadata := context.metadata } }

/-- What the end of a call means, with the rounded latency that was measured; `none` when the
conversion of the output raises.
-/
def ending (feature : String) (latencyMs : Rat) : RpcOutcome protobuf.Struct → Option Reply
  | .failed .invalidArgument details => some (.inputError ((given details).getD "invalid input"))
  | .failed code _ => some (.unavailable s!"gRPC call to '{feature}' failed: {code.text}")
  | .replied response =>
      (protobuf.messageToDict response.output).map fun output => .result output latencyMs

/-- `invoke`; `none` is an exception other than the two declared ones. -/
def invoke (feature : String) (payload : Json) (context : RequestContext) (latencyMs : Rat)
    : Option Reply :=
  match invoker.resolve feature with
  | .error message => some (.unavailable message)
  | .ok endpoint =>
      match request feature payload context with
      | none => none
      | some request =>
          ending feature latencyMs (invoker.call endpoint request (context.timeoutMs / 1000))

/-- The call of a feature with that payload is answered by that reply of its workload. -/
def Receives (feature : String) (payload : Json) (context : RequestContext)
    (response : Wire.InvokeResponse protobuf.Struct)
    : Prop :=
  ∃ endpoint message,
    invoker.resolve feature = .ok endpoint
    ∧ request feature payload context = some message
    ∧ invoker.call endpoint message (context.timeoutMs / 1000) = .replied response

/-- Whatever reply comes in, only its output is looked at. -/
theorem invoke_of_receives {feature : String} {payload : Json} {context : RequestContext}
    {response : Wire.InvokeResponse protobuf.Struct}
    (received : invoker.Receives feature payload context response) (latencyMs : Rat)
    : invoker.invoke feature payload context latencyMs
      = (protobuf.messageToDict response.output).map fun output => .result output latencyMs := by
  obtain ⟨endpoint, message, resolved, built, replied⟩ := received
  simp only [invoke, resolved, built, replied, ending]

end GrpcInvoker

namespace Gateway

variable (gateway : Gateway)

/-- Runs a handler alone against an invoker that answers with that reply. -/
def answered {α : Type} (reply : Reply) (program : Handler α) (state : AppState)
    : Coroutine.Execution AppState ChatEvent Dispatch Reply Fault Unit α :=
  program.run Write.apply (fun _ _ => (reply, ())) state ()

/-- An invocation that is no success: it ends in one of the two declared exceptions, no face
hands an output of it to its caller, and no request records a success for it.
-/
structure NoSuccess (feature : Feature) (payload : Dict String Json) (context : RequestContext)
    (invoked : Option Reply)
    : Prop where
  surfaces
    : (∃ message, invoked = some (.inputError message))
      ∨ ∃ message, invoked = some (.unavailable message)
  rest
    : ∀ reply ∈ invoked, ∀ state response,
        (answered reply (gateway.invoke feature { input := payload, context }) state).outcome
        ≠ .ok response
  step
    : ∀ reply ∈ invoked, ∀ capability vendor version state output,
        (gateway.ranking capability vendor version state.store).map List.head?
          = some (some feature)
        → (answered reply (gateway.runCapability capability payload vendor version)
            state).outcome
          ≠ .ok (some output, none)
  chat
    : ∀ reply ∈ invoked, ∀ state name vendor output latencyMs,
        ChatEvent.result name vendor output latencyMs
        ∉ (answered reply (gateway.chatInvoke feature (.ofDict payload)) state).events
  tool
    : ∀ reply ∈ invoked, ∀ msgId state response,
        (answered reply
          (Mcp.invokeTool gateway msgId feature.manifest.name feature (.ofDict payload))
          state).outcome = .ok response
        → Mcp.isError response ≠ some (.bool false)
  unrecorded
    : ∀ reply ∈ invoked, ∀ request,
        ∀ outcome ∈ gateway.settle request ⟨feature.manifest.name, .ofDict payload, context⟩ reply,
          outcome.success = false

/-- An invocation that every face takes for a success with that output, and that every face but
MCP records as one.
-/
structure Success (feature : Feature) (payload output : Dict String Json)
    (context : RequestContext) (latencyMs : Rat)
    : Prop where
  rest
    : ∀ state,
        let ran := answered (.result output latencyMs)
          (gateway.invoke feature { input := payload, context }) state
        ran.outcome = .ok
          { feature := feature.manifest.name, version := feature.manifest.version, output,
            latencyMs, vendor := feature.manifest.vendor }
        ∧ ran.state = Write.apply (.record (featureId feature) true latencyMs) state
  step
    : ∀ capability vendor version state,
        (gateway.ranking capability vendor version state.store).map List.head?
          = some (some feature)
        → let ran := answered (.result output latencyMs)
            (gateway.runCapability capability payload vendor version) state
          ran.outcome = .ok (some output, none)
          ∧ ran.state = Write.apply (.record (featureId feature) true latencyMs) state
  chat
    : ∀ state,
        let ran := answered (.result output latencyMs)
          (gateway.chatInvoke feature (.ofDict payload)) state
        .result feature.manifest.name feature.manifest.vendor output latencyMs ∈ ran.events
        ∧ ran.state = Write.apply (.record (featureId feature) true latencyMs) state
  tool
    : ∀ msgId state,
        (answered (.result output latencyMs)
          (Mcp.invokeTool gateway msgId feature.manifest.name feature (.ofDict payload))
          state).outcome
        = .ok (Mcp.content msgId (gateway.runtime.dumps (.ofDict output)) false)

/-- A result is a success on every face. Witness: each face's own branch for a result. -/
theorem success_of_result {feature : Feature} {payload : Dict String Json}
    (accepted : gateway.inputErrors feature (.ofDict payload) = [])
    (output : Dict String Json) (context : RequestContext) (latencyMs : Rat)
    : gateway.Success feature payload output context latencyMs where
  rest state := by
    simp only [answered, invoke, accepted, dispatch_bind_run]
    exact ⟨rfl, rfl⟩
  step capability vendor version state first := by
    obtain ⟨ranked, known, head⟩ := Option.map_eq_some_iff.mp first
    obtain ⟨others, rfl⟩ := List.head?_eq_some_iff.mp head
    simp only [answered, runCapability, rankProviders_bind_run, known, accepted,
      dispatch_bind_run]
    exact ⟨rfl, rfl⟩
  chat state := by
    simp only [answered, chatInvoke, accepted]
    exact ⟨List.mem_cons_of_mem _ List.mem_cons_self, rfl⟩
  tool msgId state := by
    simp only [answered, Mcp.invokeTool, accepted, dispatch_bind_run]
    rfl

section Replies

variable {protobuf : Protobuf} (invoker : GrpcInvoker protobuf)

/-- A reply with an error is no failure: it surfaces as neither declared exception, and when its
output converts it is a success on every face. Witness: `invoke` looks at the output only.
-/
theorem setError_succeeds {feature : Feature} {payload : Dict String Json}
    {context : RequestContext} {struct : protobuf.Struct} {ownLatency : BitVec 64}
    {error : Wire.Error} (accepted : gateway.inputErrors feature (.ofDict payload) = [])
    (received
      : invoker.Receives feature.manifest.name (.ofDict payload) context
          { output := struct, latencyMs := ownLatency, error := some error })
    (latencyMs : Rat)
    : ¬ gateway.NoSuccess feature payload context
          (invoker.invoke feature.manifest.name (.ofDict payload) context latencyMs)
      ∧ ∀ output,
          protobuf.messageToDict struct = some output
          → invoker.invoke feature.manifest.name (.ofDict payload) context latencyMs
              = some (.result output latencyMs)
            ∧ gateway.Success feature payload output context latencyMs := by
  rw [invoker.invoke_of_receives received]
  constructor
  · intro noSuccess
    rcases noSuccess.surfaces with ⟨message, declared⟩ | ⟨message, declared⟩
    · obtain ⟨output, -, other⟩ := Option.map_eq_some_iff.mp declared
      cases other
    · obtain ⟨output, -, other⟩ := Option.map_eq_some_iff.mp declared
      cases other
  · intro output converted
    exact ⟨by rw [converted]; rfl, gateway.success_of_result accepted output context latencyMs⟩

end Replies

/-- The feature of the echo gateway. -/
def echoFeature : Feature where
  manifest := echoManifest
  endpoint := some "local://echo"

/-- The empty object as the only message. -/
def emptyProtobuf : Protobuf where
  Struct := Unit
  update _ := some ()
  messageToDict _ := some ∅

/-- A workload that reports its failure inside the reply. -/
def failingInvoker : GrpcInvoker emptyProtobuf where
  resolve := resolveEndpoint echoGateway.catalog
  call _ _ _ := .replied
    { output := (), error := some ⟨"FEATURE_UNAVAILABLE", "backend is down"⟩ }

/-- The call of the failing workload is answered. -/
theorem failingInvoker_receives
    : failingInvoker.Receives "echo" (.ofDict ∅) {}
        { output := (), error := some ⟨"FEATURE_UNAVAILABLE", "backend is down"⟩ } :=
  ⟨"local://echo", _, rfl, rfl, rfl⟩

/-- The reply of the failing workload is a success with the empty output on every face. -/
theorem setError_succeeds_echo
    : ¬ echoGateway.NoSuccess echoFeature ∅ {} (failingInvoker.invoke "echo" (.ofDict ∅) {} 1)
      ∧ ∀ output,
          emptyProtobuf.messageToDict () = some output
          → failingInvoker.invoke "echo" (.ofDict ∅) {} 1 = some (.result output 1)
            ∧ echoGateway.Success echoFeature ∅ output {} 1 :=
  @setError_succeeds echoGateway emptyProtobuf failingInvoker echoFeature ∅ {} _ _ _ rfl
    failingInvoker_receives 1

/-- The failure a workload reports inside its reply is returned and recorded as a success. -/
theorem setError_not_noSuccess
    : ¬ ∀ (gateway : Gateway) (protobuf : Protobuf) (invoker : GrpcInvoker protobuf)
          (feature : Feature) (payload : Dict String Json) (context : RequestContext)
          (response : Wire.InvokeResponse protobuf.Struct) (latencyMs : Rat),
        gateway.inputErrors feature (.ofDict payload) = []
        → invoker.Receives feature.manifest.name (.ofDict payload) context response
        → response.error.isSome
        → gateway.NoSuccess feature payload context
            (invoker.invoke feature.manifest.name (.ofDict payload) context latencyMs) := by
  intro all
  have noSuccess := all echoGateway emptyProtobuf failingInvoker echoFeature ∅ {} _ 1 rfl
    failingInvoker_receives rfl
  have success : failingInvoker.invoke "echo" (.ofDict ∅) {} 1 = some (.result ∅ 1) := rfl
  exact noSuccess.rest _ success ⟨∅, ∅⟩ _ rfl

end Gateway

end AgentFeatures
