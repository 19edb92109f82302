import AgentFeatures.Composer.Report
import AgentFeatures.Gateway.Dispatches
import AgentFeatures.Gateway.Routes

/-! Whether the caller's context reaches the dispatches made for a request. -/

namespace AgentFeatures

open Library
open Library.Coroutine (AllCalls)

/-- The context that a request carries. -/
def Request.context? : Request → Option RequestContext
  | invokeFeature _ body => some body.context
  | invokeCapability _ body _ _ => some body.context
  | invokeComposite _ body => some body.context
  | _ => none

namespace Gateway

variable (gateway : Gateway)

/-- When the request arrives at the pool, every call made for it has the context, whatever other
requests do meanwhile and however calls are answered.
-/
def ContextReaches (request : Request) (context : RequestContext)
    (pool : Pool Request AppState Write ChatEvent Dispatch Reply Fault Response)
    : Prop :=
  ∀ arrived final,
    gateway.system.step? (.arrive request) pool = some arrived
    → gateway.system.Reaches arrived final
    → ∀ task,
        final.tasks[pool.tasks.length]? = some (request, task)
        → ∀ call ∈ task.pendingCall, call.context = context

/-- The composite is published and accepts the input, the references of its first step resolve,
and the step has a provider that accepts what they give.
-/
def FirstStepDispatches (name : String) (body : InvokeRequest) (state : AppState) : Prop :=
  ∃ composite step rest stepInput feature others,
    state.composites.get? name = some composite
    ∧ collectErrors gateway.validator (.ofDict body.input) composite.inputSchema = []
    ∧ composite.steps = step :: rest
    ∧ resolveRefs (contextAfter body.input []) step.inputs = .ok stepInput
    ∧ gateway.ranking step.capability step.vendor step.version state.store
        = some (feature :: others)
    ∧ gateway.inputErrors feature (.ofDict stepInput) = []

-----------------------------------------------------------------------------------------
-- Requests that pass their context on
-----------------------------------------------------------------------------------------

/-- The shared dispatch of the two REST faces passes the body's context. -/
theorem invoke_passes (feature : Feature) (body : InvokeRequest)
    : (gateway.invoke feature body).AllCalls fun call => call.context = body.context := by
  simp only [invoke]
  split
  · trivial
  · refine ⟨rfl, ?_⟩
    intro reply
    cases reply <;> trivial

theorem invokeFeature_passes (name : String) (body : InvokeRequest)
    : (gateway.invokeFeature name body).AllCalls fun call => call.context = body.context := by
  unfold invokeFeature
  split
  · trivial
  · exact gateway.invoke_passes _ body

theorem invokeCapability_passes (capability : String) (body : InvokeRequest)
    (vendor version : Option String)
    : (gateway.invokeCapability capability body vendor version).AllCalls
        fun call => call.context = body.context := by
  refine (gateway.rankProviders_allCalls _ capability vendor version).bind fun ranked => ?_
  cases ranked with
  | nil => trivial
  | cons feature others => exact gateway.invoke_passes feature body

/-- A step of a composite passes the default context, by cases on the reply. -/
theorem runCapability_passes (capability : String) (input : Dict String Json)
    (vendor version : Option String)
    : (gateway.runCapability capability input vendor version).AllCalls
        fun call => call.context = {} := by
  refine (gateway.rankProviders_allCalls _ capability vendor version).bind fun ranked => ?_
  cases ranked with
  | nil => trivial
  | cons feature others =>
      dsimp only
      split
      · trivial
      · refine ⟨rfl, ?_⟩
        intro reply
        cases reply <;> trivial

/-- Every step of a composite passes the default context. Witness: the composer's loop keeps
what holds of its invoker.
-/
theorem invokeComposite_passes (name : String) (body : InvokeRequest)
    : (gateway.invokeComposite name body).AllCalls fun call => call.context = {} := by
  intro state
  dsimp only
  split
  · trivial
  · split
    · trivial
    · exact Composer.runSteps_closed
        (fun {_} program => AllCalls (fun call : Dispatch => call.context = {}) program)
        (fun _ => by trivial) (fun first later => first.bind later)
        gateway.runCapability_passes _ _ _ _

-----------------------------------------------------------------------------------------
-- The first dispatch of a composite
-----------------------------------------------------------------------------------------

/-- What follows on the ranking starts on the same state. -/
theorem rankProviders_bind_advance {α : Type} (capability : String)
    (vendor version : Option String) (k : List Feature → Handler α) (state : AppState)
    : (gateway.rankProviders capability vendor version >>= k).advance Write.apply state
      = match gateway.ranking capability vendor version state.store with
        | none => (.raise .uncaught, state)
        | some ranked => (k ranked).advance Write.apply state := by
  rw [rankProviders, ranking]
  cases gateway.providers capability vendor version with
  | none => rfl
  | some selected =>
      rw [Option.bind_some, Coroutine.bind_read, Coroutine.advance]
      cases gateway.policy.rank selected state.store <;> rfl

section FirstStep

variable {composite : Composite} {step : Step} {rest : List Step}
  {ctx stepInput : Dict String Json} {trace : List TraceEntry} {state : AppState}

/-- When the first step has a provider that accepts its input, the loop first waits for the
dispatch to it, with the default context.
-/
theorem runSteps_waits (resolved : resolveRefs ctx step.inputs = .ok stepInput)
    {feature : Feature} {others : List Feature}
    (ranked
      : gateway.ranking step.capability step.vendor step.version state.store
        = some (feature :: others))
    (accepted : gateway.inputErrors feature (.ofDict stepInput) = [])
    : ((Composer.runSteps gateway.runCapability composite (step :: rest) ctx trace).advance
        Write.apply state).1.pendingCall
      = [⟨feature.manifest.name, .ofDict stepInput, {}⟩] := by
  rw [Composer.runSteps_resolved _ _ _ _ resolved, runCapability, bind_assoc,
    rankProviders_bind_advance, ranked]
  simp only [accepted]
  rfl

/-- When the first step has no such provider, the loop makes no call at all. Witness: the step
has no output, so the run ends there.
-/
theorem runSteps_silent (resolved : resolveRefs ctx step.inputs = .ok stepInput)
    (unserved
      : ¬ ∃ feature others,
          gateway.ranking step.capability step.vendor step.version state.store
            = some (feature :: others)
          ∧ gateway.inputErrors feature (.ofDict stepInput) = [])
    (P : Dispatch → Prop)
    : ((Composer.runSteps gateway.runCapability composite (step :: rest) ctx trace).advance
        Write.apply state).1.AllCalls P := by
  rw [Composer.runSteps_resolved _ _ _ _ resolved, runCapability, bind_assoc,
    rankProviders_bind_advance]
  cases gateway.route step.capability stepInput step.vendor step.version state.store with
  | unranked raised =>
      rw [raised]
      trivial
  | unprovided empty =>
      obtain ⟨err, ends⟩ :=
        stepOutcome_none (some s!"no provider for capability '{step.capability}'")
      rw [empty]
      simp only [Coroutine.pure_eq, Coroutine.bind_done, ends]
      trivial
  | @rejected feature others error errors ranked violations =>
      obtain ⟨err, ends⟩ := stepOutcome_none
        (some ("invalid input: " ++ String.intercalate "; " (error :: errors)))
      rw [ranked]
      simp only [violations, Coroutine.pure_eq, Coroutine.bind_done, ends]
      trivial
  | dispatched ranked accepted => exact absurd ⟨_, _, ranked, accepted⟩ unserved

end FirstStep

/-- A composite whose first step does not dispatch makes no call at all. -/
theorem invokeComposite_silent {name : String} {body : InvokeRequest} {state : AppState}
    (silent : ¬ gateway.FirstStepDispatches name body state) (P : Dispatch → Prop)
    : ((gateway.invokeComposite name body).advance Write.apply state).1.AllCalls P := by
  simp only [invokeComposite, Coroutine.advance]
  cases published : state.composites.get? name with
  | none => trivial
  | some composite =>
      dsimp only
      cases errors : collectErrors gateway.validator (.ofDict body.input)
          composite.inputSchema with
      | cons error more => trivial
      | nil =>
          dsimp only
          rw [Composer.run]
          cases steps : composite.steps with
          | nil =>
              rw [Composer.runSteps_nil]
              split <;> trivial
          | cons step rest =>
              cases resolved : resolveRefs (Dict.empty.set "input" (.ofDict body.input))
                  step.inputs with
              | error err =>
                  rw [Composer.runSteps_unresolved _ _ _ _ resolved]
                  trivial
              | ok stepInput =>
                  refine gateway.runSteps_silent resolved ?_ P
                  intro served
                  obtain ⟨feature, others, ranked, accepted⟩ := served
                  exact silent ⟨composite, step, rest, stepInput, feature, others, published,
                    errors, steps, resolved, ranked, accepted⟩

/-- A composite whose first step dispatches first waits for a call with the default context. -/
theorem invokeComposite_waits {name : String} {body : InvokeRequest} {state : AppState}
    (dispatches : gateway.FirstStepDispatches name body state)
    : ∃ call ∈ ((gateway.invokeComposite name body).advance Write.apply state).1.pendingCall,
        call.context = {} := by
  obtain ⟨composite, step, rest, stepInput, feature, others, published, errors, steps, resolved,
    ranked, accepted⟩ := dispatches
  have start : resolveRefs (Dict.empty.set "input" (.ofDict body.input)) step.inputs
      = .ok stepInput := resolved
  refine ⟨⟨feature.manifest.name, .ofDict stepInput, {}⟩, ?_, rfl⟩
  simp only [invokeComposite, Coroutine.advance, published, errors]
  rw [Composer.run, steps, gateway.runSteps_waits start ranked accepted]
  exact List.mem_singleton_self _

-----------------------------------------------------------------------------------------
-- Requests in a running gateway
-----------------------------------------------------------------------------------------

/-- What holds of every call a request makes from its arrival on is enough for its context to
reach them. Witness: the task keeps the guarantee through the run.
-/
theorem contextReaches_of_allCalls {request : Request} {context : RequestContext}
    {pool : Pool Request AppState Write ChatEvent Dispatch Reply Fault Response}
    (passes
      : ((gateway.serve request).advance Write.apply pool.state).1.AllCalls
          fun call => call.context = context)
    : gateway.ContextReaches request context pool := by
  intro arrived final arrives run task waiting
  cases arrives
  obtain ⟨later, here, safe⟩ := run.task_allCalls List.getElem?_concat_length passes
  cases here.symm.trans waiting
  exact safe.pendingCall

/-- The context that a request carries reaches every call made for it, in every run from its
arrival on, iff the request invokes no composite whose first step dispatches, or the context is
the default one. Witness: composites pass the default context at every step.
-/
theorem contextReaches_iff {request : Request} {context : RequestContext}
    (carries : request.context? = some context)
    (pool : Pool Request AppState Write ChatEvent Dispatch Reply Fault Response)
    : gateway.ContextReaches request context pool
      ↔ context = {}
        ∨ ∀ name body,
            request = .invokeComposite name body
            → ¬ gateway.FirstStepDispatches name body pool.state := by
  constructor
  · intro reaches
    by_cases default : context = {}
    · exact Or.inl default
    · refine Or.inr fun name body composed dispatches => default ?_
      subst composed
      obtain ⟨call, pending, plain⟩ := gateway.invokeComposite_waits dispatches
      have waits := reaches _ _ rfl .refl _ List.getElem?_concat_length call
      rw [← plain]
      refine (waits ?_).symm
      change call ∈ ((gateway.serve (.invokeComposite name body)).advance Write.apply
        pool.state).1.pendingCall
      rwa [serve, Coroutine.advance_map, Coroutine.pendingCall_map]
  · intro condition
    refine gateway.contextReaches_of_allCalls ?_
    cases request with
    | invokeFeature name body =>
        cases carries
        exact ((gateway.invokeFeature_passes name body).map _).advance _ _
    | invokeCapability capability body vendor version =>
        cases carries
        exact ((gateway.invokeCapability_passes capability body vendor version).map _).advance _ _
    | invokeComposite name body =>
        rcases condition with rfl | silent
        · exact ((gateway.invokeComposite_passes name body).map _).advance _ _
        · rw [serve, Coroutine.advance_map]
          exact (gateway.invokeComposite_silent (silent name body rfl) _).map _
    | compose spec => cases carries
    | chat text => cases carries
    | mcp message => cases carries

/-- A composite whose one step calls the echo feature. -/
def relayComposite : Composite where
  name := "relay"
  capability := "relay"
  steps := [{ name := "only", capability := "echo" }]
  defaultCapability := by decide

/-- A gateway that has published the composite. -/
def relayPool : Pool Request AppState Write ChatEvent Dispatch Reply Fault Response :=
  start (Dict.empty.set "relay" relayComposite)

/-- A request on behalf of a tenant. -/
def tenantRequest : Request := .invokeComposite "relay" { context := { tenant := some "acme" } }

theorem contextReaches_relay
    : echoGateway.ContextReaches tenantRequest { tenant := some "acme" } relayPool
      ↔ ({ tenant := some "acme" } : RequestContext) = {}
        ∨ ∀ name body,
            tenantRequest = .invokeComposite name body
            → ¬ echoGateway.FirstStepDispatches name body relayPool.state :=
  echoGateway.contextReaches_iff rfl relayPool

/-- The tenant of a composite's caller is lost at its first step. -/
theorem relay_loses_tenant
    : ¬ ∀ (gateway : Gateway) (request : Request) (context : RequestContext)
        (pool : Pool Request AppState Write ChatEvent Dispatch Reply Fault Response),
        request.context? = some context → gateway.ContextReaches request context pool := by
  intro all
  have reaches := all echoGateway tenantRequest { tenant := some "acme" } relayPool rfl
  have dispatched : (((echoGateway.serve tenantRequest).advance Write.apply
      relayPool.state).1.pendingCall.map fun call => call.context.tenant) = [none] := by decide
  obtain ⟨call, pending, plain⟩ := List.map_eq_singleton_iff.mp dispatched
  have carried := reaches _ _ rfl .refl _ rfl call (pending ▸ List.mem_singleton_self call)
  rw [carried] at plain
  cases plain

end Gateway

end AgentFeatures
