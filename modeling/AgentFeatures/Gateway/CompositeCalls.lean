import AgentFeatures.Composer.Report
import AgentFeatures.Gateway.Routes
import AgentFeatures.Gateway.Server

/-! A composite run against the direct capability calls it stands for. -/

namespace AgentFeatures

open Library
open Library.Coroutine (Execution)

namespace Gateway

variable (gateway : Gateway)

/-- The client's own pipeline: one `POST /capabilities/{capability}/invoke` a step, with the
default context, until references do not resolve or a call is not a success. The result is
the outputs obtained.
-/
def directCalls : List Step → Dict String Json → List (Dict String Json)
    → Handler (List (Dict String Json))
  | [], _, outputs => return outputs
  | step :: rest, ctx, outputs =>
      match resolveRefs ctx step.inputs with
      | .error _ => return outputs
      | .ok stepInput => do
          let body : InvokeRequest := { input := stepInput }
          match ← (gateway.invokeCapability step.capability body step.vendor
              step.version).attempt with
          | .error _ => return outputs
          | .ok response =>
              directCalls rest (ctx.set step.name (.ofDict response.output))
                (outputs ++ [response.output])

/-- The composite run has the effects of the direct calls and obtains their outputs; when a
version text raises, its trace is lost with the run.
-/
structure SameRun {σ : Type}
    (composed : Execution AppState ChatEvent Dispatch Reply Fault σ CompositeResult)
    (direct : Execution AppState ChatEvent Dispatch Reply Fault σ (List (Dict String Json)))
    : Prop where
  calls : composed.calls = direct.calls
  state : composed.state = direct.state
  world : composed.world = direct.world
  outputs
    : match composed.outcome with
      | .ok result => direct.outcome = .ok (result.trace.map TraceEntry.output)
      | .error fault => fault = .uncaught

variable {σ : Type} (answer : Dispatch → σ → Reply × σ)

/-- What a step of a composite makes of the outcome of the direct call. -/
def StepOutcome (call : Except Fault InvokeResponse)
    (step : Except Fault (Option (Dict String Json) × Option String))
    : Prop :=
  match call with
  | .ok response => step = .ok (some response.output, none)
  | .error .uncaught => step = .error .uncaught
  | .error (.http _ _) => ∃ message, step = .ok (none, some message)

/-- Once a provider is chosen, a step and a direct call validate, dispatch and record alike. -/
theorem runCapability_agrees (capability : String) (input : Dict String Json)
    (vendor version : Option String) (state : AppState) (world : σ)
    : let step := (gateway.runCapability capability input vendor version).run
        Write.apply answer state world
      let call := (gateway.invokeCapability capability { input } vendor version).run
        Write.apply answer state world
      step.calls = call.calls
      ∧ step.state = call.state
      ∧ step.world = call.world
      ∧ StepOutcome call.outcome step.outcome := by
  cases gateway.route capability input vendor version state.store with
  | unranked raised =>
      simp [runCapability, invokeCapability, rankProviders_bind_run, raised, StepOutcome]
  | unprovided empty =>
      simp [runCapability, invokeCapability, rankProviders_bind_run, empty, Coroutine.run,
        StepOutcome, raiseHttp]
  | rejected ranked violations =>
      simp [runCapability, invokeCapability, rankProviders_bind_run, ranked, invoke, violations,
        Coroutine.run, StepOutcome, raiseHttp]
  | @dispatched feature others ranked accepted =>
      simp only [runCapability, invokeCapability, rankProviders_bind_run, ranked, invoke, accepted]
      cases answered : answer ⟨feature.manifest.name, .ofDict input, {}⟩ world with
      | mk reply world' =>
          cases reply <;>
            simp [dispatch, answered, record, Coroutine.run, StepOutcome, raiseHttp]

/-- The composer's loop runs as the remaining direct calls. Witness: induction on the steps;
state, world and context are carried from each step to the next.
-/
theorem runSteps_sameRun (composite : Composite) (steps : List Step) (ctx : Dict String Json)
    (trace : List TraceEntry) (state : AppState) (world : σ)
    : SameRun
        ((Composer.runSteps gateway.runCapability composite steps ctx trace).run
          Write.apply answer state world)
        ((gateway.directCalls steps ctx (trace.map TraceEntry.output)).run
          Write.apply answer state world) := by
  induction steps generalizing ctx trace state world with
  | nil =>
      rw [Composer.runSteps_nil]
      cases resolveRefs ctx composite.output with
      | error err => exact ⟨rfl, rfl, rfl, rfl⟩
      | ok output => exact ⟨rfl, rfl, rfl, rfl⟩
  | cons step rest ih =>
      cases resolved : resolveRefs ctx step.inputs with
      | error err =>
          rw [Composer.runSteps_unresolved _ _ _ _ resolved, directCalls, resolved]
          exact ⟨rfl, rfl, rfl, rfl⟩
      | ok stepInput =>
          rw [Composer.runSteps_resolved _ _ _ _ resolved, directCalls, resolved]
          dsimp only
          rw [Coroutine.run_bind, Coroutine.run_bind, Coroutine.run_attempt]
          obtain ⟨calls, sameState, sameWorld, outcomes⟩ :=
            gateway.runCapability_agrees answer step.capability stepInput step.vendor
              step.version state world
          generalize (gateway.runCapability step.capability stepInput step.vendor
            step.version).run Write.apply answer state world = composed at *
          generalize (gateway.invokeCapability step.capability { input := stepInput }
            step.vendor step.version).run Write.apply answer state world = direct at *
          cases outcome : direct.outcome with
          | error fault =>
              rw [outcome] at outcomes
              cases fault with
              | uncaught =>
                  have crashed : composed.outcome = .error .uncaught := outcomes
                  simp only [crashed, outcome]
                  exact ⟨by simp [Execution.andThen, Coroutine.run, calls], sameState,
                    sameWorld, rfl⟩
              | http status detail =>
                  obtain ⟨message, failed⟩ := outcomes
                  obtain ⟨err, incomplete⟩ := stepOutcome_none (some message)
                  simp only [failed, incomplete, outcome]
                  exact ⟨by simp [Execution.andThen, Coroutine.run, calls], sameState,
                    sameWorld, rfl⟩
          | ok response =>
              rw [outcome] at outcomes
              have completed : composed.outcome = .ok (some response.output, none) := outcomes
              have later := ih (ctx.set step.name (.ofDict response.output))
                (trace ++ [⟨step.name, step.capability, response.output⟩]) composed.state
                composed.world
              simp only [completed, stepOutcome, given, outcome]
              rw [← sameState, ← sameWorld]
              simp only [List.map_append, List.map_singleton] at later
              exact ⟨by simp [Execution.andThen, calls, later.calls], later.state, later.world,
                later.outputs⟩

/-- A composite of one step whose input schema requires a field. -/
def namedComposite : Composite where
  name := "named"
  capability := "named"
  inputSchema := Dict.empty.set "required" (.arr [.str "name"])
  steps := [{ name := "first", capability := "echo" }]
  defaultCapability := by decide

/-- A state in which the composite is published. -/
def namedState : AppState := ⟨∅, Dict.empty.set "named" namedComposite⟩

end Gateway

end AgentFeatures
