import AgentFeatures.Composer.References
import AgentFeatures.Gateway.Routes
import AgentFeatures.Gateway.Server

/-! A step that targets a published composite, against the run of that composite. -/

namespace AgentFeatures

open Library

namespace Gateway

variable (gateway : Gateway) {σ : Type} (answer : Dispatch → σ → Reply × σ)

/-- The step has a provider that accepts the input, and it answers with a result. -/
structure Served (step : Step) (stepInput : Dict String Json) (state : AppState) (world : σ)
    (feature : Feature) (output : Dict String Json) (latencyMs : Rat) : Prop where
  ranked
    : ∃ selected others,
        gateway.providers step.capability step.vendor step.version = some selected
        ∧ gateway.policy.rank selected state.store = some (feature :: others)
  accepted : gateway.inputErrors feature (.ofDict stepInput) = []
  answered
    : (answer ⟨feature.manifest.name, .ofDict stepInput, {}⟩ world).1 = .result output latencyMs

/-- The shared state after a served step. -/
def afterServed (feature : Feature) (latencyMs : Rat) (state : AppState) : AppState :=
  { state with store := state.store.record (featureId feature) true latencyMs }

/-- Every remaining step resolves and is served, and then every output reference resolves. -/
def Completes (composite : Composite) : List Step → Dict String Json → AppState → σ → Prop
  | [], ctx, _, _ =>
      ∀ entry ∈ composite.output.entries, ∃ value, resolveRef ctx entry.2 = .ok value
  | step :: rest, ctx, state, world =>
      ∃ stepInput feature output latencyMs,
        resolveRefs ctx step.inputs = .ok stepInput
        ∧ gateway.Served answer step stepInput state world feature output latencyMs
        ∧ Completes composite rest (ctx.set step.name (.ofDict output))
            (afterServed feature latencyMs state)
            (answer ⟨feature.manifest.name, .ofDict stepInput, {}⟩ world).2

/-- A served step returns its output and records the success. -/
theorem run_of_served {step : Step} {stepInput : Dict String Json} {state : AppState}
    {world : σ} {feature : Feature} {output : Dict String Json} {latencyMs : Rat}
    (served : gateway.Served answer step stepInput state world feature output latencyMs)
    : let call : Dispatch := ⟨feature.manifest.name, .ofDict stepInput, {}⟩
      (gateway.runCapability step.capability stepInput step.vendor step.version).run
          Write.apply answer state world
        = ⟨.ok (some output, none), afterServed feature latencyMs state, (answer call world).2,
            [(call, .result output latencyMs)], []⟩ := by
  obtain ⟨⟨selected, others, found, order⟩, accepted, answered⟩ := served
  simp [runCapability, rankProviders, found, order, accepted, dispatch, record, answered,
    Coroutine.run, afterServed, Write.apply]

/-- A step that returns an output was served. Witness: every other way through the step
returns a message or raises.
-/
theorem served_of_run {step : Step} {stepInput : Dict String Json} {state : AppState}
    {world : σ} {reply : Option (Dict String Json) × Option String}
    {output : Dict String Json}
    (returned
      : ((gateway.runCapability step.capability stepInput step.vendor step.version).run
          Write.apply answer state world).outcome = .ok reply)
    (completed : stepOutcome reply = .ok output)
    : ∃ feature latencyMs,
        gateway.Served answer step stepInput state world feature output latencyMs := by
  have noOutput {message : Option String} : stepOutcome (none, message) ≠ .ok output := by
    obtain ⟨err, ends⟩ := stepOutcome_none message
    simp [ends]
  rw [runCapability, rankProviders_bind_run] at returned
  cases gateway.route step.capability stepInput step.vendor step.version state.store with
  | unranked raised => simp [raised] at returned
  | unprovided empty =>
      simp [empty, Coroutine.run] at returned
      exact absurd completed (returned ▸ noOutput)
  | rejected ranked violations =>
      simp [ranked, violations, Coroutine.run] at returned
      exact absurd completed (returned ▸ noOutput)
  | @dispatched feature others ranked accepted =>
      obtain ⟨selected, found, order⟩ := Option.bind_eq_some_iff.mp ranked
      cases answered : answer ⟨feature.manifest.name, .ofDict stepInput, {}⟩ world with
      | mk result world' =>
          cases result with
          | result given latencyMs =>
              simp [ranked, accepted, dispatch, record, answered, Coroutine.run] at returned
              subst returned
              cases completed
              exact ⟨feature, latencyMs, ⟨selected, others, found, order⟩, accepted,
                by rw [answered]⟩
          | _ =>
              simp [ranked, accepted, dispatch, record, answered, Coroutine.run] at returned
              exact absurd completed (returned ▸ noOutput)

/-- A run has no error iff it completes. Witness: induction on the steps; each step returns an
output iff it is served.
-/
theorem runSteps_succeeds_iff (composite : Composite) (steps : List Step)
    (ctx : Dict String Json) (trace : List TraceEntry) (state : AppState) (world : σ)
    : (∃ result,
        ((Composer.runSteps gateway.runCapability composite steps ctx trace).run
          Write.apply answer state world).outcome = .ok result
        ∧ result.error = none)
      ↔ gateway.Completes answer composite steps ctx state world := by
  induction steps generalizing ctx trace state world with
  | nil =>
      have resolves : (∃ output, resolveRefs ctx composite.output = .ok output)
          ↔ ∀ entry ∈ composite.output.entries, ∃ value, resolveRef ctx entry.2 = .ok value :=
        Dict.mapM_isOk_iff
      rw [Composer.runSteps_nil, Completes, ← resolves]
      cases resolveRefs ctx composite.output with
      | error err => simp [Coroutine.run, Composer.fail]
      | ok output => simp [Coroutine.run]
  | cons step rest ih =>
      cases resolved : resolveRefs ctx step.inputs with
      | error err =>
          rw [Composer.runSteps_unresolved _ _ _ _ resolved]
          simp [Completes, resolved, Coroutine.run, Composer.fail]
      | ok stepInput =>
          rw [Composer.runSteps_resolved _ _ _ _ resolved, Coroutine.run_bind]
          constructor
          · intro succeeds
            rcases succeeds with ⟨result, returned, noError⟩
            cases first : ((gateway.runCapability step.capability stepInput step.vendor
                step.version).run Write.apply answer state world).outcome with
            | error fault => simp [first] at returned
            | ok reply =>
                cases outcome : stepOutcome reply with
                | error err =>
                    simp only [first, outcome] at returned
                    cases returned
                    cases noError
                | ok output =>
                    obtain ⟨feature, latencyMs, served⟩ :=
                      gateway.served_of_run answer first outcome
                    have ran := gateway.run_of_served answer served
                    rw [ran] at first returned
                    simp only [stepOutcome, given] at returned
                    refine ⟨stepInput, feature, output, latencyMs, resolved, served, ?_⟩
                    exact (ih _ _ _ _).mp ⟨result, returned, noError⟩
          · intro completes
            rcases completes with ⟨other, feature, output, latencyMs, same, served, later⟩
            rw [resolved] at same
            cases same
            rw [gateway.run_of_served answer served]
            exact (ih _ _ _ _).mpr later

-----------------------------------------------------------------------------------------
-- A step that targets a composite
-----------------------------------------------------------------------------------------

/-- Running the step succeeds exactly when the composite's run on that input has no error, and
then with its output.
-/
def BehavesAsRun (composite : Composite) (step : Step) (input : Dict String Json)
    (state : AppState) (world : σ)
    : Prop :=
  ∀ output,
    ((gateway.runCapability step.capability input step.vendor step.version).run
        Write.apply answer state world).outcome = .ok (some output, none)
    ↔ ∃ result,
        ((Composer.run gateway.runCapability composite input).run
          Write.apply answer state world).outcome = .ok result
        ∧ result.error = none
        ∧ result.output = output

/-- Without a provider in the catalog no step is served, whatever the registry holds. -/
theorem not_served_of_no_provider {step : Step}
    (noProvider : ∀ feature ∈ gateway.catalog.list, feature.manifest.capability ≠ step.capability)
    (stepInput : Dict String Json) (state : AppState) (world : σ) (feature : Feature)
    (output : Dict String Json) (latencyMs : Rat)
    : ¬ gateway.Served answer step stepInput state world feature output latencyMs := by
  intro served
  rcases served with ⟨⟨selected, others, found, order⟩, -, -⟩
  have member : feature ∈ selected :=
    (gateway.policy.rank_perm _ _ _ order).mem_iff.mp List.mem_cons_self
  rw [← (selectProviders_eq_some_iff.mp found).2] at member
  obtain ⟨listed, satisfies⟩ := List.mem_filter.mp member
  exact noProvider feature listed (of_decide_eq_true satisfies).1.1

/-- A step that targets a composite behaves as its run iff that run does not complete: the step
always fails. Witness: steps are served from the catalog only.
-/
theorem behavesAsRun_iff_not_completes {composite : Composite} {step : Step}
    (targets : step.capability = composite.capability)
    (noProvider
      : ∀ feature ∈ gateway.catalog.list,
          feature.manifest.capability ≠ composite.capability)
    (input : Dict String Json) (state : AppState) (world : σ)
    : gateway.BehavesAsRun answer composite step input state world
      ↔ ¬ gateway.Completes answer composite composite.steps (contextAfter input []) state
          world := by
  have fails (output : Dict String Json)
      : ((gateway.runCapability step.capability input step.vendor step.version).run
          Write.apply answer state world).outcome ≠ .ok (some output, none) := by
    intro returned
    obtain ⟨feature, latencyMs, served⟩ := gateway.served_of_run answer returned rfl
    exact gateway.not_served_of_no_provider answer (targets ▸ noProvider) _ _ _ _ _ _ served
  rw [← gateway.runSteps_succeeds_iff answer composite composite.steps _ [] state world]
  constructor
  · rintro behaves ⟨result, returned, noError⟩
    exact fails result.output ((behaves result.output).mpr ⟨result, returned, noError, rfl⟩)
  · intro never output
    refine iff_of_false (fails output) ?_
    intro succeeds
    rcases succeeds with ⟨result, returned, noError, -⟩
    exact never ⟨result, returned, noError⟩

/-- A composite of one step that a feature serves. -/
def innerComposite : Composite where
  name := "inner"
  capability := "inner"
  steps := [{ name := "said", capability := "echo" }]
  defaultCapability := by decide

/-- A composite whose output reference never resolves. -/
def brokenComposite : Composite where
  name := "broken"
  capability := "broken"
  output := Dict.empty.set "field" "missing.field"
  defaultCapability := by decide

/-- A step that targets a composite whose run fails behaves as that run. -/
theorem brokenComposite_behaves
    : echoGateway.BehavesAsRun emptyResult brokenComposite
        { name := "outer", capability := "broken" } ∅ ⟨∅, Dict.empty.set "broken" brokenComposite⟩
        () := by
  refine (echoGateway.behavesAsRun_iff_not_completes emptyResult rfl ?_ ∅ _ ()).mpr ?_
  · decide
  · intro completes
    obtain ⟨value, resolved⟩ := completes ("field", "missing.field") List.mem_cons_self
    exact absurd (refHead_mem_of_resolveRef resolved) (by decide)

/-- A step that targets a published composite fails although the composite's run succeeds. -/
theorem innerComposite_not_found
    : ¬ ∀ (gateway : Gateway) (composite : Composite) (step : Step) (input : Dict String Json)
        (state : AppState) (σ : Type) (answer : Dispatch → σ → Reply × σ) (world : σ),
        state.composites.get? composite.name = some composite
        → step.capability = composite.capability
        → (∀ feature ∈ gateway.catalog.list, feature.manifest.capability ≠ composite.capability)
        → collectErrors gateway.validator (.ofDict input) composite.inputSchema = []
        → gateway.BehavesAsRun answer composite step input state world := by
  intro all
  have behaves := all echoGateway innerComposite { name := "outer", capability := "inner" } ∅
    ⟨∅, Dict.empty.set "inner" innerComposite⟩ Unit emptyResult () (Dict.get?_set_self ..) rfl
    (by decide) rfl
  have succeeds := (behaves ∅).mpr ⟨_, rfl, rfl, rfl⟩
  have fails : ((echoGateway.runCapability "inner" ∅ none none).run Write.apply emptyResult
      ⟨∅, Dict.empty.set "inner" innerComposite⟩ ()).outcome
        = .ok (none, some "no provider for capability 'inner'") := rfl
  exact nomatch (Except.ok.inj (fails.symm.trans succeeds))

end Gateway

end AgentFeatures
