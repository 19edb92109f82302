import AgentFeatures.Gateway.Dispatches

/-! Which outcomes the gateway records over a run of interleaved requests. -/

namespace AgentFeatures

open Library

/-- One outcome of a feature, as the store records it. -/
structure Outcome where
  featureId : String
  success : Bool
  latencyMs : Rat

/-- The outcome a write records. -/
def Write.outcome? : Write → Option Outcome
  | record featureId success latencyMs => some ⟨featureId, success, latencyMs⟩
  | publish _ => none

/-- What a reply counts as: a success with its latency, a failure, or nothing. -/
def Reply.outcome? : Reply → Option (Bool × Rat)
  | result _ latencyMs => some (true, latencyMs)
  | unavailable _ => some (false, 0)
  | inputError _ => none

/-- The store with one more outcome. -/
def recordOutcome (outcome : Outcome) (store : MetricsStore) : MetricsStore :=
  store.record outcome.featureId outcome.success outcome.latencyMs

/-- Replaying outcomes counts them by feature and by success. Witness: induction on the
outcomes, each counted at its own feature.
-/
theorem metrics_replay (outcomes : List Outcome) (store : MetricsStore) (fid : String)
    : let replayed := outcomes.foldl (fun store outcome => recordOutcome outcome store) store
      (replayed.metrics fid).invocations
          = (store.metrics fid).invocations
            + outcomes.countP (fun outcome => outcome.featureId = fid)
      ∧ (replayed.metrics fid).successes
          = (store.metrics fid).successes
            + outcomes.countP (fun outcome => outcome.featureId = fid ∧ outcome.success) := by
  induction outcomes generalizing store with
  | nil => simp
  | cons outcome rest ih =>
      have recorded := MetricsStore.metrics_record store outcome.featureId fid
        outcome.success outcome.latencyMs
      simp only [List.foldl_cons, List.countP_cons, ih]
      simp only [recordOutcome, recorded]
      by_cases here : outcome.featureId = fid
      · subst here
        cases outcome.success <;> simp [FeatureMetrics.counted] <;> omega
      · have elsewhere : fid ≠ outcome.featureId := fun same => here same.symm
        simp [here, elsewhere]

namespace Gateway

variable (gateway : Gateway)

/-- The feature id a dispatch goes to. -/
def dispatchedId (dispatch : Dispatch) : Option String :=
  (gateway.catalog.get dispatch.feature).map featureId

/-- The outcome to record for a dispatch and its reply. -/
def owed (dispatch : Dispatch) (reply : Reply) : List Outcome :=
  match reply.outcome? with
  | none => []
  | some (success, latencyMs) =>
      (gateway.dispatchedId dispatch).toList.map fun fid => ⟨fid, success, latencyMs⟩

/-- What a request records for a reply: the outcome, except on the MCP face. -/
def settle (request : Request) (dispatch : Dispatch) (reply : Reply) : List Outcome :=
  if request.isMcp then [] else gateway.owed dispatch reply

-----------------------------------------------------------------------------------------
-- What each handler records
-----------------------------------------------------------------------------------------

/-- For a feature of the catalog, the outcome is recorded under its id. -/
theorem owed_of_listed {feature : Feature} (listed : gateway.Listed feature) (payload : Json)
    (context : RequestContext) {reply : Reply} {success : Bool} {latencyMs : Rat}
    (counts : reply.outcome? = some (success, latencyMs))
    : gateway.owed ⟨feature.manifest.name, payload, context⟩ reply
      = [⟨featureId feature, success, latencyMs⟩] := by
  have found : gateway.catalog.get feature.manifest.name = some feature := listed
  simp [owed, counts, dispatchedId, found]

/-- A handler that writes what its reply owes, and nothing after it, settles it. -/
theorem settles_record {α : Type} {feature : Feature} (listed : gateway.Listed feature)
    (payload : Json) (context : RequestContext) {reply : Reply} {success : Bool}
    {latencyMs : Rat} (counts : reply.outcome? = some (success, latencyMs))
    {next : Handler α} (quiet : next.Settles Write.outcome? gateway.owed [])
    : Coroutine.Settles Write.outcome? gateway.owed
        (gateway.owed ⟨feature.manifest.name, payload, context⟩ reply)
        (.write (.record (featureId feature) success latencyMs) next) :=
  ⟨[], gateway.owed_of_listed listed payload context counts, quiet⟩

/-- Ranking providers records nothing. -/
theorem rankProviders_settles (settle : Dispatch → Reply → List Outcome)
    (capability : String) (vendor version : Option String)
    : (gateway.rankProviders capability vendor version).Settles Write.outcome? settle [] := by
  unfold rankProviders
  split
  · rfl
  · intro state
    dsimp only
    split <;> rfl

/-- The shared dispatch of the two REST faces records its outcome. -/
theorem invoke_settles {feature : Feature} (listed : gateway.Listed feature)
    (body : InvokeRequest)
    : (gateway.invoke feature body).Settles Write.outcome? gateway.owed [] := by
  simp only [invoke]
  split
  · rfl
  · refine ⟨rfl, ?_⟩
    intro reply
    cases reply with
    | inputError message => rfl
    | unavailable message => exact gateway.settles_record listed _ _ rfl rfl
    | result output latencyMs => exact gateway.settles_record listed _ _ rfl rfl

theorem invokeFeature_settles (name : String) (body : InvokeRequest)
    : (gateway.invokeFeature name body).Settles Write.outcome? gateway.owed [] := by
  unfold invokeFeature
  split
  · rfl
  · next feature found => exact gateway.invoke_settles (gateway.listed_of_get found) body

theorem invokeCapability_settles (capability : String) (body : InvokeRequest)
    (vendor version : Option String)
    : (gateway.invokeCapability capability body vendor version).Settles
        Write.outcome? gateway.owed [] := by
  refine (gateway.rankProviders_settles _ capability vendor version).bind_of_returns
    (gateway.rankProviders_returns capability vendor version) fun ranked listed => ?_
  cases ranked with
  | nil => rfl
  | cons feature others =>
      exact gateway.invoke_settles (listed feature List.mem_cons_self) body

theorem runCapability_settles (capability : String) (input : Dict String Json)
    (vendor version : Option String)
    : (gateway.runCapability capability input vendor version).Settles
        Write.outcome? gateway.owed [] := by
  refine (gateway.rankProviders_settles _ capability vendor version).bind_of_returns
    (gateway.rankProviders_returns capability vendor version) fun ranked listed => ?_
  cases ranked with
  | nil => rfl
  | cons feature others =>
      have here := listed feature List.mem_cons_self
      dsimp only
      split
      · rfl
      · refine ⟨rfl, ?_⟩
        intro reply
        cases reply with
        | inputError message => rfl
        | unavailable message => exact gateway.settles_record here _ _ rfl rfl
        | result output latencyMs => exact gateway.settles_record here _ _ rfl rfl

/-- Every step of a composite records its outcome. -/
theorem invokeComposite_settles (name : String) (body : InvokeRequest)
    : (gateway.invokeComposite name body).Settles Write.outcome? gateway.owed [] := by
  intro state
  dsimp only
  split
  · rfl
  · split
    · rfl
    · exact Composer.runSteps_closed
        (fun {_} program => Coroutine.Settles Write.outcome? gateway.owed [] program)
        (fun _ => by rfl) (fun first later => first.bind later)
        gateway.runCapability_settles _ _ _ _

theorem sayAll_settles (settle : Dispatch → Reply → List Outcome) (events : List ChatEvent)
    : (sayAll events).Settles Write.outcome? settle [] := by
  induction events with
  | nil => rfl
  | cons event events ih => exact ⟨rfl, ih⟩

theorem chatFeature_settles (settle : Dispatch → Reply → List Outcome) (head : Text)
    : (gateway.chatFeature head).Settles Write.outcome? settle [] := by
  unfold chatFeature
  split
  · refine ⟨rfl, ?_⟩
    refine (gateway.rankProviders_settles settle _ none none).bind fun ranked => ?_
    cases ranked with
    | nil => exact ⟨rfl, rfl⟩
    | cons feature others => rfl
  · split
    · exact ⟨rfl, rfl⟩
    · rfl

/-- The chat records the outcome of its dispatch before it streams it. -/
theorem chatInvoke_settles {feature : Feature} (listed : gateway.Listed feature)
    (payload : Json)
    : (gateway.chatInvoke feature payload).Settles Write.outcome? gateway.owed [] := by
  unfold chatInvoke
  refine ⟨rfl, ?_⟩
  cases gateway.inputErrors feature payload with
  | cons error errors => exact ⟨rfl, rfl⟩
  | nil =>
      refine ⟨rfl, ?_⟩
      intro reply
      cases reply with
      | inputError message => exact ⟨rfl, rfl⟩
      | unavailable message => exact gateway.settles_record listed _ _ rfl ⟨rfl, rfl⟩
      | result output latencyMs => exact gateway.settles_record listed _ _ rfl ⟨rfl, rfl⟩

theorem chat_settles (text : String)
    : (gateway.chat text).Settles Write.outcome? gateway.owed [] := by
  unfold chat
  dsimp only
  split
  · exact sayAll_settles _ _
  · split
    · exact sayAll_settles _ _
    · split
      · exact ⟨rfl, rfl⟩
      · refine (gateway.chatFeature_settles _ _).bind_of_returns
          (gateway.chatFeature_returns _) fun found named => ?_
        cases found with
        | none => rfl
        | some feature => exact gateway.chatInvoke_settles (named feature rfl).1 _

/-- The MCP face records nothing, whatever its dispatch ends in. -/
theorem mcp_settles (message : Json)
    : (Mcp.handle gateway message).Settles Write.outcome? (fun _ _ => []) [] := by
  unfold Mcp.handle
  split
  · split
    · rfl
    · split
      · rfl
      · split
        · rfl
        · split
          · refine Coroutine.Settles.map some ?_
            unfold Mcp.call
            split
            · split
              · rfl
              · rfl
              · unfold Mcp.invokeTool
                split
                · rfl
                · refine ⟨rfl, ?_⟩
                  intro reply
                  cases reply <;> rfl
            · rfl
          · rfl
  · rfl

/-- Every request records exactly what it settles. Witness: the handlers one by one. -/
theorem serve_settles (request : Request)
    : (gateway.serve request).Settles Write.outcome? (gateway.settle request) [] := by
  cases request with
  | invokeFeature name body => exact (gateway.invokeFeature_settles name body).map _
  | invokeCapability capability body vendor version =>
      exact (gateway.invokeCapability_settles capability body vendor version).map _
  | invokeComposite name body => exact (gateway.invokeComposite_settles name body).map _
  | compose spec => rfl
  | chat text => exact (gateway.chat_settles text).map _
  | mcp message => exact (gateway.mcp_settles message).map _

-----------------------------------------------------------------------------------------
-- Counters over whole runs
-----------------------------------------------------------------------------------------

/-- An answered dispatch of the feature that ended in one of the outcomes looked at. -/
def endedIn (fid : String) (successes : Bool → Bool) (answered : Request × Dispatch × Reply)
    : Bool :=
  gateway.dispatchedId answered.2.1 = some fid
    && answered.2.2.outcome?.any fun outcome => successes outcome.1

/-- An answered dispatch of the feature that ended in a result or in `FeatureUnavailable`. -/
def ended (fid : String) : Request × Dispatch × Reply → Bool :=
  gateway.endedIn fid fun _ => true

/-- An answered dispatch of the feature that ended in a result. -/
def succeeded (fid : String) : Request × Dispatch × Reply → Bool := gateway.endedIn fid id

/-- The counters of every feature are those of its answered dispatches. -/
def CountersMatch (pool : Pool Request AppState Write ChatEvent Dispatch Reply Fault Response)
    : Prop :=
  ∀ fid,
    (pool.state.store.metrics fid).invocations = pool.history.countP (gateway.ended fid)
    ∧ (pool.state.store.metrics fid).successes = pool.history.countP (gateway.succeeded fid)

/-- No `tools/call` dispatch ended in a result or in `FeatureUnavailable`. -/
def NoMcpOutcome (pool : Pool Request AppState Write ChatEvent Dispatch Reply Fault Response)
    : Prop :=
  ∀ answered ∈ pool.history, answered.1.isMcp → answered.2.2.outcome? = none

/-- The action neither is nor brings the result or unavailability of a dispatch: requests
arrive, are rejected or stream, or a feature rejects its input.
-/
def Quiet : Action Request Reply → Prop
  | .reply _ answer => answer.outcome? = none
  | _ => True

/-- What is settled and what the MCP face leaves out make up the ended dispatches. Witness:
induction on the history.
-/
theorem count_settlements (fid : String) (successes : Bool → Bool)
    (history : List (Request × Dispatch × Reply))
    : (System.settlements gateway.settle history).countP
          (fun outcome => outcome.featureId = fid ∧ successes outcome.success)
        + history.countP
            (fun answered => answered.1.isMcp && gateway.endedIn fid successes answered)
      = history.countP (gateway.endedIn fid successes) := by
  induction history with
  | nil => rfl
  | cons answered rest ih =>
      obtain ⟨request, dispatch, reply⟩ := answered
      simp only [System.settlements, List.flatMap_cons, List.countP_append, List.countP_cons]
        at ih ⊢
      have here : (gateway.settle request dispatch reply).countP
            (fun outcome => outcome.featureId = fid ∧ successes outcome.success)
          + (if request.isMcp && gateway.endedIn fid successes (request, dispatch, reply)
              then 1 else 0)
          = if gateway.endedIn fid successes (request, dispatch, reply) then 1 else 0 := by
        cases mcp : request.isMcp with
        | true => simp [settle, mcp]
        | false =>
            cases outcome : reply.outcome? with
            | none => simp [settle, mcp, owed, endedIn, outcome]
            | some outcome =>
                cases sent : gateway.dispatchedId dispatch with
                | none => simp [settle, mcp, owed, endedIn, outcome, sent]
                | some other => simp [settle, mcp, owed, endedIn, outcome, sent]
      omega

/-- Of the shared state, the store sees the recorded outcomes only. -/
theorem store_observes
    : Coroutine.Observes gateway.system.apply Write.outcome? AppState.store recordOutcome := by
  intro change state
  cases change <;> rfl

/-- The counters miss exactly the dispatches that ended on the MCP face. Witness: the store
replays the settlements of the history.
-/
theorem counters_of_reaches {composites : Dict String Composite}
    {pool : Pool Request AppState Write ChatEvent Dispatch Reply Fault Response}
    (run : gateway.system.Reaches (start composites) pool) (fid : String)
    : (pool.state.store.metrics fid).invocations
          + pool.history.countP
              (fun answered => answered.1.isMcp && gateway.ended fid answered)
        = pool.history.countP (gateway.ended fid)
      ∧ (pool.state.store.metrics fid).successes
          + pool.history.countP
              (fun answered => answered.1.isMcp && gateway.succeeded fid answered)
        = pool.history.countP (gateway.succeeded fid) := by
  have replayed := (System.Reaches.replay gateway.store_observes gateway.serve_settles run).2
  have counted := metrics_replay (System.settlements gateway.settle pool.history) ∅ fid
  have zero : MetricsStore.metrics ∅ fid = {} := rfl
  have all := gateway.count_settlements fid (fun _ => true) pool.history
  have successful := gateway.count_settlements fid id pool.history
  rw [replayed]
  simp only [zero, Nat.zero_add] at counted
  refine ⟨?_, ?_⟩
  · simpa [ended, start, Pool.initial, counted.1] using all
  · simpa [succeeded, start, Pool.initial, counted.2] using successful

/-- Quiet steps leave the store alone. Witness: such a step answers nothing that counts. -/
theorem store_of_quiet {composites : Dict String Composite}
    {pool next : Pool Request AppState Write ChatEvent Dispatch Reply Fault Response}
    (run : gateway.system.Reaches (start composites) pool) {action : Action Request Reply}
    (quiet : Quiet action) (taken : gateway.system.step? action pool = some next)
    : next.state.store = pool.state.store := by
  have tasks := (System.Reaches.replay gateway.store_observes gateway.serve_settles run).1
  obtain ⟨-, answered, history, recorded⟩ :=
    System.step_records gateway.store_observes gateway.serve_settles tasks taken
  have unanswered : System.settlements gateway.settle answered = [] := by
    rcases System.step?_cases taken with
      ⟨request, rfl, rfl⟩ | ⟨index, request, event, rest, rfl, found, rfl⟩
        | ⟨index, request, dispatch, rest, reply, rfl, found, rfl⟩
    · rw [List.append_cancel_left history.symm]
      rfl
    · rw [List.append_cancel_left history.symm]
      rfl
    · have silent : reply.outcome? = none := quiet
      rw [List.append_cancel_left history.symm]
      simp [System.settlements, settle, owed, silent]
  rw [recorded, unanswered, List.foldl_nil]

/-- The counters match in a state of a run iff no `tools/call` has ended in a result or in
`FeatureUnavailable` by then; and only the end of a dispatch changes any counter. Witness: the
difference is the count of the dispatches that ended on the MCP face.
-/
theorem countersMatch_iff_noMcpOutcome {composites : Dict String Composite}
    {pool : Pool Request AppState Write ChatEvent Dispatch Reply Fault Response}
    (run : gateway.system.Reaches (start composites) pool)
    : (gateway.CountersMatch pool ↔ NoMcpOutcome pool)
      ∧ ∀ action next,
          Quiet action
          → gateway.system.step? action pool = some next
          → next.state.store = pool.state.store := by
  refine ⟨?_, fun action next quiet taken => gateway.store_of_quiet run quiet taken⟩
  have checked := (System.Reaches.issued gateway.serve_allCalls run).2.2
  constructor
  · intro matched answered member isMcp
    by_contra counts
    obtain ⟨feature, found, -⟩ := checked answered member
    have missed := (gateway.counters_of_reaches run (featureId feature)).1
    rw [(matched (featureId feature)).1, Nat.add_eq_left, List.countP_eq_zero] at missed
    have ended : gateway.ended (featureId feature) answered := by
      have some := Option.isSome_iff_ne_none.mpr counts
      obtain ⟨outcome, shape⟩ := Option.isSome_iff_exists.mp some
      simp [ended, endedIn, dispatchedId, found, shape]
    exact missed answered member (by simp [isMcp, ended])
  · intro none fid
    obtain ⟨all, successful⟩ := gateway.counters_of_reaches run fid
    have unmissed (successes : Bool → Bool)
        : pool.history.countP
            (fun answered => answered.1.isMcp && gateway.endedIn fid successes answered) = 0 := by
      refine List.countP_eq_zero.mpr fun answered member missed => ?_
      obtain ⟨isMcp, ended⟩ := Bool.and_eq_true_iff.mp missed
      simp [endedIn, none answered member isMcp] at ended
    rw [ended, unmissed, Nat.add_zero] at all
    rw [succeeded, unmissed, Nat.add_zero] at successful
    exact ⟨all, successful⟩

/-- A feature invoked over REST, with a result. -/
def restCall : List (Action Request Reply) :=
  [.arrive (.invokeFeature "echo" {}), .reply 0 (.result ∅ 1)]

/-- The counters match after a call over REST. -/
theorem countersMatch_restCall
    : ∃ pool,
        echoGateway.system.play restCall (start ∅) = some pool
        ∧ echoGateway.CountersMatch pool := by
  obtain ⟨pool, played⟩ := Option.isSome_iff_exists.mp
    (show (echoGateway.system.play restCall (start ∅)).isSome by decide)
  have history : (echoGateway.system.play restCall (start ∅)).map Pool.history
      = some [(.invokeFeature "echo" {}, ⟨"echo", .ofDict ∅, {}⟩, .result ∅ 1)] := rfl
  rw [played] at history
  have noMcp : NoMcpOutcome pool := by
    intro answered member isMcp
    rw [Option.some.inj history, List.mem_singleton] at member
    subst member
    cases isMcp
  have run := System.reaches_of_play played
  exact ⟨pool, played, (echoGateway.countersMatch_iff_noMcpOutcome run).1.mpr noMcp⟩

/-- The same feature called as a tool over MCP, with a result. -/
def mcpCall : List (Action Request Reply) :=
  [.arrive (.mcp (.obj [("method", .str "tools/call"), ("id", .int 1),
      ("params", .obj [("name", .str "echo")])])),
    .reply 0 (.result ∅ 1)]

/-- A call over MCP that ended in a result is not counted. -/
theorem mcpCall_not_counted
    : ¬ ∀ (gateway : Gateway) (composites : Dict String Composite)
        (pool : Pool Request AppState Write ChatEvent Dispatch Reply Fault Response),
        gateway.system.Reaches (start composites) pool → gateway.CountersMatch pool := by
  intro all
  obtain ⟨pool, played⟩ := Option.isSome_iff_exists.mp
    (show (echoGateway.system.play mcpCall (start ∅)).isSome by decide)
  have counts : (echoGateway.system.play mcpCall (start ∅)).map
      (fun pool => ((pool.state.store.metrics "acme/echo@1.0.0").invocations,
        pool.history.countP (echoGateway.ended "acme/echo@1.0.0"))) = some (0, 1) := by
    decide
  rw [played] at counts
  obtain ⟨recorded, ended⟩ := Prod.mk.inj (Option.some.inj counts)
  have matched := (all echoGateway ∅ pool (System.reaches_of_play played)
    "acme/echo@1.0.0").1
  omega

end Gateway

end AgentFeatures
