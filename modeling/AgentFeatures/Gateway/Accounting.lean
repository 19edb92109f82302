import AgentFeatures.Gateway.Server
import AgentFeatures.Library.Ledger

/-! What the invoker answers and what the callers are told, over whole runs. -/

namespace AgentFeatures

open Library

/-- What came of one dispatch. -/
inductive Receipt where
  | output (feature : String) (output : Dict String Json) (latencyMs : Rat)
  | rejected
  | unavailable

/-- What a reply to a dispatch of the feature comes to. -/
def Reply.receipt (feature : String) : Reply → Receipt
  | result output latencyMs => .output feature output latencyMs
  | inputError _ => .rejected
  | unavailable _ => .unavailable

/-- The outputs of a reply. -/
def Reply.outputs : Reply → Multiset (Dict String Json)
  | result output _ => {output}
  | _ => 0

namespace Request

/-- The request invokes one feature or one capability over REST. -/
def isDirect : Request → Bool
  | invokeFeature _ _ => true
  | invokeCapability _ _ _ _ => true
  | _ => false

/-- The request invokes a composite. -/
def isComposite : Request → Bool
  | invokeComposite _ _ => true
  | _ => false

end Request

namespace Gateway

/-- What the end of a direct call tells its caller about a dispatch; nothing when the call
fails before it.
-/
def told : Except Fault Response → Multiset Receipt
  | .ok (.invoked response) => {.output response.feature response.output response.latencyMs}
  | .error (.http 503 _) => {.unavailable}
  | .error (.http 422 (.text _)) => {.rejected}
  | _ => 0

/-- Direct calls: each answer is due at the end of the call, which follows at once. -/
def directAccount (request : Request)
    : Account Dispatch Reply Fault Response (Multiset (Request × Receipt)) where
  due dispatch reply :=
    if request.isDirect then {(request, reply.receipt dispatch.feature)} else 0
  pays outcome := if request.isDirect then (told outcome).map (Prod.mk request) else 0
  carries := False
  excuses _ := False

/-- The outputs in the trace of a composite's result. -/
def traced (trace : List TraceEntry) : Multiset (Dict String Json) :=
  (trace.map TraceEntry.output : List (Dict String Json))

/-- Composites: each output is due in the trace of the result, except when a version text
raises in the middle of the run.
-/
def compositeAccount (request : Request)
    : Account Dispatch Reply Fault Response (Multiset (Request × Dict String Json)) where
  due _ reply := if request.isComposite then reply.outputs.map (Prod.mk request) else 0
  pays
    | .ok (.composed result) =>
        if request.isComposite then (traced result.trace).map (Prod.mk request) else 0
    | _ => 0
  carries := request.isComposite
  excuses fault := request.isComposite ∧ fault = .uncaught

variable (gateway : Gateway)

-----------------------------------------------------------------------------------------
-- Direct calls
-----------------------------------------------------------------------------------------

/-- Once a feature is chosen, a direct call tells what came of its one dispatch. -/
theorem invoke_balances {request : Request} (direct : request.isDirect = true)
    (feature : Feature) (body : InvokeRequest)
    : (gateway.invoke feature body).Balances
        ((directAccount request).until fun response =>
          (directAccount request).pays (.ok (.invoked response))) 0 := by
  simp only [invoke]
  split
  · exact Or.inr (by simp [Account.until, directAccount, told])
  · refine ⟨Or.inr rfl, fun reply => ?_⟩
    cases reply with
    | inputError message =>
        exact Or.inr (by simp [Account.until, directAccount, told, direct, Reply.receipt])
    | unavailable message =>
        exact Or.inr (by simp [Account.until, directAccount, told, direct, Reply.receipt])
    | result output latencyMs =>
        change (directAccount request).pays (.ok (.invoked _)) = _
        simp [Account.until, directAccount, told, direct, Reply.receipt]

/-- Ranking providers leaves nothing to pay, whatever its end pays. -/
theorem rankProviders_balances {β M : Type} [AddCommMonoid M]
    {account : Account Dispatch Reply Fault β M} {owed : M}
    (uncaught : account.excuses .uncaught ∨ account.pays (.error .uncaught) = owed)
    (capability : String) (vendor version : Option String)
    : (gateway.rankProviders capability vendor version).Balances
        (account.until fun _ => owed) owed := by
  unfold rankProviders
  split
  · exact uncaught
  · intro state
    dsimp only
    split
    · exact uncaught
    · rfl

/-- A direct call tells its caller what came of its dispatch, and of nothing else. -/
theorem serve_balances_direct (request : Request)
    : (gateway.serve request).Balances (directAccount request) 0 := by
  cases request with
  | invokeFeature name body =>
      refine Coroutine.Balances.map ?_
      unfold invokeFeature
      split
      · exact Or.inr (by simp [Account.until, directAccount, told])
      · exact gateway.invoke_balances rfl _ body
  | invokeCapability capability body vendor version =>
      refine Coroutine.Balances.map ?_
      refine (gateway.rankProviders_balances (Or.inr ?_) capability vendor version).bind
        fun ranked => ?_
      · simp [Account.until, directAccount, told]
      · cases ranked with
        | nil => exact Or.inr (by simp [Account.until, directAccount, told])
        | cons feature others => exact gateway.invoke_balances rfl feature body
  | _ => exact Coroutine.Balances.idle (fun _ _ => rfl) (fun _ => rfl) _

/-- In every run, at every moment and in any interleaving, what the callers of features and
capabilities were told is what the invoker answered to their dispatches, one by one: every
result is delivered once, with its feature and latency, every rejection is a 422 and every
unavailability a 503, and no caller is told of an outcome that did not happen.
-/
theorem directCalls_accounted (state : AppState)
    : ∀ pool,
        gateway.system.Reaches (.initial state) pool
        → System.totalPaid directAccount pool = System.totalDue directAccount pool := by
  intro pool run
  refine run.totalPaid_eq gateway.serve_balances_direct fun task _ => ?_
  cases task.2.ended? with
  | none => exact fun carries => carries
  | some outcome => cases outcome <;> simp [directAccount]

/-- Two calls of one feature, answered in the other order: a result and an unavailability. -/
def crossedCalls : List (Action Request Reply) :=
  [.arrive (.invokeFeature "echo" {}), .arrive (.invokeFeature "echo" {}),
    .reply 1 (.result ∅ 1), .reply 0 (.unavailable "down")]

/-- The crossed calls are accounted for. -/
theorem directCalls_accounted_crossed
    : ∃ pool,
        echoGateway.system.play crossedCalls (start ∅) = some pool
        ∧ System.totalPaid directAccount pool = System.totalDue directAccount pool := by
  obtain ⟨pool, played⟩ := Option.isSome_iff_exists.mp
    (show (echoGateway.system.play crossedCalls (start ∅)).isSome by decide)
  exact ⟨pool, played,
    echoGateway.directCalls_accounted ⟨∅, ∅⟩ pool (System.reaches_of_play played)⟩

-----------------------------------------------------------------------------------------
-- Composites
-----------------------------------------------------------------------------------------

/-- What the reply of a step earns for the trace. -/
def earned (reply : Option (Dict String Json) × Option String)
    : Multiset (Dict String Json) :=
  match stepOutcome reply with
  | .ok output => {output}
  | .error _ => 0

/-- A failed step earns nothing. -/
theorem earned_none (message : Option String) : earned (none, message) = 0 := by
  obtain ⟨err, failed⟩ := stepOutcome_none message
  rw [earned, failed]

section Steps

variable {gateway} {request : Request} (composite : request.isComposite = true)

/-- The account of the composer's loop: the result pays its trace. -/
abbrev traceAccount (request : Request)
    : Account Dispatch Reply Fault CompositeResult (Multiset (Request × Dict String Json)) :=
  (compositeAccount request).until fun result => (traced result.trace).map (Prod.mk request)

include composite in
/-- A step earns the outputs of the one reply it gets. -/
theorem runCapability_balances (owed : Multiset (Request × Dict String Json))
    (capability : String) (input : Dict String Json) (vendor version : Option String)
    : (gateway.runCapability capability input vendor version).Balances
        ((traceAccount request).until fun reply =>
          owed + (earned reply).map (Prod.mk request)) owed := by
  have excused : ((traceAccount request).until fun reply =>
      owed + (earned reply).map (Prod.mk request)).excuses .uncaught := ⟨composite, rfl⟩
  refine (gateway.rankProviders_balances (Or.inl excused) capability vendor version).bind
    fun ranked => ?_
  have missed (message : Option String)
      : owed + (earned (none, message)).map (Prod.mk request) = owed := by
    rw [earned_none, Multiset.map_zero, add_zero]
  cases ranked with
  | nil => exact missed _
  | cons feature others =>
      dsimp only
      split
      · exact missed _
      · refine ⟨Or.inl composite, fun reply => ?_⟩
        cases reply with
        | inputError message =>
            change owed + _ = owed + _
            simp [earned_none, compositeAccount, composite, Reply.outputs, Account.until]
        | unavailable message =>
            change owed + _ = owed + _
            simp [earned_none, compositeAccount, composite, Reply.outputs, Account.until]
        | result output latencyMs =>
            change owed + _ = owed + _
            simp [earned, stepOutcome, given, compositeAccount, composite, Reply.outputs,
              Account.until]

include composite in
/-- The loop pays in its trace what its steps earned. Witness: induction on the steps; the
trace so far is what is owed.
-/
theorem runSteps_balances (spec : Composite) (steps : List Step) (ctx : Dict String Json)
    (trace : List TraceEntry)
    : (Composer.runSteps gateway.runCapability spec steps ctx trace).Balances
        (traceAccount request) ((traced trace).map (Prod.mk request)) := by
  induction steps generalizing ctx trace with
  | nil =>
      rw [Composer.runSteps_nil]
      split <;> rfl
  | cons step rest ih =>
      cases resolved : resolveRefs ctx step.inputs with
      | error err =>
          rw [Composer.runSteps_unresolved _ _ _ _ resolved]
          rfl
      | ok stepInput =>
          rw [Composer.runSteps_resolved _ _ _ _ resolved]
          refine (runCapability_balances composite _ _ _ _ _).bind fun reply => ?_
          split
          · next err failed =>
              simp only [earned, failed, Multiset.map_zero, add_zero]
              rfl
          · next output completed =>
              have later := ih (ctx.set step.name (.ofDict output))
                (trace ++ [⟨step.name, step.capability, output⟩])
              have longer : traced (trace ++ [⟨step.name, step.capability, output⟩])
                  = traced trace + {output} := by
                simp [traced, ← Multiset.coe_add]
              rw [longer, Multiset.map_add] at later
              simpa only [earned, completed] using later

end Steps

/-- A composite pays in the trace of its result what its steps earned. -/
theorem serve_balances_composite (request : Request)
    : (gateway.serve request).Balances (compositeAccount request) 0 := by
  cases request with
  | invokeComposite name body =>
      refine Coroutine.Balances.map ?_
      intro state
      dsimp only
      split
      · exact Or.inr rfl
      · split
        · exact Or.inr rfl
        · exact runSteps_balances rfl _ _ _ []
  | _ =>
      refine Coroutine.Balances.idle (fun _ _ => rfl) (fun outcome => ?_) _
      rcases outcome with fault | response
      · rfl
      · cases response <;> rfl

/-- The invocations of composites have ended, none in the middle of its run. -/
def CompositesEnded
    (pool : Pool Request AppState Write ChatEvent Dispatch Reply Fault Response)
    : Prop :=
  ∀ task ∈ pool.tasks,
    task.1.isComposite
    → ∃ outcome ∈ task.2.ended?, ∀ fault, outcome = .error fault → fault ≠ .uncaught

/-- In every run and any interleaving the traces that callers of composites got never hold more
than the outputs the invoker gave to their steps, with repetitions, and exactly these once the
composites have ended.
-/
theorem compositeTraces_accounted (state : AppState)
    : ∀ pool,
        gateway.system.Reaches (.initial state) pool
        → System.totalPaid compositeAccount pool ≤ System.totalDue compositeAccount pool
          ∧ (CompositesEnded pool
              → System.totalPaid compositeAccount pool
                = System.totalDue compositeAccount pool) := by
  intro pool run
  constructor
  · exact run.totalPaid_le gateway.serve_balances_composite fun _ _ _ => rfl
  · intro ended
    refine run.totalPaid_eq gateway.serve_balances_composite fun task member => ?_
    cases composite : task.1.isComposite with
    | false =>
        cases task.2.ended? with
        | none => simp [compositeAccount, composite]
        | some outcome => cases outcome <;> simp [compositeAccount, composite]
    | true =>
        obtain ⟨outcome, known, caught⟩ := ended task member composite
        rw [Option.mem_def.mp known]
        cases outcome with
        | ok response => trivial
        | error fault => exact fun excused => caught fault rfl excused.2

/-- A composite of one step. -/
def echoComposite : Composite where
  name := "once"
  capability := "once"
  steps := [{ name := "first", capability := "echo" }]
  defaultCapability := by decide

/-- The composite is published and invoked, and its step is answered. -/
def compositeCall : List (Action Request Reply) :=
  [.arrive (.compose echoComposite), .arrive (.invokeComposite "once" {}),
    .reply 1 (.result ∅ 1)]

/-- The trace of the answered composite is accounted for. -/
theorem compositeTraces_accounted_echo
    : ∃ pool,
        echoGateway.system.play compositeCall (start ∅) = some pool
        ∧ System.totalPaid compositeAccount pool = System.totalDue compositeAccount pool := by
  obtain ⟨pool, played⟩ := Option.isSome_iff_exists.mp
    (show (echoGateway.system.play compositeCall (start ∅)).isSome by decide)
  have ends : (echoGateway.system.play compositeCall (start ∅)).map
      (fun pool => pool.tasks.map fun task => task.2.ended?.map Except.isOk)
      = some [some true, some true] := by decide
  rw [played, Option.map_some, Option.some.injEq] at ends
  have returned : ∀ task ∈ pool.tasks, task.2.ended?.map Except.isOk = some true := by
    intro task member
    have seen : task.2.ended?.map Except.isOk
        ∈ pool.tasks.map fun task => task.2.ended?.map Except.isOk :=
      List.mem_map.mpr ⟨task, member, rfl⟩
    rw [ends] at seen
    simpa using seen
  refine ⟨pool, played, (echoGateway.compositeTraces_accounted ⟨∅, ∅⟩ pool
    (System.reaches_of_play played)).2 fun task member _ => ?_⟩
  obtain ⟨outcome, known, ok⟩ := Option.map_eq_some_iff.mp (returned task member)
  refine ⟨outcome, known, fun fault raised => ?_⟩
  rw [raised] at ok
  cases ok

end Gateway

end AgentFeatures
