import AgentFeatures.Gateway.AppRuns

/-! The composite registry over whole runs: the last publication under each name. -/

namespace AgentFeatures

open Library

/-- The composite a write publishes. -/
def Write.published? : Write → Option Composite
  | publish composite => some composite
  | record _ _ _ => none

/-- The registry with one more composite. -/
def register (composite : Composite) (registry : Dict String Composite)
    : Dict String Composite :=
  registry.set composite.name composite

/-- The registry after some publications. -/
def registered (publications : List Composite) (registry : Dict String Composite)
    : Dict String Composite :=
  publications.foldl (fun registry composite => register composite registry) registry

/-- The composites a request publishes when it arrives. -/
def Request.publications : Request → List Composite
  | compose spec => [spec]
  | _ => []

namespace Gateway

variable (gateway : Gateway)

-----------------------------------------------------------------------------------------
-- Only publishing writes the registry
-----------------------------------------------------------------------------------------

/-- The write is one to the metrics. -/
abbrev Records (change : Write) : Prop := change.published? = none

theorem rankProviders_records (capability : String) (vendor version : Option String)
    : (gateway.rankProviders capability vendor version).AllWrites Records := by
  unfold rankProviders
  split
  · trivial
  · intro state
    dsimp only
    split <;> trivial

theorem invoke_records (feature : Feature) (body : InvokeRequest)
    : (gateway.invoke feature body).AllWrites Records := by
  simp only [invoke]
  split
  · trivial
  · intro reply
    cases reply with
    | inputError message => trivial
    | _ => exact ⟨rfl, trivial⟩

theorem runCapability_records (capability : String) (input : Dict String Json)
    (vendor version : Option String)
    : (gateway.runCapability capability input vendor version).AllWrites Records := by
  refine (gateway.rankProviders_records capability vendor version).bind fun ranked => ?_
  cases ranked with
  | nil => trivial
  | cons feature others =>
      dsimp only
      split
      · trivial
      · intro reply
        cases reply with
        | inputError message => trivial
        | _ => exact ⟨rfl, trivial⟩

theorem sayAll_records (events : List ChatEvent) : (sayAll events).AllWrites Records := by
  induction events with
  | nil => trivial
  | cons event events ih => exact ih

theorem chat_records (text : String) : (gateway.chat text).AllWrites Records := by
  unfold chat
  dsimp only
  split
  · exact sayAll_records _
  · split
    · exact sayAll_records _
    · split
      · trivial
      · refine Coroutine.AllWrites.bind ?_ fun found => ?_
        · unfold chatFeature
          split
          · refine (gateway.rankProviders_records _ none none).bind fun ranked => ?_
            cases ranked <;> trivial
          · split <;> trivial
        · cases found with
          | none => trivial
          | some feature =>
              simp only [chatInvoke]
              split
              · trivial
              · intro reply
                cases reply with
                | inputError message => trivial
                | _ => exact ⟨rfl, trivial⟩

theorem handle_records (message : Json)
    : (Mcp.handle gateway message).AllWrites Records := by
  unfold Mcp.handle
  split
  · split
    · trivial
    · split
      · trivial
      · split
        · trivial
        · split
          · refine Coroutine.AllWrites.map some ?_
            unfold Mcp.call
            split
            · split
              · trivial
              · trivial
              · unfold Mcp.invokeTool
                split
                · trivial
                · intro reply
                  cases reply <;> trivial
            · trivial
          · trivial
  · trivial

/-- A request publishes at its arrival or never. Witness: the handlers one by one. -/
theorem serve_publishes (request : Request)
    : (gateway.serve request).Settles Write.published? (fun _ _ => [])
        request.publications := by
  cases request with
  | invokeFeature name body =>
      refine (Coroutine.AllWrites.map _ ?_).settles
      unfold invokeFeature
      split
      · trivial
      · exact gateway.invoke_records _ body
  | invokeCapability capability body vendor version =>
      refine (Coroutine.AllWrites.map _ ?_).settles
      refine (gateway.rankProviders_records capability vendor version).bind fun ranked => ?_
      cases ranked with
      | nil => trivial
      | cons feature others => exact gateway.invoke_records feature body
  | invokeComposite name body =>
      refine (Coroutine.AllWrites.map _ fun state => ?_).settles
      dsimp only
      split
      · trivial
      · split
        · trivial
        · exact Composer.runSteps_closed
            (fun {_} program => Coroutine.AllWrites Records program)
            (fun _ => by trivial) (fun first later => first.bind later)
            gateway.runCapability_records _ _ _ _
  | compose spec => exact ⟨[], rfl, rfl⟩
  | chat text => exact ((gateway.chat_records text).map _).settles
  | mcp message => exact ((gateway.handle_records message).map _).settles

/-- Of the shared state, the registry sees the publications only. -/
theorem composites_observes
    : Coroutine.Observes gateway.system.apply Write.published? AppState.composites
        register := by
  intro change state
  cases change <;> rfl

/-- The registry is the replay of the publications in their order of arrival. -/
theorem registry_of_reaches {state : AppState}
    {pool : Pool Request AppState Write ChatEvent Dispatch Reply Fault Response}
    (run : gateway.system.Reaches (.initial state) pool)
    : pool.state.composites
      = registered ((System.arrivals pool).flatMap Request.publications) state.composites :=
  (run.replay_arrivals gateway.composites_observes gateway.serve_publishes).2

end Gateway

-----------------------------------------------------------------------------------------
-- The registry of the app
-----------------------------------------------------------------------------------------

/-- The last publication under a name, and else what was there. -/
def lastPublished (publications : List Composite) (registry : Dict String Composite)
    (name : String)
    : Option Composite :=
  (publications.reverse.find? fun composite => composite.name = name).or (registry.get? name)

/-- A lookup finds the last publication. Witness: induction from the last publication. -/
theorem get?_registered (publications : List Composite) (registry : Dict String Composite)
    (name : String)
    : (registered publications registry).get? name
      = lastPublished publications registry name := by
  induction publications using List.reverseRecOn with
  | nil => rfl
  | append_singleton earlier composite ih =>
      have last : registered (earlier ++ [composite]) registry
          = register composite (registered earlier registry) := by
        simp [registered]
      rw [last, register, Dict.get?_set, ih, lastPublished, lastPublished,
        List.reverse_append, List.reverse_singleton, List.singleton_append, List.find?_cons]
      by_cases here : composite.name = name
      · simp [here]
      · simp [here, Ne.symm here]

namespace App

variable (app : App)

/-- The composites a request to the app publishes: a posted one, or a compiled one. -/
def publications (request : AppRequest) : List Composite :=
  (app.view request).toList.flatMap Request.publications

/-- The publications of the seen requests are those of all requests. Witness: list induction. -/
theorem publications_view (requests : List AppRequest)
    : (requests.filterMap app.view).flatMap Request.publications
      = requests.flatMap app.publications := by
  induction requests with
  | nil => rfl
  | cons request rest ih =>
      rw [List.flatMap_cons, ← ih, List.filterMap_cons]
      cases viewed : app.view request <;> simp [publications, viewed]

/-- A composite without steps. -/
def emptyComposite (description : String) : Composite where
  name := "none"
  capability := "none"
  description
  defaultCapability := by decide

/-- Two composites are published under one name. -/
def republished : List (Action AppRequest Reply) :=
  [.arrive (.handled (.compose (emptyComposite "first"))),
    .arrive (.handled (.compose (emptyComposite "second")))]

end App

end AgentFeatures
