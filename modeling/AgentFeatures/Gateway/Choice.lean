import AgentFeatures.Gateway.Dispatches
import AgentFeatures.Gateway.Preferred
import AgentFeatures.Gateway.Registry
import AgentFeatures.Library.Guard

/-! Calls whose provider the gateway chooses: they go to the one that is ranked first when they
are made.
-/

namespace AgentFeatures

open Library

/-- No step of the composite restricts the choice among the capability's providers. -/
def Composite.LeavesChoice (capability : String) (composite : Composite) : Prop :=
  ∀ step ∈ composite.steps,
    step.capability = capability → given step.vendor = none ∧ given step.version = none

namespace Gateway

variable (gateway : Gateway)

/-- The request leaves it to the gateway which provider of the capability it reaches: it pins none
and names none. A chat command for the capability streams between its choice and its call, so it
counts as naming its provider.
-/
def LeavesChoice (capability : String) : Request → Prop
  | .invokeFeature name _ =>
      ∀ feature, gateway.catalog.get name = some feature → feature.manifest.capability ≠ capability
  | .invokeCapability called _ vendor version =>
      called = capability → given vendor = none ∧ given version = none
  | .invokeComposite _ _ => True
  | .compose spec => spec.LeavesChoice capability
  | .chat text =>
      ∀ feature payload,
        gateway.ChatAsks text feature payload → feature.manifest.capability ≠ capability
  | .mcp message =>
      ∀ feature payload,
        gateway.McpAsks message feature payload → feature.manifest.capability ≠ capability

/-- A call that reaches a provider of the capability reaches the one picked in this state. -/
def Chosen (capability : String) (state : AppState) (dispatch : Dispatch) : Prop :=
  ∀ feature,
    gateway.catalog.get dispatch.feature = some feature
    → feature.manifest.capability = capability
    → gateway.picked capability state.store = some feature

variable {gateway} {capability : String}

/-- Calls that are guarded by the choice of the capability's provider. -/
abbrev Chooses {α : Type} (gateway : Gateway) (capability : String) (handler : Handler α)
    (state : AppState)
    : Prop :=
  handler.Guards Write.apply (gateway.Chosen capability) state

-----------------------------------------------------------------------------------------
-- Handlers that name a feature
-----------------------------------------------------------------------------------------

/-- The chat calls features that its message asks for. -/
theorem chat_asks {P : Dispatch → Prop} {text : String}
    (asked
      : ∀ feature payload,
          gateway.Listed feature
          → gateway.ChatAsks text feature payload
          → P ⟨feature.manifest.name, payload, {}⟩)
    : (gateway.chat text).AllCalls P := by
  unfold chat
  dsimp only
  split
  · exact sayAll_allCalls _ _
  · next command =>
      split
      · exact sayAll_allCalls _ _
      · next notList =>
          split
          · trivial
          · next payload loaded =>
              refine (gateway.chatFeature_allCalls _ _).bind_of_returns
                (gateway.chatFeature_returns _) fun found named => ?_
              cases found with
              | none => trivial
              | some feature =>
                  obtain ⟨listed, names⟩ := named feature rfl
                  have asks := asked feature payload listed ⟨command, notList, loaded, names⟩
                  simp only [chatInvoke]
                  split
                  · trivial
                  · refine ⟨asks, fun reply => ?_⟩
                    cases reply <;> trivial

/-- The MCP face calls tools that its message asks for. -/
theorem mcp_asks {P : Dispatch → Prop} {message : Json}
    (asked
      : ∀ feature payload,
          gateway.Listed feature
          → gateway.McpAsks message feature payload
          → P ⟨feature.manifest.name, payload, {}⟩)
    : (Mcp.handle gateway message).AllCalls P := by
  unfold Mcp.handle
  split
  · next method msgId params hasMethod hasId hasParams =>
      split
      · trivial
      · next answered =>
          split
          · trivial
          · next notInitialize =>
              split
              · trivial
              · split
                · next calls =>
                    refine Coroutine.AllCalls.map some ?_
                    unfold Mcp.call
                    split
                    · next name arguments hasName hasArguments =>
                        split
                        · trivial
                        · trivial
                        · next text feature tool =>
                            obtain ⟨rfl, filled, found⟩ := gateway.findTool_eq_some_iff.mp tool
                            have withId : Mcp.isNone msgId = false := by
                              simpa [notInitialize] using answered
                            have asks := asked feature arguments.orEmpty
                              (gateway.listed_of_get found)
                              ⟨method, msgId, params, text, arguments, hasMethod, hasId,
                                hasParams, withId, calls, hasName, hasArguments, filled,
                                found, rfl⟩
                            rw [gateway.catalog.name_of_get text feature found] at asks
                            unfold Mcp.invokeTool
                            split
                            · trivial
                            · refine ⟨asks, fun reply => ?_⟩
                              cases reply <;> trivial
                    · trivial
                · trivial
  · trivial

/-- A call of a feature outside the capability is no call of its providers. -/
theorem chosen_of_outside {feature : Feature} (listed : gateway.Listed feature)
    (outside : feature.manifest.capability ≠ capability) (payload : Json)
    (context : RequestContext) (state : AppState)
    : gateway.Chosen capability state ⟨feature.manifest.name, payload, context⟩ := by
  intro other found offers
  have same : feature = other := Option.some.inj (listed.symm.trans found)
  exact absurd (same ▸ offers) outside

-----------------------------------------------------------------------------------------
-- Handlers that choose a provider
-----------------------------------------------------------------------------------------

/-- Pins that are not set do not restrict the ranking. -/
theorem ranking_unpinned {vendor version : Option String} (noVendor : given vendor = none)
    (noVersion : given version = none) (store : MetricsStore)
    : gateway.ranking capability vendor version store
      = gateway.ranking capability none none store := by
  have none : given none = none := rfl
  simp only [ranking, providers, selectProviders, noVendor, noVersion, none]

/-- What follows on the ranking is guarded when it is for each ranked list. -/
theorem rankProviders_chooses {α : Type} {called : String} {vendor version : Option String}
    {k : List Feature → Handler α} {state : AppState}
    (later
      : ∀ ranked,
          gateway.ranking called vendor version state.store = some ranked
          → Chooses gateway capability (k ranked) state)
    : Chooses gateway capability (gateway.rankProviders called vendor version >>= k) state := by
  unfold rankProviders
  cases found : gateway.providers called vendor version with
  | none => trivial
  | some selected =>
      have ranks : gateway.ranking called vendor version state.store
          = gateway.policy.rank selected state.store := by
        rw [ranking, found, Option.bind_some]
      refine Coroutine.Guards.read_bind ?_
      cases known : gateway.policy.rank selected state.store with
      | none => trivial
      | some ranked => exact later ranked (ranks.trans known)

/-- The first ranked provider of a capability has it and is listed. -/
theorem head_of_ranking {called : String} {vendor version : Option String}
    {store : MetricsStore} {feature : Feature} {others : List Feature}
    (known : gateway.ranking called vendor version store = some (feature :: others))
    : gateway.Listed feature ∧ feature.manifest.capability = called := by
  obtain ⟨selected, found, order⟩ := Option.bind_eq_some_iff.mp known
  refine ⟨gateway.listed_of_ranked found order feature List.mem_cons_self, ?_⟩
  have kept := (gateway.policy.rank_perm _ _ _ order).mem_iff.mp List.mem_cons_self
  rw [← (selectProviders_eq_some_iff.mp found).2] at kept
  exact (of_decide_eq_true (List.mem_filter.mp kept).2).1.1

/-- A call to the first ranked provider is a chosen one when the capability is not pinned. -/
theorem chosen_of_ranked {called : String} {vendor version : Option String}
    (leaves : called = capability → given vendor = none ∧ given version = none)
    {state : AppState} {feature : Feature} {others : List Feature}
    (known : gateway.ranking called vendor version state.store = some (feature :: others))
    (payload : Json) (context : RequestContext)
    : gateway.Chosen capability state ⟨feature.manifest.name, payload, context⟩ := by
  obtain ⟨listed, offers⟩ := head_of_ranking known
  intro other found offered
  have same : feature = other := Option.some.inj (listed.symm.trans found)
  subst same
  have asked : called = capability := offers.symm.trans offered
  obtain ⟨noVendor, noVersion⟩ := leaves asked
  rw [ranking_unpinned noVendor noVersion, asked] at known
  rw [picked, known]
  rfl

/-- The shared dispatch of the two REST faces calls its feature at once. -/
theorem invoke_chooses {feature : Feature} (body : InvokeRequest) {state : AppState}
    (chosen
      : ∀ payload context,
          gateway.Chosen capability state ⟨feature.manifest.name, payload, context⟩)
    : Chooses gateway capability (gateway.invoke feature body) state := by
  simp only [invoke]
  split
  · trivial
  · refine ⟨chosen _ _, fun reply later => ?_⟩
    cases reply <;> trivial

theorem invokeCapability_chooses {called : String} {vendor version : Option String}
    (leaves : called = capability → given vendor = none ∧ given version = none)
    (body : InvokeRequest) (state : AppState)
    : Chooses gateway capability (gateway.invokeCapability called body vendor version)
        state := by
  refine rankProviders_chooses fun ranked known => ?_
  cases ranked with
  | nil => trivial
  | cons feature others => exact invoke_chooses body (chosen_of_ranked leaves known)

/-- A step of a composite calls the provider that is ranked first when the step starts. -/
theorem runCapability_chooses {called : String} {vendor version : Option String}
    (leaves : called = capability → given vendor = none ∧ given version = none)
    (input : Dict String Json) (state : AppState)
    : Chooses gateway capability (gateway.runCapability called input vendor version) state := by
  refine rankProviders_chooses fun ranked known => ?_
  cases ranked with
  | nil => trivial
  | cons feature others =>
      dsimp only
      split
      · trivial
      · refine ⟨chosen_of_ranked leaves known _ _, fun reply later => ?_⟩
        cases reply <;> trivial

/-- So do all steps, each in the state that it starts in. Witness: induction on the steps. -/
theorem runSteps_chooses (composite : Composite) (steps : List Step)
    (leaves
      : ∀ step ∈ steps,
          step.capability = capability → given step.vendor = none ∧ given step.version = none)
    (ctx : Dict String Json) (trace : List TraceEntry) (state : AppState)
    : Chooses gateway capability
        (Composer.runSteps gateway.runCapability composite steps ctx trace) state := by
  induction steps generalizing ctx trace state with
  | nil =>
      rw [Composer.runSteps_nil]
      split <;> trivial
  | cons step rest ih =>
      have later := ih fun other member => leaves other (List.mem_cons_of_mem _ member)
      cases resolved : resolveRefs ctx step.inputs with
      | error err =>
          rw [Composer.runSteps_unresolved _ _ _ _ resolved]
          trivial
      | ok stepInput =>
          rw [Composer.runSteps_resolved _ _ _ _ resolved]
          refine (runCapability_chooses (leaves step List.mem_cons_self) _ _).bind ?_
          intro reply after
          split
          · trivial
          · exact later _ _ after

/-- The registered composites leave the choice. -/
def RegistryLeaves (capability : String) (state : AppState) : Prop :=
  ∀ entry ∈ state.composites.entries, entry.2.LeavesChoice capability

/-- Requests that leave the choice make chosen calls. Witness: the handlers one by one. -/
theorem serve_chooses {request : Request} {state : AppState}
    (leaves : gateway.LeavesChoice capability request)
    (registered : RegistryLeaves capability state)
    : Chooses gateway capability (gateway.serve request) state := by
  cases request with
  | invokeFeature name body =>
      refine Coroutine.Guards.map _ ?_
      unfold invokeFeature
      split
      · trivial
      · next feature found =>
          have listed := gateway.listed_of_get found
          exact invoke_chooses body fun payload context =>
            chosen_of_outside listed (leaves feature found) payload context state
  | invokeCapability called body vendor version =>
      exact (invokeCapability_chooses leaves body state).map _
  | invokeComposite name body =>
      have run : Chooses gateway capability (gateway.invokeComposite name body) state := by
        refine Coroutine.Guards.read ?_
        split
        · trivial
        · next composite found =>
            split
            · trivial
            · exact runSteps_chooses composite _
                (registered _ (Dict.get?_eq_some_iff.mp found)) _ _ state
      exact run.map _
  | compose spec => trivial
  | chat text =>
      have safe : (gateway.chat text).AllCalls fun dispatch =>
          ∀ state, gateway.Chosen capability state dispatch :=
        chat_asks fun feature payload listed asks =>
          chosen_of_outside listed (leaves feature payload asks) payload {}
      exact (safe.guards (fun state dispatch chosen => chosen state) state).map _
  | mcp message =>
      have safe : (Mcp.handle gateway message).AllCalls fun dispatch =>
          ∀ state, gateway.Chosen capability state dispatch :=
        mcp_asks fun feature payload listed asks =>
          chosen_of_outside listed (leaves feature payload asks) payload {}
      exact (safe.guards (fun state dispatch chosen => chosen state) state).map _

/-- A registry holds what was there at first and what was published, by induction on the
publications.
-/
theorem forall_entries_registered {P : Composite → Prop} {registry : Dict String Composite}
    (old : ∀ entry ∈ registry.entries, P entry.2) {publications : List Composite}
    (new : ∀ composite ∈ publications, P composite)
    : ∀ entry ∈ (registered publications registry).entries, P entry.2 := by
  induction publications generalizing registry with
  | nil => exact old
  | cons composite rest ih =>
      refine ih (fun entry stored => ?_)
        fun other member => new other (List.mem_cons_of_mem _ member)
      rcases Dict.mem_entries_set stored with kept | same
      · exact old entry kept
      · rw [same]
        exact new composite List.mem_cons_self

/-- As long as the arriving requests leave the choice, so do the registered composites. -/
theorem registryLeaves_of_reaches {composites : Dict String Composite}
    (registered : ∀ entry ∈ composites.entries, entry.2.LeavesChoice capability)
    {pool : Pool Request AppState Write ChatEvent Dispatch Reply Fault Response}
    (run : gateway.system.Reaches (start composites) pool)
    (leaves : ∀ request ∈ System.arrivals pool, gateway.LeavesChoice capability request)
    : RegistryLeaves capability pool.state := by
  intro entry stored
  rw [gateway.registry_of_reaches run] at stored
  refine forall_entries_registered registered (fun composite published => ?_) entry stored
  obtain ⟨request, arrived, publishes⟩ := List.mem_flatMap.mp published
  have left := leaves request arrived
  cases request with
  | compose spec =>
      cases List.mem_singleton.mp publishes
      exact left
  | _ => cases publishes

end Gateway

end AgentFeatures
