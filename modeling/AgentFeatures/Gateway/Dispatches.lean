import AgentFeatures.Gateway.Server

/-! What every dispatch of a request went through before it reached the invoker. -/

namespace AgentFeatures

open Library
open Library.Text (strip)

namespace Gateway

variable (gateway : Gateway)

/-- The catalog answers the feature's own name with it. -/
def Listed (feature : Feature) : Prop :=
  gateway.catalog.get feature.manifest.name = some feature

/-- A feature the catalog answers is the one it answers under the feature's own name. -/
theorem listed_of_get {name : String} {feature : Feature}
    (found : gateway.catalog.get name = some feature)
    : gateway.Listed feature := by
  rw [Listed, gateway.catalog.name_of_get name feature found, found]

/-- Ranked providers are features of the catalog. Witness: selection filters its list and
ranking permutes the selection.
-/
theorem listed_of_ranked {capability : String} {vendor version : Option String}
    {store : MetricsStore} {selected ranked : List Feature}
    (found : gateway.providers capability vendor version = some selected)
    (order : gateway.policy.rank selected store = some ranked)
    : ∀ feature ∈ ranked, gateway.Listed feature := by
  intro feature member
  have kept := (gateway.policy.rank_perm _ _ _ order).mem_iff.mp member
  rw [← (selectProviders_eq_some_iff.mp found).2] at kept
  exact gateway.catalog.get_of_mem feature (List.mem_of_mem_filter kept)

/-- Ranking providers makes no call. -/
theorem rankProviders_allCalls (P : Dispatch → Prop) (capability : String)
    (vendor version : Option String)
    : (gateway.rankProviders capability vendor version).AllCalls P := by
  unfold rankProviders
  split
  · trivial
  · intro state
    dsimp only
    split <;> trivial

/-- Ranking providers returns features of the catalog. -/
theorem rankProviders_returns (capability : String) (vendor version : Option String)
    : (gateway.rankProviders capability vendor version).Returns
        fun ranked => ∀ feature ∈ ranked, gateway.Listed feature := by
  unfold rankProviders
  split
  · trivial
  · next selected found =>
      intro state
      dsimp only
      split
      · trivial
      · next ranked order => exact gateway.listed_of_ranked found order

/-- The feature a chat command's head can stand for: a name, or the best-ranked provider of
a capability in some state of the metrics.
-/
def ChatNames (head : Text) (feature : Feature) : Prop :=
  if "cap:".toList.isPrefixOf head then
    ∃ selected store others,
      gateway.providers (String.ofList (head.drop 4)) none none = some selected
      ∧ gateway.policy.rank selected store = some (feature :: others)
  else gateway.catalog.get (String.ofList head) = some feature

/-- The chat message is a command for the feature with that payload. -/
def ChatAsks (text : String) (feature : Feature) (payload : Json) : Prop :=
  let text := strip text.toList
  ¬ (text = [] ∨ text = "help".toList)
  ∧ text ≠ "list".toList
  ∧ gateway.chatPayload (partitionSpace text).2 = some payload
  ∧ gateway.ChatNames (partitionSpace text).1 feature

/-- The MCP message is a `tools/call` of the feature with those arguments. -/
def McpAsks (message : Json) (feature : Feature) (payload : Json) : Prop :=
  ∃ method msgId params name arguments,
    message.get? "method" = some method
    ∧ message.get? "id" = some msgId
    ∧ message.get? "params" = some params
    ∧ Mcp.isNone msgId = false
    ∧ Mcp.isText "tools/call" method
    ∧ params.orEmpty.get? "name" = some (.str name)
    ∧ params.orEmpty.get? "arguments" = some arguments
    ∧ name ≠ ""
    ∧ gateway.catalog.get name = some feature
    ∧ payload = arguments.orEmpty

/-- The request asks, in free text or free JSON, for a feature and a payload. -/
def Asks : Request → Feature → Json → Prop
  | .chat text => gateway.ChatAsks text
  | .mcp message => gateway.McpAsks message
  | _ => fun _ _ => False

-----------------------------------------------------------------------------------------
-- Every dispatch is checked
-----------------------------------------------------------------------------------------

/-- The dispatch goes to a feature of the catalog whose schema check passed, with an object or
with what the request asked for.
-/
def Checked (request : Request) (dispatch : Dispatch) : Prop :=
  ∃ feature,
    gateway.catalog.get dispatch.feature = some feature
    ∧ gateway.inputErrors feature dispatch.payload = []
    ∧ (dispatch.payload.isDict ∨ gateway.Asks request feature dispatch.payload)

/-- The shared dispatch of the two REST faces is checked. -/
theorem invoke_allCalls (request : Request) {feature : Feature}
    (listed : gateway.Listed feature) (body : InvokeRequest)
    : (gateway.invoke feature body).AllCalls (gateway.Checked request) := by
  simp only [invoke]
  split
  · trivial
  · next passed =>
      refine ⟨⟨feature, listed, passed, Or.inl rfl⟩, ?_⟩
      intro reply
      cases reply <;> trivial

theorem invokeFeature_allCalls (request : Request) (name : String) (body : InvokeRequest)
    : (gateway.invokeFeature name body).AllCalls (gateway.Checked request) := by
  unfold invokeFeature
  split
  · trivial
  · next feature found =>
      exact gateway.invoke_allCalls request (gateway.listed_of_get found) body

theorem invokeCapability_allCalls (request : Request) (capability : String)
    (body : InvokeRequest) (vendor version : Option String)
    : (gateway.invokeCapability capability body vendor version).AllCalls
        (gateway.Checked request) := by
  refine (gateway.rankProviders_allCalls _ capability vendor version).bind_of_returns
    (gateway.rankProviders_returns capability vendor version) fun ranked listed => ?_
  cases ranked with
  | nil => trivial
  | cons feature others =>
      exact gateway.invoke_allCalls request (listed feature List.mem_cons_self) body

theorem runCapability_allCalls (request : Request) (capability : String)
    (input : Dict String Json) (vendor version : Option String)
    : (gateway.runCapability capability input vendor version).AllCalls
        (gateway.Checked request) := by
  refine (gateway.rankProviders_allCalls _ capability vendor version).bind_of_returns
    (gateway.rankProviders_returns capability vendor version) fun ranked listed => ?_
  cases ranked with
  | nil => trivial
  | cons feature others =>
      dsimp only
      split
      · trivial
      · next passed =>
          refine ⟨⟨feature, listed feature List.mem_cons_self, passed, Or.inl rfl⟩, ?_⟩
          intro reply
          cases reply <;> trivial

/-- The steps of a composite are checked like direct calls. -/
theorem invokeComposite_allCalls (request : Request) (name : String) (body : InvokeRequest)
    : (gateway.invokeComposite name body).AllCalls (gateway.Checked request) := by
  intro state
  dsimp only
  split
  · trivial
  · split
    · trivial
    · exact Composer.runSteps_closed
        (fun {_} program => Coroutine.AllCalls (gateway.Checked request) program)
        (fun _ => by trivial) (fun first later => first.bind later)
        (gateway.runCapability_allCalls request) _ _ _ _

theorem sayAll_allCalls (P : Dispatch → Prop) (events : List ChatEvent)
    : (sayAll events).AllCalls P := by
  induction events with
  | nil => trivial
  | cons event events ih => exact ih

theorem chatFeature_allCalls (P : Dispatch → Prop) (head : Text)
    : (gateway.chatFeature head).AllCalls P := by
  unfold chatFeature
  split
  · refine (gateway.rankProviders_allCalls P _ none none).bind fun ranked => ?_
    cases ranked <;> trivial
  · split <;> trivial

/-- The chat resolves a head to a feature it can stand for. -/
theorem chatFeature_returns (head : Text)
    : (gateway.chatFeature head).Returns
        fun found =>
          ∀ feature ∈ found, gateway.Listed feature ∧ gateway.ChatNames head feature := by
  unfold chatFeature ChatNames
  split
  · change Coroutine.Returns _ (gateway.rankProviders _ none none >>= _)
    unfold rankProviders
    split
    · trivial
    · next selected found =>
        intro state
        dsimp only
        split
        · trivial
        · next ranked order =>
            cases ranked with
            | nil => exact fun _ absent => nomatch absent
            | cons feature others =>
                intro other same
                cases same
                exact ⟨gateway.listed_of_ranked found order feature List.mem_cons_self,
                  selected, state.store, others, found, order⟩
  · split
    · exact fun _ absent => nomatch absent
    · next feature found =>
        intro other same
        cases same
        exact ⟨gateway.listed_of_get found, found⟩

theorem chatInvoke_allCalls (request : Request) {feature : Feature} {payload : Json}
    (listed : gateway.Listed feature) (asked : gateway.Asks request feature payload)
    : (gateway.chatInvoke feature payload).AllCalls (gateway.Checked request) := by
  unfold chatInvoke
  cases passed : gateway.inputErrors feature payload with
  | cons error errors => trivial
  | nil =>
      refine ⟨⟨feature, listed, passed, Or.inr asked⟩, ?_⟩
      intro reply
      cases reply <;> trivial

theorem chat_allCalls (text : String)
    : (gateway.chat text).AllCalls (gateway.Checked (.chat text)) := by
  unfold chat
  dsimp only
  split
  · exact sayAll_allCalls _ _
  · next command =>
      split
      · exact sayAll_allCalls _ _
      · next notList =>
          split
          · trivial
          · next payload loaded =>
              refine (gateway.chatFeature_allCalls _ _).bind_of_returns
                (gateway.chatFeature_returns _) fun found named => ?_
              cases found with
              | none => trivial
              | some feature =>
                  obtain ⟨listed, names⟩ := named feature rfl
                  exact gateway.chatInvoke_allCalls _ listed ⟨command, notList, loaded, names⟩

/-- A found tool is the feature of the catalog under the requested name. -/
theorem findTool_eq_some_iff {name : Json} {text : String} {feature : Feature}
    : Mcp.findTool gateway name = .ok (some (text, feature))
      ↔ name = .str text ∧ text ≠ "" ∧ gateway.catalog.get text = some feature := by
  cases name with
  | str other =>
      simp only [Mcp.findTool, Except.ok.injEq, Json.str.injEq]
      split
      · next empty =>
          subst empty
          exact ⟨fun h => (nomatch h), fun h => absurd h.1.symm h.2.1⟩
      · next filled =>
          rw [Option.map_eq_some_iff]
          constructor
          · intro either
            rcases either with ⟨found, stored, same⟩
            cases same
            exact ⟨rfl, filled, stored⟩
          · intro asked
            rcases asked with ⟨rfl, -, stored⟩
            exact ⟨feature, stored, rfl⟩
  | arr items =>
      simp only [Mcp.findTool]
      split <;> simp
  | obj fields =>
      simp only [Mcp.findTool]
      split <;> simp
  | _ => simp [Mcp.findTool]

theorem invokeTool_allCalls (request : Request) (msgId : Json) {name : String}
    {feature : Feature} {arguments : Json} (found : gateway.catalog.get name = some feature)
    (asked : gateway.Asks request feature arguments)
    : (Mcp.invokeTool gateway msgId name feature arguments).AllCalls
        (gateway.Checked request) := by
  unfold Mcp.invokeTool
  split
  · trivial
  · next passed =>
      refine ⟨⟨feature, found, passed, Or.inr asked⟩, ?_⟩
      intro reply
      cases reply <;> trivial

theorem mcp_allCalls (message : Json)
    : (Mcp.handle gateway message).AllCalls (gateway.Checked (.mcp message)) := by
  unfold Mcp.handle
  split
  · next method msgId params hasMethod hasId hasParams =>
      split
      · trivial
      · next answered =>
          split
          · trivial
          · next notInitialize =>
              split
              · trivial
              · split
                · next calls =>
                    refine Coroutine.AllCalls.map some ?_
                    unfold Mcp.call
                    split
                    · next name arguments hasName hasArguments =>
                        split
                        · trivial
                        · trivial
                        · next text feature tool =>
                            obtain ⟨rfl, filled, found⟩ := gateway.findTool_eq_some_iff.mp tool
                            have withId : Mcp.isNone msgId = false := by
                              simpa [notInitialize] using answered
                            exact gateway.invokeTool_allCalls _ msgId found
                              ⟨method, msgId, params, text, arguments, hasMethod, hasId,
                                hasParams, withId, calls, hasName, hasArguments, filled,
                                found, rfl⟩
                    · trivial
                · trivial
  · trivial

/-- Whatever a request dispatches was checked. Witness: the handlers one by one. -/
theorem serve_allCalls (request : Request)
    : (gateway.serve request).AllCalls (gateway.Checked request) := by
  cases request with
  | invokeFeature name body => exact (gateway.invokeFeature_allCalls _ name body).map _
  | invokeCapability capability body vendor version =>
      exact (gateway.invokeCapability_allCalls _ capability body vendor version).map _
  | invokeComposite name body => exact (gateway.invokeComposite_allCalls _ name body).map _
  | compose spec => trivial
  | chat text => exact (gateway.chat_allCalls text).map _
  | mcp message => exact (gateway.mcp_allCalls message).map _

end Gateway

end AgentFeatures
