import AgentFeatures.Gateway.Dispatches

/-! Which payloads reach the invoker: objects valid for the schema, and what slips past. -/

namespace AgentFeatures

open Library

namespace Gateway

variable (gateway : Gateway)

/-- The dispatch carries an object that is valid for the input schema of its feature. -/
def WellFormed (Valid : Dict String Json → Json → Prop) (dispatch : Dispatch) : Prop :=
  dispatch.payload.isDict
  ∧ ∃ feature,
      gateway.catalog.get dispatch.feature = some feature
      ∧ Valid feature.manifest.inputSchema dispatch.payload

/-- In every run, from any state, whatever is dispatched for the request is well formed. -/
def SeesWellFormed (Valid : Dict String Json → Json → Prop) (request : Request) : Prop :=
  ∀ state pool,
    gateway.system.Reaches (.initial state) pool
    → ∀ call ∈ pool.issued, call.1 = request → gateway.WellFormed Valid call.2

/-- What the request asks for in free text or free JSON is an object, or fails the schema of
the feature it is for.
-/
def Guarded (request : Request) : Prop :=
  ∀ feature payload,
    gateway.Asks request feature payload
    → payload.isDict ∨ gateway.inputErrors feature payload ≠ []

theorem chatInvoke_firstCall {feature : Feature} {payload : Json}
    (passed : gateway.inputErrors feature payload = []) (state : AppState)
    : (gateway.chatInvoke feature payload).firstCall Write.apply state
      = some ⟨feature.manifest.name, payload, {}⟩ := by
  simp only [chatInvoke, passed]
  rfl

/-- A command whose head can stand for the feature reaches it from some state. -/
theorem chatFeature_firstCall {head : Text} {feature : Feature}
    (names : gateway.ChatNames head feature)
    : ∃ state : AppState,
        ∀ next : Option Feature → Handler Unit,
          (gateway.chatFeature head >>= next).firstCall Write.apply state
            = (next (some feature)).firstCall Write.apply state := by
  unfold ChatNames at names
  split at names
  · next cap =>
      obtain ⟨selected, store, others, found, order⟩ := names
      refine ⟨⟨store, ∅⟩, fun next => ?_⟩
      simp only [chatFeature, cap, if_true, rankProviders, found]
      simp only [say, Coroutine.bind_emit, Coroutine.bind_done, Coroutine.bind_read,
        Coroutine.firstCall, order, Coroutine.pure_eq]
  · next plain =>
      refine ⟨⟨∅, ∅⟩, fun next => ?_⟩
      simp only [chatFeature, plain, names]
      rfl

/-- What a chat message asks for is dispatched when its check passes. -/
theorem chat_firstCall {text : String} {feature : Feature} {payload : Json}
    (asked : gateway.ChatAsks text feature payload)
    (passed : gateway.inputErrors feature payload = [])
    : ∃ state : AppState,
        (gateway.chat text).firstCall Write.apply state
          = some ⟨feature.manifest.name, payload, {}⟩ := by
  obtain ⟨command, notList, loaded, names⟩ := asked
  obtain ⟨state, resolves⟩ := gateway.chatFeature_firstCall names
  refine ⟨state, ?_⟩
  simp only [chat, command, notList, loaded, if_false]
  rw [resolves]
  exact gateway.chatInvoke_firstCall passed state

/-- What a `tools/call` asks for is dispatched when its check passes. -/
theorem mcp_firstCall {message : Json} {feature : Feature} {payload : Json}
    (asked : gateway.McpAsks message feature payload)
    (passed : gateway.inputErrors feature payload = []) (state : AppState)
    : ∃ name,
        (Mcp.handle gateway message).firstCall Write.apply state
          = some ⟨name, payload, {}⟩ := by
  obtain ⟨method, msgId, params, name, arguments, hasMethod, hasId, hasParams, withId, calls,
    hasName, hasArguments, filled, found, rfl⟩ := asked
  refine ⟨name, ?_⟩
  have tool : Mcp.findTool gateway (.str name) = .ok (some (name, feature)) :=
    gateway.findTool_eq_some_iff.mpr ⟨rfl, filled, found⟩
  have other (text : String) (differs : text ≠ "tools/call")
      : Mcp.isText text method = false := by
    cases method with
    | str value =>
        simp only [Mcp.isText, beq_iff_eq] at calls ⊢
        subst calls
        simpa using fun same => differs same.symm
    | _ => rfl
  simp only [Mcp.handle, hasMethod, hasId, hasParams, withId, calls,
    other "initialize" (by decide), other "tools/list" (by decide), Bool.false_and, if_true,
    Bool.false_eq_true, if_false, Coroutine.firstCall_map]
  simp only [Mcp.call, hasName, hasArguments, tool, Mcp.invokeTool, passed]
  rfl

/-- What a request asks for is dispatched in some run when its check passes. -/
theorem issued_of_asks {request : Request} {feature : Feature} {payload : Json}
    (asked : gateway.Asks request feature payload)
    (passed : gateway.inputErrors feature payload = [])
    : ∃ state pool name,
        gateway.system.Reaches (.initial state) pool
        ∧ (request, ⟨name, payload, {}⟩) ∈ pool.issued := by
  cases request with
  | chat text =>
      obtain ⟨state, first⟩ := gateway.chat_firstCall asked passed
      rw [← Coroutine.firstCall_map Write.apply fun _ => Response.streamed] at first
      obtain ⟨pool, run, issued⟩ :=
        System.reaches_firstCall (show (gateway.system.serve (.chat text)).firstCall
          gateway.system.apply state = _ from first)
      exact ⟨state, pool, _, run, issued⟩
  | mcp message =>
      obtain ⟨name, first⟩ := gateway.mcp_firstCall asked passed ⟨∅, ∅⟩
      rw [← Coroutine.firstCall_map Write.apply Response.rpc] at first
      obtain ⟨pool, run, issued⟩ :=
        System.reaches_firstCall (show (gateway.system.serve (.mcp message)).firstCall
          gateway.system.apply ⟨∅, ∅⟩ = _ from first)
      exact ⟨_, pool, name, run, issued⟩
  | _ => exact asked.elim

/-- Features see only well-formed arguments of a request iff it is guarded: the REST faces and
composite steps are, chat and MCP where no value other than an object passes the schema.
Witness: every dispatch was checked, and what a request asks for is dispatched.
-/
theorem seesWellFormed_iff_guarded {Valid : Dict String Json → Json → Prop}
    (implements : gateway.validator.Implements Valid) (request : Request)
    : gateway.SeesWellFormed Valid request ↔ gateway.Guarded request := by
  constructor
  · intro sees feature payload asked
    by_contra neither
    obtain ⟨notDict, passed⟩ := not_or.mp neither
    obtain ⟨state, pool, name, run, issued⟩ :=
      gateway.issued_of_asks asked (not_not.mp passed)
    exact notDict (sees state pool run _ issued rfl).1
  · intro guarded state pool run call issued served
    obtain ⟨feature, found, passed, object⟩ :=
      (System.Reaches.issued gateway.serve_allCalls run).2.1 call issued
    refine ⟨?_, feature, found, (collectErrors_eq_nil_iff implements _ _).mp passed⟩
    rcases object with isDict | asked
    · exact isDict
    · exact (guarded feature _ (served ▸ asked)).resolve_right fun failed => failed passed

/-- Arguments of a REST call reach the feature as an object only. -/
theorem seesWellFormed_restCall
    : echoGateway.SeesWellFormed SmallValid (.invokeFeature "echo" {}) :=
  (echoGateway.seesWellFormed_iff_guarded smallValidator_implements _).mpr
    fun _ _ asked => asked.elim

/-- A `tools/call` whose arguments are a list. -/
def listArguments : Request :=
  .mcp (.obj [("method", .str "tools/call"), ("id", .int 1),
    ("params", .obj [("name", .str "echo"), ("arguments", .arr [.int 1])])])

/-- A feature without an input schema sees a list as its arguments. -/
theorem listArguments_reach_feature
    : ¬ ∀ (gateway : Gateway) (Valid : Dict String Json → Json → Prop) (request : Request),
        gateway.validator.Implements Valid → gateway.SeesWellFormed Valid request := by
  intro all
  obtain ⟨pool, played⟩ := Option.isSome_iff_exists.mp
    (show (echoGateway.system.play [.arrive listArguments] (start ∅)).isSome by decide)
  have issued : (echoGateway.system.play [.arrive listArguments] (start ∅)).map Pool.issued
      = some [(listArguments, ⟨"echo", .arr [.int 1], {}⟩)] := rfl
  rw [played] at issued
  have sees := all echoGateway SmallValid listArguments smallValidator_implements _ pool
    (System.reaches_of_play played) (listArguments, ⟨"echo", .arr [.int 1], {}⟩)
    (by rw [Option.some.inj issued]; exact List.mem_singleton_self _) rfl
  exact absurd sees.1 (by decide)

end Gateway

end AgentFeatures
