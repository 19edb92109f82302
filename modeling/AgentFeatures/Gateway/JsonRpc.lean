import AgentFeatures.Gateway.Faces

/-! Which messages the MCP endpoint answers as JSON-RPC 2.0. -/

namespace AgentFeatures

open Library

/-- Whether a value can be a key of a Python dictionary: all but lists and dictionaries. -/
def Json.hashable : Json → Bool
  | arr _ => false
  | obj _ => false
  | _ => true

namespace Mcp

/-- A JSON-RPC 2.0 response object to that id, with exactly one of a result and an error. -/
def IsResponse (msgId response : Json) : Prop :=
  ∃ fields,
    response = .obj fields
    ∧ fields.lookup "jsonrpc" = some (.str "2.0")
    ∧ fields.lookup "id" = some msgId
    ∧ ((fields.lookup "result").isSome ↔ (fields.lookup "error").isNone)

/-- A result is a response. -/
theorem isResponse_ok (msgId result : Json) : IsResponse msgId (ok msgId result) :=
  ⟨_, rfl, rfl, rfl, by simp [List.lookup]⟩

/-- An error is a response. -/
theorem isResponse_err (msgId : Json) (code : Int) (message : String)
    : IsResponse msgId (err msgId code message) :=
  ⟨_, rfl, rfl, rfl, by simp [List.lookup]⟩

variable (gateway : Gateway)

/-- The endpoint speaks JSON-RPC on the message, whatever its invoker replies: it raises
nothing, answers an object with an id under that id, and neither dispatches nor answers one
without, unless it is the opening of a session.
-/
def SpeaksJsonRpc (message : Json) : Prop :=
  ∀ {σ : Type} (answer : Dispatch → σ → Reply × σ) (state : AppState) (world : σ),
    let served := (handle gateway message).run Write.apply answer state world
    ∃ response,
      served.outcome = .ok response
      ∧ (∀ msgId,
          message.get? "id" = some msgId
          → isNone msgId = false
          → ∃ object, response = some object ∧ IsResponse msgId object)
      ∧ ∀ msgId method,
          message.get? "id" = some msgId
          → isNone msgId = true
          → message.get? "method" = some method
          → isText "initialize" method = false
          → served.calls = [] ∧ response = none

/-- Parameters of a `tools/call`: an object whose name is falsy or can be looked up. -/
def Callable (params : Json) : Prop :=
  params.isDict = true
  ∧ ∀ name, params.get? "name" = some name → name.truthy = true → name.hashable = true

/-- The message is an object, and a `tools/call` in it with an id has callable parameters. -/
def WellShaped (message : Json) : Prop :=
  message.isDict = true
  ∧ ∀ msgId params,
      message.get? "method" = some (.str "tools/call")
      → message.get? "id" = some msgId
      → isNone msgId = false
      → message.get? "params" = some params
      → Callable params.orEmpty

/-- A lookup of a tool raises exactly for the names that are neither falsy nor hashable. -/
theorem findTool_error_iff {name : Json} {fault : Fault}
    : findTool gateway name = .error fault
      ↔ name.truthy = true ∧ name.hashable = false ∧ fault = .uncaught := by
  cases name with
  | arr items => cases items <;> simp [findTool, Json.truthy, Json.hashable, eq_comm]
  | obj fields => cases fields <;> simp [findTool, Json.truthy, Json.hashable, eq_comm]
  | _ => simp [findTool, Json.hashable]

section Runs

variable {σ : Type} (answer : Dispatch → σ → Reply × σ) (state : AppState) (world : σ)

/-- An invoked tool is answered under the message's id, whatever the invoker replies. -/
theorem invokeTool_answers (msgId : Json) (name : String) (feature : Feature) (arguments : Json)
    : ∃ response,
        ((invokeTool gateway msgId name feature arguments).run Write.apply answer state
          world).outcome = .ok response
        ∧ IsResponse msgId response := by
  unfold invokeTool
  cases gateway.inputErrors feature arguments with
  | cons error errors => exact ⟨_, rfl, isResponse_ok ..⟩
  | nil =>
      simp only [Gateway.dispatch_bind_run]
      cases (answer ⟨name, arguments, {}⟩ world).1 <;> exact ⟨_, rfl, isResponse_ok ..⟩

/-- A `tools/call` with callable parameters is answered under the message's id. -/
theorem call_answers (msgId : Json) {params : Json} (callable : Callable params)
    : ∃ response,
        ((call gateway msgId params).run Write.apply answer state world).outcome = .ok response
        ∧ IsResponse msgId response := by
  obtain ⟨object, nameable⟩ := callable
  cases params with
  | obj fields =>
      simp only [call, Json.get?]
      split
      · next fault failed =>
          obtain ⟨truthy, listed, -⟩ := (findTool_error_iff gateway).mp failed
          exact absurd (nameable _ rfl truthy) (by simp [listed])
      · exact ⟨_, rfl, isResponse_err ..⟩
      · exact invokeTool_answers gateway answer state world msgId _ _ _
  | _ => cases object

end Runs

/-- Other parameters raise an exception that nothing catches. -/
theorem call_raises (msgId : Json) {params : Json} (bad : ¬ Callable params)
    : call gateway msgId params = .raise .uncaught := by
  cases params with
  | obj fields =>
      have unnameable
          : findTool gateway ((fields.lookup "name").getD .null) = .error .uncaught := by
        simp only [Callable, Json.isDict, Json.get?, true_and, Option.some.injEq] at bad
        push Not at bad
        obtain ⟨name, rfl, truthy, listed⟩ := bad
        exact (findTool_error_iff gateway).mpr ⟨truthy, by simpa using listed, rfl⟩
      simp only [call, Json.get?, unnameable]
  | _ => rfl

/-- A message that is no object raises. -/
theorem handle_raises {message : Json} (notDict : message.isDict = false)
    : handle gateway message = .raise .uncaught := by
  cases message with
  | obj fields => cases notDict
  | _ => rfl

/-- A well-shaped message with an id is answered under it. Witness: the branches of `handle`. -/
theorem handle_answers {message msgId : Json} (shaped : WellShaped message)
    (hasId : message.get? "id" = some msgId) (withId : isNone msgId = false) {σ : Type}
    (answer : Dispatch → σ → Reply × σ) (state : AppState) (world : σ)
    : ∃ response,
        ((handle gateway message).run Write.apply answer state world).outcome
          = .ok (some response)
        ∧ IsResponse msgId response := by
  cases message with
  | obj fields =>
      obtain ⟨method, hasMethod⟩ : ∃ method, (Json.obj fields).get? "method" = some method :=
        ⟨_, rfl⟩
      obtain ⟨params, hasParams⟩ : ∃ params, (Json.obj fields).get? "params" = some params :=
        ⟨_, rfl⟩
      by_cases calls : isText "tools/call" method = true
      · have isCall : method = .str "tools/call" := by
          cases method with
          | str text => simpa [isText] using calls
          | _ => cases calls
        subst isCall
        have callable := shaped.2 msgId params hasMethod hasId withId hasParams
        obtain ⟨response, answered, responds⟩ :=
          call_answers gateway answer state world msgId callable
        refine ⟨response, ?_, responds⟩
        rw [handle_toolsCall gateway hasMethod hasId withId hasParams, map_eq_pure_bind,
          Coroutine.run_bind]
        simp only [answered]
        rfl
      · simp only [handle, hasMethod, hasId, hasParams, withId, calls, Bool.false_and,
          Bool.false_eq_true, if_false]
        split
        · exact ⟨_, rfl, isResponse_ok ..⟩
        · split
          · exact ⟨_, rfl, isResponse_ok ..⟩
          · exact ⟨_, rfl, isResponse_err ..⟩
  | _ => cases shaped.1

/-- An object without an id is answered only if it opens a session, and dispatches nothing. -/
theorem handle_notification {message msgId : Json} (isDict : message.isDict = true)
    (hasId : message.get? "id" = some msgId) (withoutId : isNone msgId = true) {σ : Type}
    (answer : Dispatch → σ → Reply × σ) (state : AppState) (world : σ)
    : let served := (handle gateway message).run Write.apply answer state world
      ∃ response,
        served.outcome = .ok response
        ∧ ∀ method,
            message.get? "method" = some method
            → isText "initialize" method = false
            → served.calls = [] ∧ response = none := by
  cases message with
  | obj fields =>
      obtain ⟨method, hasMethod⟩ : ∃ method, (Json.obj fields).get? "method" = some method :=
        ⟨_, rfl⟩
      obtain ⟨params, hasParams⟩ : ∃ params, (Json.obj fields).get? "params" = some params :=
        ⟨_, rfl⟩
      simp only [handle, hasMethod, hasId, hasParams, withoutId, Bool.true_and]
      cases start : isText "initialize" method with
      | false => exact ⟨none, rfl, fun _ _ _ => ⟨rfl, rfl⟩⟩
      | true =>
          refine ⟨_, rfl, fun other same notStart => ?_⟩
          cases same
          rw [start] at notStart
          cases notStart
  | _ => cases isDict

/-- A `tools/call` with positional parameters. -/
def positionalCall : Json :=
  .obj [("jsonrpc", .str "2.0"), ("id", .int 1), ("method", .str "tools/call"),
    ("params", .arr [.str "echo"])]

end Mcp

end AgentFeatures
