import AgentFeatures.Gateway.Routes
import AgentFeatures.Gateway.Server

/-! The REST face and the MCP face of one feature, called with the same input. -/

namespace AgentFeatures

open Library

namespace Mcp

/-- The message is a `tools/call` with an id, for that tool and those arguments. -/
structure CallsTool (message msgId : Json) (name : String) (payload : Dict String Json)
    : Prop where
  hasMethod : message.get? "method" = some (.str "tools/call")
  hasId : message.get? "id" = some msgId
  withId : isNone msgId = false
  hasParams
    : ∃ params arguments,
        message.get? "params" = some params
        ∧ params.get? "name" = some (.str name)
        ∧ params.get? "arguments" = some arguments
        ∧ arguments.orEmpty = .ofDict payload

/-- `response["result"]["isError"]`; `none` when the response has no result. -/
def isError (response : Json) : Option Json := (response.get? "result").bind (·.get? "isError")

@[simp] theorem isError_content (msgId : Json) (text : String) (failed : Bool)
    : isError (content msgId text failed) = some (.bool failed) := rfl

@[simp] theorem isError_err (msgId : Json) (code : Int) (message : String)
    : isError (err msgId code message) = none := rfl

/-- An object with a non-null field is not empty, so `or {}` keeps it. -/
theorem orEmpty_of_get? {value : Json} {key text : String}
    (found : value.get? key = some (.str text))
    : value.orEmpty = value := by
  cases value with
  | obj fields =>
      cases fields with
      | nil => cases found
      | cons field rest => rfl
  | _ => cases found

variable (gateway : Gateway)

/-- A `tools/call` with an id goes to `_call`. -/
theorem handle_toolsCall {message msgId params : Json}
    (hasMethod : message.get? "method" = some (.str "tools/call"))
    (hasId : message.get? "id" = some msgId) (withId : isNone msgId = false)
    (hasParams : message.get? "params" = some params)
    : handle gateway message = some <$> call gateway msgId params.orEmpty := by
  have notStart : isText "initialize" (.str "tools/call") = false := by decide
  have notList : isText "tools/list" (.str "tools/call") = false := by decide
  have isCall : isText "tools/call" (.str "tools/call") = true := by decide
  simp only [handle, hasMethod, hasId, hasParams, withId, notStart, notList, isCall,
    Bool.false_and, Bool.false_eq_true, if_false, if_true]

/-- A `tools/call` of a text looks it up as a tool and invokes what it finds. -/
theorem handle_callsTool {message msgId : Json} {name : String} {payload : Dict String Json}
    (calls : CallsTool message msgId name payload) (filled : name ≠ "")
    : handle gateway message
      = match gateway.catalog.get name with
        | none => .done (some (err msgId invalidParams s!"unknown tool: {name}"))
        | some feature => some <$> invokeTool gateway msgId name feature (.ofDict payload) := by
  obtain ⟨params, arguments, hasParams, hasName, hasArguments, given⟩ := calls.hasParams
  rw [handle_toolsCall gateway calls.hasMethod calls.hasId calls.withId hasParams,
    orEmpty_of_get? hasName]
  simp only [call, hasName, hasArguments, findTool, filled, if_false, given]
  cases gateway.catalog.get name <;> rfl

end Mcp

namespace Gateway

variable (gateway : Gateway)

/-- What a REST call and a `tools/call` leave behind agrees: the same dispatches with the same
replies, success on both faces or on neither, the output as the text of the content block, and
the same list of schema violations.
-/
structure Agree {σ : Type} (runtime : Runtime) (msgId : Json)
    (rest : Coroutine.Execution AppState ChatEvent Dispatch Reply Fault σ InvokeResponse)
    (mcp : Coroutine.Execution AppState ChatEvent Dispatch Reply Fault σ (Option Json))
    : Prop where
  calls : rest.calls = mcp.calls
  succeeds
    : (∃ response, rest.outcome = .ok response)
      ↔ ∃ answer, mcp.outcome = .ok (some answer) ∧ Mcp.isError answer = some (.bool false)
  output
    : ∀ response answer,
        rest.outcome = .ok response
        → mcp.outcome = .ok (some answer)
        → ∃ text,
            answer = Mcp.content msgId text false
            ∧ runtime.loads text = some (.ofDict response.output)
  violations
    : ∀ errors,
        rest.outcome = .error (.http 422 (.errors errors))
        → mcp.outcome
          = .ok (some (Mcp.toolError msgId
              ("invalid input: " ++ String.intercalate "; " errors)))
  invalid
    : (∃ errors, rest.outcome = .error (.http 422 (.errors errors)))
      ↔ ∃ text, mcp.outcome = .ok (some (Mcp.toolError msgId ("invalid input: " ++ text)))

variable {σ : Type} {runtime : Runtime} {msgId : Json}
  {rest : Coroutine.Execution AppState ChatEvent Dispatch Reply Fault σ InvokeResponse}
  {mcp : Coroutine.Execution AppState ChatEvent Dispatch Reply Fault σ (Option Json)}

/-- Both faces fail, and neither reports schema violations. -/
theorem Agree.of_failures {fault : Fault} {message : Json} (calls : rest.calls = mcp.calls)
    (failed : rest.outcome = .error fault) (refused : mcp.outcome = .ok (some message))
    (notFalse : Mcp.isError message ≠ some (.bool false))
    (otherFault : ∀ errors, fault ≠ .http 422 (.errors errors))
    (otherText : ∀ text, message ≠ Mcp.toolError msgId ("invalid input: " ++ text))
    : Agree runtime msgId rest mcp where
  calls := calls
  succeeds := by simp [failed, refused, notFalse]
  output response _ succeeded := by
    rw [failed] at succeeded
    cases succeeded
  violations errors reported := by
    rw [failed] at reported
    exact absurd (Except.error.inj reported) (otherFault errors)
  invalid := by simp [failed, refused, otherFault, otherText]

/-- Both faces fail, with the same schema violations. -/
theorem Agree.of_violations {errors : List String} (calls : rest.calls = mcp.calls)
    (failed : rest.outcome = .error (.http 422 (.errors errors)))
    (refused
      : mcp.outcome
        = .ok (some (Mcp.toolError msgId
            ("invalid input: " ++ String.intercalate "; " errors))))
    : Agree runtime msgId rest mcp where
  calls := calls
  succeeds := by simp [failed, refused, Mcp.toolError]
  output response _ succeeded := by
    rw [failed] at succeeded
    cases succeeded
  violations reported same := by
    rw [failed] at same
    cases same
    exact refused
  invalid := by
    rw [failed, refused]
    exact ⟨fun _ => ⟨_, rfl⟩, fun _ => ⟨_, rfl⟩⟩

/-- Both faces succeed, and the content block is the output. -/
theorem Agree.of_success {response : InvokeResponse} {text : String}
    (calls : rest.calls = mcp.calls) (succeeded : rest.outcome = .ok response)
    (answered : mcp.outcome = .ok (some (Mcp.content msgId text false)))
    (loads : runtime.loads text = some (.ofDict response.output))
    : Agree runtime msgId rest mcp where
  calls := calls
  succeeds := by simp [succeeded, answered]
  output other message same shown := by
    rw [succeeded] at same
    rw [answered] at shown
    cases same
    cases shown
    exact ⟨text, rfl, loads⟩
  violations errors failed := by
    rw [succeeded] at failed
    cases failed
  invalid := by simp [succeeded, answered, Mcp.toolError, Mcp.content, Mcp.ok]

/-- Tool errors tell their texts apart. -/
theorem toolError_ne {msgId : Json} {left right : String}
    (differ : left.toList.head? ≠ right.toList.head?)
    : Mcp.toolError msgId left ≠ Mcp.toolError msgId right := by
  intro same
  simp [Mcp.toolError, Mcp.content, Mcp.ok] at same
  exact differ (same ▸ rfl)

variable (answer : Dispatch → σ → Reply × σ)

/-- A gateway with one feature whose runtime prints and reads the empty object. -/
def printingGateway : Gateway :=
  { echoGateway with
    runtime := ⟨fun text => if text = "{}" then some (.obj []) else none, fun _ => "{}",
      fun _ => ""⟩ }

end Gateway

end AgentFeatures
