import AgentFeatures.Gateway.Server
import AgentFeatures.Library.Redaction

/-! The texts of the invoker's exceptions stay inside the gateway. -/

namespace AgentFeatures

open Library

/-- The reply without the text of its exception. -/
def Reply.redacted : Reply → Reply
  | result output latencyMs => result output latencyMs
  | inputError _ => inputError ""
  | unavailable _ => unavailable ""

namespace Gateway

variable (gateway : Gateway)

theorem rankProviders_blind (redact : Reply → Reply) (capability : String)
    (vendor version : Option String)
    : (gateway.rankProviders capability vendor version).Blind redact := by
  unfold rankProviders
  split
  · trivial
  · intro state
    dsimp only
    split <;> trivial

/-- The shared dispatch of the two REST faces answers both exceptions with fixed texts. -/
theorem invoke_blind (feature : Feature) (body : InvokeRequest)
    : (gateway.invoke feature body).Blind Reply.redacted := by
  simp only [invoke]
  split
  · trivial
  · intro reply
    cases reply <;> exact ⟨rfl, trivial⟩

theorem invokeFeature_blind (name : String) (body : InvokeRequest)
    : (gateway.invokeFeature name body).Blind Reply.redacted := by
  unfold invokeFeature
  split
  · trivial
  · exact gateway.invoke_blind _ body

theorem invokeCapability_blind (capability : String) (body : InvokeRequest)
    (vendor version : Option String)
    : (gateway.invokeCapability capability body vendor version).Blind Reply.redacted := by
  refine (gateway.rankProviders_blind _ capability vendor version).bind fun ranked => ?_
  cases ranked with
  | nil => trivial
  | cons feature others => exact gateway.invoke_blind feature body

theorem runCapability_blind (capability : String) (input : Dict String Json)
    (vendor version : Option String)
    : (gateway.runCapability capability input vendor version).Blind Reply.redacted := by
  refine (gateway.rankProviders_blind _ capability vendor version).bind fun ranked => ?_
  cases ranked with
  | nil => trivial
  | cons feature others =>
      dsimp only
      split
      · trivial
      · intro reply
        cases reply <;> exact ⟨rfl, trivial⟩

theorem invokeComposite_blind (name : String) (body : InvokeRequest)
    : (gateway.invokeComposite name body).Blind Reply.redacted := by
  intro state
  dsimp only
  split
  · trivial
  · split
    · trivial
    · exact Composer.runSteps_closed
        (fun {_} program => Coroutine.Blind Reply.redacted program)
        (fun _ => by trivial) (fun first later => first.bind later)
        gateway.runCapability_blind _ _ _ _

theorem sayAll_blind (redact : Reply → Reply) (events : List ChatEvent)
    : (sayAll events).Blind redact := by
  induction events with
  | nil => trivial
  | cons event events ih => exact ih

theorem chatFeature_blind (redact : Reply → Reply) (head : Text)
    : (gateway.chatFeature head).Blind redact := by
  unfold chatFeature
  split
  · refine (gateway.rankProviders_blind redact _ none none).bind fun ranked => ?_
    cases ranked <;> trivial
  · split <;> trivial

theorem chatInvoke_blind (feature : Feature) (payload : Json)
    : (gateway.chatInvoke feature payload).Blind Reply.redacted := by
  unfold chatInvoke
  cases gateway.inputErrors feature payload with
  | cons error errors => trivial
  | nil =>
      intro reply
      cases reply <;> exact ⟨rfl, trivial⟩

theorem chat_blind (text : String) : (gateway.chat text).Blind Reply.redacted := by
  unfold chat
  dsimp only
  split
  · exact sayAll_blind _ _
  · split
    · exact sayAll_blind _ _
    · split
      · trivial
      · refine (gateway.chatFeature_blind _ _).bind fun found => ?_
        cases found with
        | none => trivial
        | some feature => exact gateway.chatInvoke_blind feature _

theorem handle_blind (message : Json)
    : (Mcp.handle gateway message).Blind Reply.redacted := by
  unfold Mcp.handle
  split
  · split
    · trivial
    · split
      · trivial
      · split
        · trivial
        · split
          · refine Coroutine.Blind.map some ?_
            unfold Mcp.call
            split
            · split
              · trivial
              · trivial
              · unfold Mcp.invokeTool
                split
                · trivial
                · intro reply
                  cases reply <;> exact ⟨rfl, trivial⟩
            · trivial
          · trivial
  · trivial

/-- No request looks at the text of an exception. Witness: the handlers one by one. -/
theorem serve_blind (request : Request) : (gateway.serve request).Blind Reply.redacted := by
  cases request with
  | invokeFeature name body => exact (gateway.invokeFeature_blind name body).map _
  | invokeCapability capability body vendor version =>
      exact (gateway.invokeCapability_blind capability body vendor version).map _
  | invokeComposite name body => exact (gateway.invokeComposite_blind name body).map _
  | compose spec => trivial
  | chat text => exact (gateway.chat_blind text).map _
  | mcp message => exact (gateway.handle_blind message).map _

/-- Two runs that differ in the texts of the invoker's exceptions only, in any interleaving,
take the same steps to the same metrics, registry, dispatches, streamed events and responses
on every face: what is left differs in the texts of the history.
-/
theorem exceptionTexts_unseen (state : AppState) {actions others : List (Action Request Reply)}
    (same
      : actions.map (Action.redacted Reply.redacted)
        = others.map (Action.redacted Reply.redacted))
    : (gateway.system.play actions (.initial state)).map (Pool.redacted Reply.redacted)
      = (gateway.system.play others (.initial state)).map (Pool.redacted Reply.redacted) :=
  System.play_congr_redacted gateway.serve_blind same state

/-- A failed call says the same whatever the transport said. -/
theorem exceptionTexts_unseen_echo
    : let call (text : String) : List (Action Request Reply) :=
        [.arrive (.invokeFeature "echo" {}), .reply 0 (.unavailable text)]
      (echoGateway.system.play (call "10.0.0.7:50051 refused") (.initial ⟨∅, ∅⟩)).map
          (Pool.redacted Reply.redacted)
        = (echoGateway.system.play (call "timeout") (.initial ⟨∅, ∅⟩)).map
            (Pool.redacted Reply.redacted) :=
  echoGateway.exceptionTexts_unseen ⟨∅, ∅⟩ rfl

end Gateway

end AgentFeatures
