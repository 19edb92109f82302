import AgentFeatures.Catalog.VersionTexts
import AgentFeatures.Gateway.Dispatches
import AgentFeatures.Gateway.Preferred
import AgentFeatures.Gateway.JsonRpc
import AgentFeatures.Library.Contract

/-! How the requests of a run can fail: with the statuses of their routes and nothing else. -/

namespace AgentFeatures

open Library
open Library.Text (strip)

/-- No comparison of a version with the pin raises on the pin's text. -/
def PinConverts (version : Option String) : Prop :=
  ∀ pin ∈ given version,
    strip pin.toList ∈ anyVersion ∨ DigitsConvert (baseText (strip pin.toList))

/-- The version pins of all steps convert. -/
def Composite.PinsConvert (composite : Composite) : Prop :=
  ∀ step ∈ composite.steps, PinConverts step.version

namespace Request

/-- The statuses that the route of a request fails with. -/
def statuses : Request → List Nat
  | invokeFeature _ _ => [404, 422, 503]
  | invokeCapability _ _ _ _ => [404, 422, 503]
  | invokeComposite _ _ => [404, 422]
  | _ => []

/-- Nothing in the request makes its handler raise: its pins convert, and an MCP message has
the shape of one.
-/
def WellPosed : Request → Prop
  | invokeCapability _ _ _ version => PinConverts version
  | compose spec => spec.PinsConvert
  | mcp message => Mcp.WellShaped message
  | _ => True

end Request

namespace Gateway

/-- The request returned, or it failed with one of these statuses. -/
def FailsWith {α : Type} (statuses : List Nat) (outcome : Except Fault α) : Prop :=
  ∀ fault, outcome = .error fault → ∃ status ∈ statuses, ∃ detail, fault = .http status detail

/-- Any reply may come, and pins in the registry convert. -/
def convertible : Contract AppState Write ChatEvent Dispatch Reply where
  reads state := ∀ entry ∈ state.composites.entries, entry.2.PinsConvert
  replies _ _ := True
  writes
    | .publish composite => composite.PinsConvert
    | .record _ _ _ => True
  emits _ := True
  calls _ := True

variable (gateway : Gateway)

/-- The version texts of the catalog convert. -/
def VersionsConvert : Prop :=
  ∀ f ∈ gateway.catalog.list, DigitsConvert f.manifest.version.toList

section Handlers

variable {gateway}

/-- A returned value is no failure. -/
theorem failsWith_ok {α : Type} (statuses : List Nat) (value : α)
    : FailsWith statuses (.ok value) :=
  fun _ raised => nomatch raised

/-- With versions and pins that convert, providers are found and ranked. -/
theorem ranking_isSome (byScore : gateway.policy.ByScore) (versions : gateway.VersionsConvert)
    {version : Option String} (pin : PinConverts version) (capability : String)
    (vendor : Option String) (store : MetricsStore)
    : (gateway.ranking capability vendor version store).isSome := by
  have pins : PinsParse gateway.catalog.list capability version vendor := by
    intro f member _ text isPin
    refine matchVersion_isSome_iff.mpr ?_
    rcases pin text isPin with any | base
    · exact Or.inl any
    · exact Or.inr ⟨versions f member, base⟩
  have selected := selectProviders_eq_some_iff.mpr ⟨pins, rfl⟩
  rw [ranking, providers, selected, Option.bind_some, byScore, sortedBy_isSome_iff]
  intro f kept
  rw [scoreKey, Option.isSome_map, rankKey_isSome_iff]
  exact versions f (List.mem_of_mem_filter kept)

/-- Then the handlers' ranking never raises. -/
theorem rankProviders_keeps (byScore : gateway.policy.ByScore)
    (versions : gateway.VersionsConvert) {version : Option String}
    (pin : PinConverts version) (capability : String) (vendor : Option String)
    : (gateway.rankProviders capability vendor version).Keeps convertible (FailsWith []) := by
  have ranks := ranking_isSome byScore versions pin capability vendor
  rw [rankProviders]
  cases found : gateway.providers capability vendor version with
  | none =>
      have absent := ranks ∅
      rw [ranking, found] at absent
      cases absent
  | some selected =>
      intro state _
      have present := ranks state.store
      rw [ranking, found, Option.bind_some] at present
      obtain ⟨ranked, known⟩ := Option.isSome_iff_exists.mp present
      simp only [known]
      exact failsWith_ok _ _

/-- An `HTTPException` fails with its status. -/
theorem failsWith_http {α : Type} {statuses : List Nat} {status : Nat}
    (member : status ∈ statuses) (detail : Detail)
    : FailsWith (α := α) statuses (.error (.http status detail)) := by
  intro fault raised
  cases raised
  exact ⟨status, member, detail, rfl⟩

/-- What never fails fails with no status in particular, whatever it returns. -/
theorem failsWith_of_none {α β : Type} {statuses : List Nat} {fault : Fault}
    (never : FailsWith (α := α) [] (.error fault))
    : FailsWith (α := β) statuses (.error fault) := by
  obtain ⟨status, absent, -⟩ := never fault rfl
  cases absent

/-- Mapping the result keeps how it fails. -/
theorem failsWith_map {α β : Type} {statuses : List Nat} {outcome : Except Fault α}
    (fails : FailsWith statuses outcome) (f : α → β)
    : FailsWith statuses (outcome.map f) := by
  intro fault raised
  cases outcome with
  | ok value => cases raised
  | error other =>
      cases raised
      exact fails fault rfl

/-- A handler whose result is mapped fails with the same statuses. -/
theorem keeps_map {α β : Type} {statuses : List Nat} {handler : Handler α} (f : α → β)
    (kept : handler.Keeps convertible (FailsWith statuses))
    : (f <$> handler).Keeps convertible (FailsWith statuses) :=
  Coroutine.Keeps.map f (kept.mono fun _ fails => failsWith_map fails f)

/-- The shared dispatch of the two REST faces fails with 422 or 503. -/
theorem invoke_keeps (feature : Feature) (body : InvokeRequest)
    : (gateway.invoke feature body).Keeps convertible (FailsWith [404, 422, 503]) := by
  simp only [invoke]
  split
  · exact failsWith_http (by simp) _
  · refine ⟨trivial, fun reply _ => ?_⟩
    cases reply with
    | inputError message => exact failsWith_http (by simp) _
    | unavailable message => exact ⟨trivial, failsWith_http (by simp) _⟩
    | result output latencyMs => exact ⟨trivial, failsWith_ok _ _⟩

theorem invokeFeature_keeps (name : String) (body : InvokeRequest)
    : (gateway.invokeFeature name body).Keeps convertible (FailsWith [404, 422, 503]) := by
  unfold invokeFeature
  split
  · exact failsWith_http (by simp) _
  · exact invoke_keeps _ body

theorem invokeCapability_keeps (byScore : gateway.policy.ByScore)
    (versions : gateway.VersionsConvert) {version : Option String}
    (pin : PinConverts version) (capability : String) (body : InvokeRequest)
    (vendor : Option String)
    : (gateway.invokeCapability capability body vendor version).Keeps convertible
        (FailsWith [404, 422, 503]) := by
  refine (rankProviders_keeps byScore versions pin capability vendor).bind
    (fun ranked _ => ?_) fun fault never => failsWith_of_none never
  cases ranked with
  | nil => exact failsWith_http (by simp) _
  | cons feature others => exact invoke_keeps feature body

/-- A step of a composite never fails: its errors are messages. -/
theorem runCapability_keeps (byScore : gateway.policy.ByScore)
    (versions : gateway.VersionsConvert) {version : Option String}
    (pin : PinConverts version) (capability : String) (input : Dict String Json)
    (vendor : Option String)
    : (gateway.runCapability capability input vendor version).Keeps convertible
        (FailsWith []) := by
  refine (rankProviders_keeps byScore versions pin capability vendor).bind
    (fun ranked _ => ?_) fun fault never => failsWith_of_none never
  cases ranked with
  | nil => exact failsWith_ok _ _
  | cons feature others =>
      dsimp only
      split
      · exact failsWith_ok _ _
      · refine ⟨trivial, fun reply _ => ?_⟩
        cases reply with
        | inputError message => exact failsWith_ok _ _
        | unavailable message => exact ⟨trivial, failsWith_ok _ _⟩
        | result output latencyMs => exact ⟨trivial, failsWith_ok _ _⟩

/-- The composer's loop never fails on steps whose pins convert. Witness: induction on the
steps.
-/
theorem runSteps_keeps (byScore : gateway.policy.ByScore)
    (versions : gateway.VersionsConvert) (composite : Composite) (steps : List Step)
    (pins : ∀ step ∈ steps, PinConverts step.version) (ctx : Dict String Json)
    (trace : List TraceEntry)
    : (Composer.runSteps gateway.runCapability composite steps ctx trace).Keeps convertible
        (FailsWith []) := by
  induction steps generalizing ctx trace with
  | nil =>
      rw [Composer.runSteps_nil]
      split
      · exact failsWith_ok _ _
      · exact failsWith_ok _ _
  | cons step rest ih =>
      have here := pins step List.mem_cons_self
      have later := ih fun other member => pins other (List.mem_cons_of_mem _ member)
      cases resolved : resolveRefs ctx step.inputs with
      | error err =>
          rw [Composer.runSteps_unresolved _ _ _ _ resolved]
          exact failsWith_ok _ _
      | ok stepInput =>
          rw [Composer.runSteps_resolved _ _ _ _ resolved]
          refine (runCapability_keeps byScore versions here _ _ _).bind (fun reply _ => ?_)
            fun fault never => failsWith_of_none never
          split
          · exact failsWith_ok _ _
          · exact later _ _

/-- A composite fails before its first step or not at all. -/
theorem invokeComposite_keeps (byScore : gateway.policy.ByScore)
    (versions : gateway.VersionsConvert) (name : String) (body : InvokeRequest)
    : (gateway.invokeComposite name body).Keeps convertible (FailsWith [404, 422]) := by
  intro state pins
  dsimp only
  split
  · exact failsWith_http (by simp) _
  · next composite found =>
      have published := pins _ (Dict.get?_eq_some_iff.mp found)
      split
      · exact failsWith_http (by simp) _
      · exact (runSteps_keeps byScore versions composite _ published _ _).mono
          fun outcome never fault raised => by
            obtain ⟨status, absent, -⟩ := never fault raised
            cases absent

theorem sayAll_keeps (events : List ChatEvent)
    : (sayAll events).Keeps convertible (FailsWith []) := by
  induction events with
  | nil => exact failsWith_ok _ _
  | cons event events ih => exact ⟨trivial, ih⟩

theorem chatFeature_keeps (byScore : gateway.policy.ByScore)
    (versions : gateway.VersionsConvert) (head : Text)
    : (gateway.chatFeature head).Keeps convertible (FailsWith []) := by
  have noPin : PinConverts none := fun _ absent => nomatch absent
  unfold chatFeature
  split
  · refine ⟨trivial, ?_⟩
    refine (rankProviders_keeps byScore versions noPin _ none).bind (fun ranked _ => ?_)
      fun fault never => failsWith_of_none never
    cases ranked with
    | nil => exact ⟨trivial, failsWith_ok _ _⟩
    | cons feature others => exact failsWith_ok _ _
  · split
    · exact ⟨trivial, failsWith_ok _ _⟩
    · exact failsWith_ok _ _

theorem chatInvoke_keeps (feature : Feature) (payload : Json)
    : (gateway.chatInvoke feature payload).Keeps convertible (FailsWith []) := by
  refine ⟨trivial, ?_⟩
  cases gateway.inputErrors feature payload with
  | cons error errors => exact ⟨trivial, failsWith_ok _ _⟩
  | nil =>
      refine ⟨trivial, fun reply _ => ?_⟩
      cases reply with
      | inputError message => exact ⟨trivial, failsWith_ok _ _⟩
      | unavailable message => exact ⟨trivial, trivial, failsWith_ok _ _⟩
      | result output latencyMs => exact ⟨trivial, trivial, failsWith_ok _ _⟩

/-- A chat stream always ends. -/
theorem chat_keeps (byScore : gateway.policy.ByScore) (versions : gateway.VersionsConvert)
    (text : String)
    : (gateway.chat text).Keeps convertible (FailsWith []) := by
  unfold chat
  dsimp only
  split
  · exact sayAll_keeps _
  · split
    · exact sayAll_keeps _
    · split
      · exact ⟨trivial, failsWith_ok _ _⟩
      · refine (chatFeature_keeps byScore versions _).bind (fun found _ => ?_)
          fun fault never => failsWith_of_none never
        cases found with
        | none => exact failsWith_ok _ _
        | some feature => exact chatInvoke_keeps feature _

theorem invokeTool_keeps (msgId : Json) (name : String) (feature : Feature)
    (arguments : Json)
    : (Mcp.invokeTool gateway msgId name feature arguments).Keeps convertible
        (FailsWith []) := by
  unfold Mcp.invokeTool
  split
  · exact failsWith_ok _ _
  · refine ⟨trivial, fun reply _ => ?_⟩
    cases reply <;> exact failsWith_ok _ _

/-- A `tools/call` with callable parameters returns. -/
theorem call_keeps (msgId : Json) {params : Json} (callable : Mcp.Callable params)
    : (Mcp.call gateway msgId params).Keeps convertible (FailsWith []) := by
  obtain ⟨object, nameable⟩ := callable
  cases params with
  | obj fields =>
      simp only [Mcp.call, Json.get?]
      split
      · next fault failed =>
          obtain ⟨truthy, listed, -⟩ := (Mcp.findTool_error_iff gateway).mp failed
          exact absurd (nameable _ rfl truthy) (by simp [listed])
      · exact failsWith_ok _ _
      · exact invokeTool_keeps msgId _ _ _
  | _ => cases object

/-- A well-shaped message is answered. Witness: the branches of `handle`. -/
theorem handle_keeps {message : Json} (shaped : Mcp.WellShaped message)
    : (Mcp.handle gateway message).Keeps convertible (FailsWith []) := by
  cases message with
  | obj fields =>
      obtain ⟨method, hasMethod⟩ : ∃ method, (Json.obj fields).get? "method" = some method :=
        ⟨_, rfl⟩
      obtain ⟨msgId, hasId⟩ : ∃ msgId, (Json.obj fields).get? "id" = some msgId := ⟨_, rfl⟩
      obtain ⟨params, hasParams⟩ : ∃ params, (Json.obj fields).get? "params" = some params :=
        ⟨_, rfl⟩
      simp only [Mcp.handle, hasMethod, hasId, hasParams]
      split
      · exact failsWith_ok _ _
      · next answered =>
          split
          · exact failsWith_ok _ _
          · next notStart =>
              split
              · exact failsWith_ok _ _
              · split
                · next calls =>
                    have isCall : method = .str "tools/call" := by
                      cases method with
                      | str text => simpa [Mcp.isText] using calls
                      | _ => cases calls
                    have withId : Mcp.isNone msgId = false := by
                      simpa [notStart] using answered
                    subst isCall
                    have callable := shaped.2 msgId params hasMethod hasId withId hasParams
                    exact keeps_map some (call_keeps msgId callable)
                · exact failsWith_ok _ _
  | _ => cases shaped.1

end Handlers

/-- Every well-posed request fails with the statuses of its route only. Witness: the
handlers one by one.
-/
theorem serve_keeps {gateway : Gateway} (byScore : gateway.policy.ByScore)
    (versions : gateway.VersionsConvert) {request : Request} (posed : request.WellPosed)
    : (gateway.serve request).Keeps convertible (FailsWith request.statuses) := by
  cases request with
  | invokeFeature name body => exact keeps_map _ (invokeFeature_keeps name body)
  | invokeCapability capability body vendor version =>
      exact keeps_map _ (invokeCapability_keeps byScore versions posed capability body vendor)
  | invokeComposite name body =>
      exact keeps_map _ (invokeComposite_keeps byScore versions name body)
  | compose spec => exact ⟨posed, failsWith_ok _ _⟩
  | chat text => exact keeps_map _ (chat_keeps byScore versions text)
  | mcp message => exact keeps_map _ (handle_keeps posed)

end Gateway

end AgentFeatures
