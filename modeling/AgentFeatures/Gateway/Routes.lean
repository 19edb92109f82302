import AgentFeatures.Gateway.Handlers

/-! How a call of a capability goes until its dispatch, and what follows on the reply. -/

namespace AgentFeatures

open Library

namespace Gateway

/-- What follows on a dispatch runs on its reply. -/
theorem dispatch_bind_run {σ α : Type} (answer : Dispatch → σ → Reply × σ)
    (feature : String) (payload : Json) (context : RequestContext) (k : Reply → Handler α)
    (state : AppState) (world : σ)
    : (dispatch feature payload context >>= k).run Write.apply answer state world
      = (let replied := answer ⟨feature, payload, context⟩ world
         let later := (k replied.1).run Write.apply answer state replied.2
         { later with calls := (⟨feature, payload, context⟩, replied.1) :: later.calls }) := rfl

variable (gateway : Gateway)

/-- The ranked providers under the pins; `none` when a version text raises. -/
def ranking (capability : String) (vendor version : Option String) (store : MetricsStore)
    : Option (List Feature) :=
  (gateway.providers capability vendor version).bind (gateway.policy.rank · store)

/-- What follows on the ranking runs on the same state. -/
theorem rankProviders_bind_run {σ α : Type} (answer : Dispatch → σ → Reply × σ)
    (capability : String) (vendor version : Option String) (k : List Feature → Handler α)
    (state : AppState) (world : σ)
    : (gateway.rankProviders capability vendor version >>= k).run Write.apply answer state world
      = match gateway.ranking capability vendor version state.store with
        | none => ⟨.error .uncaught, state, world, [], []⟩
        | some ranked => (k ranked).run Write.apply answer state world := by
  rw [rankProviders, ranking]
  cases gateway.providers capability vendor version with
  | none => rfl
  | some selected =>
      rw [Option.bind_some, Coroutine.bind_read, Coroutine.run]
      cases gateway.policy.rank selected state.store <;> rfl

/-- How far a call gets before its dispatch: no ranking, no provider, an input that the
top-ranked provider rejects, or one that it accepts.
-/
inductive Route (capability : String) (input : Dict String Json) (vendor version : Option String)
    (store : MetricsStore) : Prop
  | unranked (raised : gateway.ranking capability vendor version store = none)
  | unprovided (empty : gateway.ranking capability vendor version store = some [])
  | rejected {feature : Feature} {others : List Feature} {error : String} {errors : List String}
    (ranked : gateway.ranking capability vendor version store = some (feature :: others))
    (violations : gateway.inputErrors feature (.ofDict input) = error :: errors)
  | dispatched {feature : Feature} {others : List Feature}
    (ranked : gateway.ranking capability vendor version store = some (feature :: others))
    (accepted : gateway.inputErrors feature (.ofDict input) = [])

/-- Every call goes one of these ways. -/
theorem route (capability : String) (input : Dict String Json) (vendor version : Option String)
    (store : MetricsStore)
    : gateway.Route capability input vendor version store := by
  cases ranked : gateway.ranking capability vendor version store with
  | none => exact .unranked ranked
  | some providers =>
      cases providers with
      | nil => exact .unprovided ranked
      | cons feature others =>
          cases violations : gateway.inputErrors feature (.ofDict input) with
          | nil => exact .dispatched ranked violations
          | cons error errors => exact .rejected ranked violations

-----------------------------------------------------------------------------------------
-- The dispatch of a call
-----------------------------------------------------------------------------------------

/-- The dispatch that a call makes in a state: its input, to the top-ranked provider, if there is
one and it accepts the input.
-/
def routed (capability : String) (input : Dict String Json) (context : RequestContext)
    (vendor version : Option String) (store : MetricsStore)
    : Option Dispatch :=
  match gateway.ranking capability vendor version store with
  | some (feature :: _) =>
      match gateway.inputErrors feature (.ofDict input) with
      | [] => some ⟨feature.manifest.name, .ofDict input, context⟩
      | _ :: _ => none
  | _ => none

/-- What a call dispatches goes to the provider that heads the ranking and accepts the input. -/
theorem routed_eq_some_iff {capability : String} {input : Dict String Json}
    {context : RequestContext} {vendor version : Option String} {store : MetricsStore}
    {call : Dispatch}
    : gateway.routed capability input context vendor version store = some call
      ↔ ∃ feature others,
          gateway.ranking capability vendor version store = some (feature :: others)
          ∧ gateway.inputErrors feature (.ofDict input) = []
          ∧ call = ⟨feature.manifest.name, .ofDict input, context⟩ := by
  cases gateway.route capability input vendor version store with
  | unranked raised => simp [routed, raised]
  | unprovided empty => simp [routed, empty]
  | rejected ranked violations => simp [routed, ranked, violations]
  | @dispatched feature others ranked accepted =>
      have goes : gateway.routed capability input context vendor version store
          = some ⟨feature.manifest.name, .ofDict input, context⟩ := by
        simp only [routed, ranked, accepted]
      rw [goes, Option.some.injEq]
      constructor
      · intro same
        exact ⟨feature, others, ranked, accepted, same.symm⟩
      · intro target
        obtain ⟨feature', others', ranked', -, same⟩ := target
        cases ranked.symm.trans ranked'
        exact same.symm

section Calls

variable {σ : Type} (answer : Dispatch → σ → Reply × σ)

/-- A call of a capability dispatches what it is routed to. -/
theorem invokeCapability_calls (capability : String) (body : InvokeRequest)
    (vendor version : Option String) (state : AppState) (world : σ)
    : ((gateway.invokeCapability capability body vendor version).run
        Write.apply answer state world).calls
      = (gateway.routed capability body.input body.context vendor version state.store).toList.map
          fun call => (call, (answer call world).1) := by
  cases gateway.route capability body.input vendor version state.store with
  | unranked raised => simp [invokeCapability, rankProviders_bind_run, routed, raised]
  | unprovided empty =>
      simp [invokeCapability, rankProviders_bind_run, routed, empty, raiseHttp, Coroutine.run]
  | rejected ranked violations =>
      simp [invokeCapability, rankProviders_bind_run, routed, ranked, invoke, violations,
        raiseHttp, Coroutine.run]
  | @dispatched feature others ranked accepted =>
      simp only [invokeCapability, rankProviders_bind_run, routed, ranked, invoke, accepted,
        dispatch_bind_run, Option.toList_some, List.map_cons, List.map_nil]
      generalize answer ⟨feature.manifest.name, .ofDict body.input, body.context⟩ world = replied
      obtain ⟨reply, later⟩ := replied
      cases reply <;> simp [record, raiseHttp, Coroutine.run]

/-- A step of a composite dispatches what it is routed to, with the default context. -/
theorem runCapability_calls (capability : String) (input : Dict String Json)
    (vendor version : Option String) (state : AppState) (world : σ)
    : ((gateway.runCapability capability input vendor version).run
        Write.apply answer state world).calls
      = (gateway.routed capability input {} vendor version state.store).toList.map
          fun call => (call, (answer call world).1) := by
  cases gateway.route capability input vendor version state.store with
  | unranked raised => simp [runCapability, rankProviders_bind_run, routed, raised]
  | unprovided empty =>
      simp [runCapability, rankProviders_bind_run, routed, empty, Coroutine.run]
  | rejected ranked violations =>
      simp [runCapability, rankProviders_bind_run, routed, ranked, violations, Coroutine.run]
  | @dispatched feature others ranked accepted =>
      simp only [runCapability, rankProviders_bind_run, routed, ranked, accepted,
        dispatch_bind_run, Option.toList_some, List.map_cons, List.map_nil]
      generalize answer ⟨feature.manifest.name, .ofDict input, {}⟩ world = replied
      obtain ⟨reply, later⟩ := replied
      cases reply <;> simp [record, Coroutine.run]

end Calls

end Gateway

end AgentFeatures
