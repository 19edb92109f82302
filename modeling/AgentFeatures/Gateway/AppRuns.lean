import AgentFeatures.AgentDsl.Identifiers
import AgentFeatures.Gateway.App
import AgentFeatures.Library.Extension

/-! Runs of the whole app, seen as runs of the handlers that invoke and publish. -/

namespace AgentFeatures

open Library

namespace App

variable (app : App)

-----------------------------------------------------------------------------------------
-- The compiler
-----------------------------------------------------------------------------------------

/-- Accepted sources have code in every language. -/
theorem exists_generated {source : String} {composite : Composite}
    (accepted : (AgentDsl.parse source).1 = some composite)
    : ∃ code,
        app.generated composite = some code
        ∧ code.keys = languages
        ∧ ∀ lang ∈ languages, code.get? lang = AgentDsl.codegen app.text composite lang := by
  have supported : ∀ lang ∈ languages,
      (AgentDsl.Language.ofName? (AgentDsl.unaliased lang)).isSome := by decide
  have coded (lang : String) (member : lang ∈ languages)
      : ∃ code, AgentDsl.codegen app.text composite lang = some code := by
    obtain ⟨language, known⟩ := Option.isSome_iff_exists.mp (supported lang member)
    obtain ⟨code, generated, -⟩ := AgentDsl.exists_code_of_accepted app.text accepted known
    exact ⟨code, generated⟩
  choose! code known using coded
  have mapped : (languages.mapM fun lang =>
      (AgentDsl.codegen app.text composite lang).map fun code => (lang, code))
      = some (languages.map fun lang => (lang, code lang)) :=
    mapM_of_eq_some fun lang member => by rw [known lang member, Option.map_some]
  have names : (languages.map fun lang => (lang, code lang)).map Prod.fst = languages := by
    simp [Function.comp_def]
  have entries := Dict.entries_ofList (names.symm ▸ (by decide : languages.Nodup))
  refine ⟨_, by rw [generated, mapped, Option.map_some], ?_, fun lang member => ?_⟩
  · rw [Dict.keys, entries, names]
  · rw [known lang member, Dict.get?_eq_some_iff, entries]
    exact List.mem_map.mpr ⟨lang, member, rfl⟩

/-- What a compilation of the source answers and leaves behind: a rejected source has errors
and changes nothing; an accepted one has its composite, its code in every language and no
errors, and is registered if it is to be published.
-/
structure CompilesTo (fields : List (String × Json)) (state : AppState) (result : Compiled)
    (after : AppState)
    : Prop where
  ok : result.ok = true ↔ ((AgentDsl.parse (app.sourceOf fields)).1).isSome
  rejected
    : result.ok = false
      → result.errors ≠ []
        ∧ result.errors = (AgentDsl.parse (app.sourceOf fields)).2
        ∧ after = state
  accepted
    : ∀ composite,
        (AgentDsl.parse (app.sourceOf fields)).1 = some composite
        → result.composite = some composite
          ∧ result.errors = []
          ∧ result.code.keys = languages
          ∧ (∀ lang ∈ languages,
              result.code.get? lang = AgentDsl.codegen app.text composite lang)
          ∧ after
            = if publishes fields then
                { state with composites := state.composites.set composite.name composite }
              else state

/-- A source without a composite has errors. -/
theorem errors_of_rejected {source : String} (rejected : (AgentDsl.parse source).1 = none)
    : (AgentDsl.parse source).2 ≠ [] := by
  rw [AgentDsl.parse] at rejected ⊢
  generalize List.foldl AgentDsl.parseRaw {} _ = state at rejected ⊢
  unfold AgentDsl.finish at rejected ⊢
  grind

/-- Compiling an object answers at once, whatever it holds, and does nothing else. Witness:
the parser's result; accepted sources have code in all languages.
-/
theorem compileAgent_compiles (fields : List (String × Json)) (state : AppState)
    : ∃ result after,
        (app.compileAgent (.obj fields)).advance app.system.apply state = (.done result, after)
        ∧ app.CompilesTo fields state result after := by
  cases parsed : AgentDsl.parse (app.sourceOf fields) with
  | mk accepted errors =>
      cases accepted with
      | none =>
          have filled := errors_of_rejected (congrArg Prod.fst parsed)
          rw [parsed] at filled
          refine ⟨{ ok := false, errors }, state, ?_, ?_, ?_, ?_⟩
          · simp only [compileAgent, parsed]
            rfl
          · simp [parsed]
          · exact fun _ => ⟨filled, by rw [parsed], rfl⟩
          · intro composite same
            rw [parsed] at same
            cases same
      | some composite =>
          obtain ⟨code, generated, keys, each⟩ :=
            app.exists_generated (congrArg Prod.fst parsed)
          let after : AppState :=
            if publishes fields then
              { state with composites := state.composites.set composite.name composite }
            else state
          refine ⟨compiledResponse fields composite code, after, ?_, ?_, ?_, ?_⟩
          · simp only [compileAgent, parsed, respondCompiled, generated, after]
            split <;> rfl
          · simp [parsed, compiledResponse]
          · exact fun failed => nomatch failed
          · intro other same
            rw [parsed] at same
            cases same
            exact ⟨rfl, rfl, keys, each, rfl⟩

/-- The composite that the body asks to compile and to publish, if its source is accepted. -/
def publication? : Json → Option Composite
  | .obj fields => if publishes fields then (AgentDsl.parse (app.sourceOf fields)).1 else none
  | _ => none

/-- The response to the body of an accepted source. -/
def acceptedResponse : Json → AppResponse
  | .obj fields =>
      match (AgentDsl.parse (app.sourceOf fields)).1 with
      | some composite =>
          .compiled (compiledResponse fields composite ((app.generated composite).getD ∅))
      | none => .compiled { ok := false }
  | _ => .compiled { ok := false }

/-- Compiling for publication is publishing, and is answered with the code. -/
theorem compileAgent_of_publication {body : Json} {composite : Composite}
    (asked : app.publication? body = some composite)
    : AppResponse.compiled <$> app.compileAgent body
      = (fun _ => app.acceptedResponse body) <$> Gateway.compose composite := by
  cases body with
  | obj fields =>
      rw [publication?] at asked
      split at asked
      · next publishes =>
          obtain ⟨code, generated, -, -⟩ := app.exists_generated asked
          cases parsed : AgentDsl.parse (app.sourceOf fields) with
          | mk accepted errors =>
              rw [parsed] at asked
              cases asked
              simp only [compileAgent, acceptedResponse, parsed, publishes, respondCompiled,
                generated, if_true, Option.getD_some]
              rfl
      · cases asked
  | _ => cases asked

/-- Compiling for anything else only reads. -/
theorem compileAgent_silent {body : Json} (unasked : app.publication? body = none)
    : (app.compileAgent body).Silent := by
  have responds (fields : List (String × Json)) (composite : Composite)
      : (app.respondCompiled fields composite).Silent := by
    unfold respondCompiled
    split <;> trivial
  cases body with
  | obj fields =>
      simp only [compileAgent, publication?] at unasked ⊢
      split
      · trivial
      · next composite errors accepted =>
          split
          · next publishes => simp [publishes, accepted] at unasked
          · exact responds fields composite
  | _ => trivial

-----------------------------------------------------------------------------------------
-- Runs of the app
-----------------------------------------------------------------------------------------

/-- What a request asks the invoking and publishing handlers to do. -/
def view : AppRequest → Option Request
  | .handled request => some request
  | .compileAgent body => (app.publication? body).map Request.compose
  | _ => none

/-- How the app words the response of such a handler. -/
def worded : AppRequest → Response → AppResponse
  | .compileAgent body, _ => app.acceptedResponse body
  | _, response => .handled response

/-- The ranking of a capability only reads. -/
theorem rankedProviders_silent (capability : String)
    : (app.rankedProviders capability).Silent := by
  unfold rankedProviders
  split
  · trivial
  · unfold Gateway.rankProviders
    split
    · trivial
    · intro state
      dsimp only
      split <;> trivial

/-- The rows of a ranking are read one by one. Witness: induction on the providers. -/
theorem scoreRows_silent (ranked : List Feature) : (app.scoreRows ranked).Silent := by
  induction ranked with
  | nil => trivial
  | cons f rest ih => exact fun state => ih.map _

/-- The app extends the handlers by requests that only read. -/
theorem extends_gateway : Extends app.system app.gateway.system app.view app.worded where
  apply := rfl
  seen label core viewed := by
    cases label with
    | handled request =>
        cases viewed
        rfl
    | compileAgent body =>
        obtain ⟨composite, asked, rfl⟩ := Option.map_eq_some_iff.mp viewed
        exact app.compileAgent_of_publication asked
    | _ => cases viewed
  unseen label hidden := by
    cases label with
    | handled request => cases hidden
    | compileAgent body =>
        exact (app.compileAgent_silent (Option.map_eq_none_iff.mp hidden)).map _
    | listFeatures tag q => trivial
    | getFeature name =>
        refine Coroutine.Silent.map _ ?_
        unfold getFeature
        split <;> trivial
    | listCapabilities =>
        refine Coroutine.Silent.map _ ?_
        unfold listCapabilities
        split <;> trivial
    | getCapability capability => exact (app.rankedProviders_silent capability).map _
    | capabilityRanking capability =>
        exact ((app.rankedProviders_silent capability).bind app.scoreRows_silent).map _
    | listComposites =>
        have reads : listComposites.Silent := fun _ => trivial
        exact reads.map _
    | getComposite name =>
        refine Coroutine.Silent.map _ fun state => ?_
        dsimp only
        split <;> trivial

/-- In any interleaving of requests to all routes, the shared state, the dispatches, their
answers and the tasks of the invoking and publishing requests are those of a run of these
requests alone: discovery, ranking and compilation leave no trace, and publishing a compiled
agent is publishing its composite.
-/
theorem app_refines_gateway (state : AppState)
    : ∀ pool,
        app.system.Reaches (.initial state) pool
        → ∃ core,
            app.gateway.system.Reaches (.initial state) core
            ∧ SeenPool app.view app.worded pool core :=
  fun _ run => System.Reaches.seen app.extends_gateway run

/-- The app of the two rivals, with the default policy. -/
def rivalApp : App :=
  create Gateway.rivals smallValidator Gateway.echoGateway.runtime none id AgentDsl.asciiText

/-- A listing, and a call of a feature that is answered after it. -/
def listingAndCall : List (Action AppRequest Reply) :=
  [.arrive (.handled (.invokeFeature "a" {})), .arrive .listComposites,
    .reply 0 (.result ∅ 1)]

/-- The listing leaves no trace in the run of the call. -/
theorem app_refines_gateway_rivals
    : ∃ pool,
        rivalApp.system.play listingAndCall (.initial ⟨∅, ∅⟩) = some pool
        ∧ ∃ core,
            rivalApp.gateway.system.Reaches (.initial ⟨∅, ∅⟩) core
            ∧ SeenPool rivalApp.view rivalApp.worded pool core := by
  obtain ⟨pool, played⟩ := Option.isSome_iff_exists.mp
    (show (rivalApp.system.play listingAndCall (.initial ⟨∅, ∅⟩)).isSome by decide)
  exact ⟨pool, played,
    rivalApp.app_refines_gateway ⟨∅, ∅⟩ pool (System.reaches_of_play played)⟩

end App

end AgentFeatures
