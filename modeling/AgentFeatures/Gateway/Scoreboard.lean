import AgentFeatures.Gateway.AppRuns
import AgentFeatures.Gateway.Recording

/-! The live ranking of a capability against the calls it is the ranking for. -/

namespace AgentFeatures

open Library

/-- Rounding to digits keeps the order. -/
theorem roundTo_mono (digits : Nat) {p q : Rat} (le : p ≤ q)
    : roundTo digits p ≤ roundTo digits q := by
  have scale : (0 : Rat) ≤ 10 ^ digits := by positivity
  have scaled := FloatRange.roundHalfEven_mono (mul_le_mul_of_nonneg_right le scale)
  exact div_le_div_of_nonneg_right (by exact_mod_cast scaled) scale

/-- A policy that ranks by score ranks scores from the best to the worst. -/
theorem RankingPolicy.ByScore.pairwise {policy : RankingPolicy} (byScore : policy.ByScore)
    {features ranked : List Feature} {store : MetricsStore}
    (known : policy.rank features store = some ranked)
    : ranked.Pairwise fun f g => policy.score g store ≤ policy.score f store := by
  rw [byScore] at known
  have any : features.Pairwise fun _ _ => True := List.pairwise_of_forall fun _ _ => trivial
  refine (sortedBy_pairwise known any).imp fun {f g} ahead => ?_
  obtain ⟨k, l, key, key', order⟩ := ahead
  obtain ⟨base, -, rfl⟩ := Option.map_eq_some_iff.mp key
  obtain ⟨base', -, rfl⟩ := Option.map_eq_some_iff.mp key'
  have keys : (toLex (-policy.score f store, base) : ScoreKey)
      ≤ toLex (-policy.score g store, base') := by
    rcases order with less | ⟨same, -⟩
    · exact le_of_lt less
    · exact le_of_eq same
  rw [Prod.Lex.toLex_le_toLex] at keys
  rcases keys with less | ⟨same, -⟩
  · exact le_of_lt (neg_lt_neg_iff.mp less)
  · exact le_of_eq (neg_injective same).symm

namespace App

variable (app : App)

/-- The rows are read on the state of the ranking. Witness: induction on the providers. -/
theorem scoreRows_advance (ranked : List Feature) (state : AppState)
    : (app.scoreRows ranked).advance Write.apply state
      = (.done (ranked.map (app.providerScore state.store)), state) := by
  induction ranked with
  | nil => rfl
  | cons f rest ih =>
      have mapped := Coroutine.advance_map_eq Write.apply
        (fun rows => app.providerScore state.store f :: rows) (app.scoreRows rest) state
      rw [ih] at mapped
      exact mapped

/-- A ranking that is answered has the rows of the providers as they are ranked now. -/
theorem ranking_of_rows {capability : String} {rows : List ProviderScore}
    {state after : AppState}
    (answered
      : (app.capabilityRanking capability).advance Write.apply state = (.done rows, after))
    : ∃ ranked,
        app.gateway.ranking capability none none state.store = some ranked
        ∧ rows = ranked.map (app.providerScore state.store) := by
  rw [capabilityRanking, rankedProviders] at answered
  split at answered
  · cases answered
  · rw [Gateway.rankProviders] at answered
    cases found : app.gateway.providers capability none none with
    | none =>
        rw [found] at answered
        cases answered
    | some selected =>
        rw [found] at answered
        simp only [Coroutine.bind_read, Coroutine.advance] at answered
        cases known : app.gateway.policy.rank selected state.store with
        | none =>
            rw [known] at answered
            cases answered
        | some ranked =>
            rw [known] at answered
            have rowsNow := (app.scoreRows_advance ranked state).symm.trans answered
            refine ⟨ranked, by rw [Gateway.ranking, found, Option.bind_some, known], ?_⟩
            cases rowsNow
            rfl

/-- An answered dispatch of the feature, on any face but MCP, that ended as looked for. -/
def countedIn (fid : String) (successes : Bool → Bool)
    (answered : AppRequest × Dispatch × Reply)
    : Bool :=
  (app.view answered.1).any fun request =>
    !request.isMcp && app.gateway.endedIn fid successes (request, answered.2)

/-- How many dispatches of the feature the store has counted. -/
def dispatched (fid : String)
    (pool : Pool AppRequest AppState Write ChatEvent Dispatch Reply Fault AppResponse)
    : Nat :=
  pool.history.countP (app.countedIn fid fun _ => true)

/-- How many of them were successes. -/
def succeeded (fid : String)
    (pool : Pool AppRequest AppState Write ChatEvent Dispatch Reply Fault AppResponse)
    : Nat :=
  pool.history.countP (app.countedIn fid id)

/-- What counts and what the MCP face leaves out make up the seen dispatches that ended.
Witness: induction on the history.
-/
theorem countedIn_seen (fid : String) (successes : Bool → Bool)
    (history : List (AppRequest × Dispatch × Reply))
    : history.countP (app.countedIn fid successes)
        + (seenOf app.view history).countP
            (fun answered => answered.1.isMcp && app.gateway.endedIn fid successes answered)
      = (seenOf app.view history).countP (app.gateway.endedIn fid successes) := by
  induction history with
  | nil => rfl
  | cons answered rest ih =>
      rw [List.countP_cons]
      cases viewed : app.view answered.1 with
      | none =>
          have hidden : seenOf app.view (answered :: rest) = seenOf app.view rest := by
            simp [seenOf, viewed]
          have uncounted : app.countedIn fid successes answered = false := by
            simp [countedIn, viewed]
          simpa [hidden, uncounted] using ih
      | some request =>
          have shown : seenOf app.view (answered :: rest)
              = (request, answered.2) :: seenOf app.view rest := by
            simp [seenOf, viewed]
          have counted : app.countedIn fid successes answered
              = (!request.isMcp && app.gateway.endedIn fid successes (request, answered.2)) := by
            simp [countedIn, viewed]
          rw [shown, counted, List.countP_cons, List.countP_cons]
          cases request.isMcp <;> cases app.gateway.endedIn fid successes (request, answered.2)
            <;> simp <;> omega

/-- The store's counters are those of the answered dispatches. -/
theorem counters_dispatched {composites : Dict String Composite}
    {pool : Pool AppRequest AppState Write ChatEvent Dispatch Reply Fault AppResponse}
    (run : app.system.Reaches (.initial ⟨∅, composites⟩) pool) (fid : String)
    : (pool.state.store.metrics fid).invocations = app.dispatched fid pool
      ∧ (pool.state.store.metrics fid).successes = app.succeeded fid pool := by
  obtain ⟨core, coreRun, seen⟩ := System.Reaches.seen app.extends_gateway run
  have start : app.gateway.system.Reaches (Gateway.start composites) core := coreRun
  have counters := app.gateway.counters_of_reaches start fid
  have all := app.countedIn_seen fid (fun _ => true) pool.history
  have successful := app.countedIn_seen fid id pool.history
  rw [seen.history, seen.state] at counters
  rw [dispatched, succeeded]
  simp only [Gateway.ended, Gateway.succeeded] at counters
  omega

/-- The row of a provider shows the counters of its dispatches so far. -/
def ShowsCounters
    (pool : Pool AppRequest AppState Write ChatEvent Dispatch Reply Fault AppResponse)
    (row : ProviderScore)
    : Prop :=
  let n := app.dispatched row.featureId pool
  row.invocations = n
  ∧ row.successRate
    = if n = 0 then none else some (app.succeeded row.featureId pool / (n : Rat))

/-- What a row shows of the counters, if there are any, it shows of zeros if there are none. -/
theorem shown_counters (found : Option FeatureMetrics)
    : (found.map FeatureMetrics.invocations).getD 0 = (found.getD {}).invocations
      ∧ found.bind FeatureMetrics.successRate
        = if (found.getD {}).invocations = 0 then none
          else some ((found.getD {}).successes / ((found.getD {}).invocations : Rat)) := by
  cases found with
  | none => exact ⟨rfl, rfl⟩
  | some m => exact ⟨rfl, rfl⟩

/-- A row shows the counters of its feature. -/
theorem showsCounters_providerScore {composites : Dict String Composite}
    {pool : Pool AppRequest AppState Write ChatEvent Dispatch Reply Fault AppResponse}
    (run : app.system.Reaches (.initial ⟨∅, composites⟩) pool) (f : Feature)
    : app.ShowsCounters pool (app.providerScore pool.state.store f) := by
  obtain ⟨invocations, successes⟩ := app.counters_dispatched run (featureId f)
  have fid : (app.providerScore pool.state.store f).featureId = featureId f := rfl
  rw [ShowsCounters, fid, ← invocations, ← successes]
  exact shown_counters (pool.state.store.get? (featureId f))

end App

end AgentFeatures
