import AgentFeatures.Gateway.Choice
import AgentFeatures.Gateway.Learning
import AgentFeatures.Gateway.Totals

/-! Where calls go over whole runs: a good favourite keeps them all, a failing one loses them. -/

namespace AgentFeatures

open Library

-----------------------------------------------------------------------------------------
-- Scores of unanimous outcomes
-----------------------------------------------------------------------------------------

section Scores

variable {outcomes : List Outcome} {fid : String}

/-- Without outcomes of its own a feature has zero counters. -/
theorem metrics_of_none (none : ∀ outcome ∈ outcomes, outcome.featureId ≠ fid)
    : (recordOutcomes outcomes ∅).metrics fid = {} := by
  have absent : (recordOutcomes outcomes ∅).get? fid = .none := by
    rw [← Option.not_isSome_iff_eq_none, isSome_get?_recordOutcomes]
    rintro (stored | ⟨outcome, member, own⟩)
    · cases stored
    · exact none outcome member own
  rw [MetricsStore.metrics, absent]
  rfl

/-- The counters hold the numbers of a feature's outcomes. -/
theorem counts_metrics (outcomes : List Outcome) (fid : String)
    : Counts outcomes fid ((recordOutcomes outcomes ∅).metrics fid) := by
  have start : MetricsStore.metrics ∅ fid = {} := rfl
  obtain ⟨invocations, successes⟩ := metrics_replay outcomes ∅ fid
  have total := totalLatencyMs_recordOutcomes outcomes ∅ fid
  rw [start] at invocations successes total
  change ((recordOutcomes outcomes ∅).metrics fid).invocations = _ at invocations
  change ((recordOutcomes outcomes ∅).metrics fid).successes = _ at successes
  exact ⟨by simpa using invocations, by simpa using successes, by simpa using total⟩

/-- Fast successes only give a score of at least the prior, or one less the latency penalty of
the bound.
-/
theorem le_observedScore_of_successes {prior weight bound : Rat} (light : 0 ≤ weight)
    (all
      : ∀ outcome ∈ outcomes,
          outcome.featureId = fid → outcome.success ∧ outcome.latencyMs ≤ bound)
    : min prior (1 - bound / 1000 * weight)
      ≤ observedScore prior weight ((recordOutcomes outcomes ∅).metrics fid) := by
  obtain ⟨invocations, successes, total⟩ := counts_metrics outcomes fid
  generalize (recordOutcomes outcomes ∅).metrics fid = metrics at invocations successes total
  have same : metrics.successes = metrics.invocations := by
    rw [invocations, successes]
    refine List.countP_congr fun outcome member => ?_
    simp only [decide_eq_true_eq, and_iff_left_iff_imp]
    exact fun own => (all outcome member own).1
  have fast : metrics.totalLatencyMs ≤ metrics.successes * bound := by
    have bounded : ∀ latency ∈ successLatencies outcomes fid, latency ≤ bound := by
      intro latency member
      obtain ⟨outcome, kept, rfl⟩ := List.mem_map.mp member
      obtain ⟨member, own⟩ := List.mem_filter.mp kept
      exact (all outcome member (of_decide_eq_true own).1).2
    have sum := List.sum_le_card_nsmul _ _ bounded
    rw [total, successes, List.countP_eq_length_filter]
    simpa [successLatencies] using sum
  rw [observedScore]
  split
  · exact min_le_left _ _
  · next invoked =>
      have positive : (0 : Rat) < metrics.successes := by
        rw [same]
        exact_mod_cast Nat.pos_of_ne_zero invoked
      have average : metrics.avgLatencyMs.getD 0 ≤ bound := by
        rw [FeatureMetrics.avgLatencyMs, if_neg (same ▸ invoked), Option.getD_some,
          div_le_iff₀ positive, mul_comm]
        exact fast
      have penalty := mul_le_mul_of_nonneg_right
        (div_le_div_of_nonneg_right average (by norm_num : (0 : Rat) ≤ 1000)) light
      refine (min_le_right _ _).trans ?_
      rw [← same, div_self positive.ne']
      linarith

/-- Failures only give the score zero. -/
theorem observedScore_of_failures {prior weight : Rat}
    (all : ∀ outcome ∈ outcomes, outcome.featureId = fid → outcome.success = false)
    (some' : ∃ outcome ∈ outcomes, outcome.featureId = fid)
    : observedScore prior weight ((recordOutcomes outcomes ∅).metrics fid) = 0 := by
  obtain ⟨invocations, successes, -⟩ := counts_metrics outcomes fid
  generalize (recordOutcomes outcomes ∅).metrics fid = metrics at invocations successes
  obtain ⟨outcome, member, own⟩ := some'
  have invoked : metrics.invocations ≠ 0 := by
    rw [invocations]
    exact (List.countP_pos_iff.mpr ⟨outcome, member, by simpa using own⟩).ne'
  have none : metrics.successes = 0 := by
    rw [successes, List.countP_eq_zero]
    intro outcome member kept
    obtain ⟨own, succeeded⟩ := of_decide_eq_true kept
    rw [all outcome member own] at succeeded
    cases succeeded
  simp [observedScore, invoked, FeatureMetrics.avgLatencyMs, none]

end Scores

namespace Gateway

-----------------------------------------------------------------------------------------
-- The outcomes of a run
-----------------------------------------------------------------------------------------

section Outcomes

variable {gateway : Gateway}

/-- What the requests of a run have recorded. -/
abbrev outcomes (gateway : Gateway) (history : List (Request × Dispatch × Reply)) : List Outcome :=
  System.settlements gateway.settle history

/-- The store of a run holds the outcomes of its history. -/
theorem store_of_reaches {composites : Dict String Composite}
    {pool : Pool Request AppState Write ChatEvent Dispatch Reply Fault Response}
    (run : gateway.system.Reaches (start composites) pool)
    : pool.state.store = recordOutcomes (gateway.outcomes pool.history) ∅ :=
  (System.Reaches.replay gateway.store_observes gateway.serve_settles run).2

/-- Every outcome is the one of an answered call, by a request of another face than MCP. -/
theorem mem_outcomes_iff {history : List (Request × Dispatch × Reply)} {outcome : Outcome}
    : outcome ∈ gateway.outcomes history
      ↔ ∃ answered ∈ history,
          answered.1.isMcp = false
          ∧ gateway.dispatchedId answered.2.1 = some outcome.featureId
          ∧ answered.2.2.outcome? = some (outcome.success, outcome.latencyMs) := by
  rw [outcomes, System.settlements, List.mem_flatMap]
  refine exists_congr fun answered => and_congr_right fun _ => ?_
  rw [settle]
  split
  · next mcp => simp [mcp]
  · next other =>
      rw [owed]
      cases counts : answered.2.2.outcome? with
      | none => simp
      | some seen =>
          cases sent : gateway.dispatchedId answered.2.1 with
          | none => simp
          | some fid =>
              obtain ⟨featureId, success, latencyMs⟩ := outcome
              obtain ⟨seenSuccess, seenLatency⟩ := seen
              simp only [Option.toList_some, List.map_cons, List.map_nil, List.mem_singleton,
                Outcome.mk.injEq, Option.some.injEq, Prod.mk.injEq]
              constructor
              · rintro ⟨rfl, rfl, rfl⟩
                exact ⟨by simpa using other, rfl, rfl, rfl⟩
              · rintro ⟨-, rfl, rfl, rfl⟩
                exact ⟨rfl, rfl, rfl⟩

/-- No other feature that the catalog answers has the id of this one. -/
def OwnId (gateway : Gateway) (feature : Feature) : Prop :=
  ∀ name other,
    gateway.catalog.get name = some other → featureId other = featureId feature → other = feature

/-- The answered calls of the feature succeed within the bound, or are rejected for their input.
-/
def Serves (feature : Feature) (bound : Rat) (answered : Request × Dispatch × Reply) : Prop :=
  answered.2.1.feature = feature.manifest.name
  → ∀ success latencyMs,
      answered.2.2.outcome? = some (success, latencyMs) → success ∧ latencyMs ≤ bound

/-- The answered calls of the feature fail, or are rejected for their input. -/
def Fails (feature : Feature) (answered : Request × Dispatch × Reply) : Prop :=
  answered.2.1.feature = feature.manifest.name
  → ∀ success latencyMs,
      answered.2.2.outcome? = some (success, latencyMs) → success = false

/-- An outcome under a feature's own id is one of a call of that feature. -/
theorem called_of_ownId {feature : Feature} (own : gateway.OwnId feature)
    {history : List (Request × Dispatch × Reply)} {outcome : Outcome}
    (member : outcome ∈ gateway.outcomes history) (same : outcome.featureId = featureId feature)
    : ∃ answered ∈ history,
        gateway.catalog.get answered.2.1.feature = some feature
        ∧ answered.2.1.feature = feature.manifest.name
        ∧ answered.2.2.outcome? = some (outcome.success, outcome.latencyMs) := by
  obtain ⟨answered, inHistory, -, sent, counts⟩ := mem_outcomes_iff.mp member
  obtain ⟨other, found, id⟩ := Option.map_eq_some_iff.mp sent
  have isFeature := own _ other found (id.trans same)
  subst isFeature
  exact ⟨answered, inHistory, found, (gateway.catalog.name_of_get _ _ found).symm, counts⟩

end Outcomes

-----------------------------------------------------------------------------------------
-- The favourite
-----------------------------------------------------------------------------------------

/-- A provider stays unbeaten when its score does not fall and no other score rises. -/
theorem Unbeaten.of_scores {policy : RankingPolicy} {store later : MetricsStore}
    {group : List Feature} {f : Feature} (unbeaten : Unbeaten policy store group f)
    (own : policy.score f store ≤ policy.score f later)
    (others : ∀ g ∈ group, g ≠ f → policy.score g later ≤ policy.score g store)
    : Unbeaten policy later group f := by
  refine ⟨unbeaten.1, fun g member => ?_⟩
  by_cases same : g = f
  · exact Or.inl same
  · refine (unbeaten.2 g member).imp_right fun ahead => ?_
    obtain ⟨k, l, known, known', -⟩ := id ahead
    obtain ⟨key, ranked, rfl⟩ := Option.map_eq_some_iff.mp known
    obtain ⟨key', ranked', rfl⟩ := Option.map_eq_some_iff.mp known'
    have moved (key : RankKey) {score score' : Rat} (below : score ≤ score')
        : (toLex (score, key) : ScoreKey) ≤ toLex (score', key) := by
      rw [Prod.Lex.toLex_le_toLex]
      exact (lt_or_eq_of_le below).imp_right fun same => ⟨same, le_rfl⟩
    refine Stably.mono ahead ⟨_, _, known, ?_, moved key (neg_le_neg own)⟩
      ⟨_, _, known', ?_, moved key' (neg_le_neg (others g member same))⟩
    · rw [scoreKey, ranked, Option.map_some]
    · rw [scoreKey, ranked', Option.map_some]

section Runs

variable {catalog : PublishedCatalog} {validator : Validator} {runtime : Runtime}
  {ranking : Option String} {composites : Dict String Composite} {capability : String}

/-- After outcomes that spare the other providers and are good for the favourite, the favourite
is picked if any provider is.
-/
theorem picked_favourite {favourite : Feature}
    (favoured
      : (createApp catalog validator runtime ranking).picked capability ∅ = some favourite)
    {outcomes : List Outcome}
    (spared
      : ∀ g ∈ providersOf capability catalog.published,
          g ≠ favourite → ∀ outcome ∈ outcomes, outcome.featureId ≠ featureId g)
    (good
      : ∀ outcome ∈ outcomes,
          outcome.featureId = featureId favourite → outcome.success ∧ outcome.latencyMs ≤ 3000)
    {feature : Feature}
    (pick
      : (createApp catalog validator runtime ranking).picked capability
          (recordOutcomes outcomes ∅)
        = some feature)
    : feature = favourite := by
  have byScore := createApp_byScore catalog validator runtime ranking
  have first := unbeaten_of_picked rfl byScore favoured
  refine (unbeaten_of_picked rfl byScore pick).unique (first.of_scores ?_ fun g member other => ?_)
  · rw [createApp]
    split
    · exact le_rfl
    · change metricsScore _ _ _ _ ≤ metricsScore _ _ _ _
      rw [metricsScore_eq, metricsScore_eq]
      have least : min (7 / 10) (1 - 3000 / 1000 * (1 / 10))
          ≤ observedScore (7 / 10) (1 / 10)
              ((recordOutcomes outcomes ∅).metrics (featureId favourite)) :=
        le_observedScore_of_successes (by norm_num) good
      norm_num at least
      have start : observedScore (7 / 10) (1 / 10)
          (MetricsStore.metrics ∅ (featureId favourite)) = 7 / 10 := if_pos rfl
      rw [start]
      exact add_le_add least le_rfl
  · rw [createApp]
    split
    · exact le_rfl
    · change metricsScore _ _ _ _ ≤ metricsScore _ _ _ _
      rw [metricsScore_eq, metricsScore_eq, metrics_of_none (spared g member other)]
      exact le_rfl

/-- A provider whose outcomes are failures is not picked while another one serves within less
than nine seconds.
-/
theorem not_picked_failing (learns : ranking ≠ some "baseline") {outcomes : List Outcome}
    {failing rival : Feature} {bound : Rat} (fast : bound < 9000)
    (offered : rival ∈ providersOf capability catalog.published)
    (fails : ∀ outcome ∈ outcomes, outcome.featureId = featureId failing → outcome.success = false)
    (failed : ∃ outcome ∈ outcomes, outcome.featureId = featureId failing)
    (good
      : ∀ outcome ∈ outcomes,
          outcome.featureId = featureId rival → outcome.success ∧ outcome.latencyMs ≤ bound)
    : (createApp catalog validator runtime ranking).picked capability
        (recordOutcomes outcomes ∅) ≠ some failing := by
  intro pick
  have policy : (createApp catalog validator runtime ranking).policy = metricsPolicy := by
    rw [createApp, if_neg learns]
  have unbeaten := unbeaten_of_picked rfl (createApp_byScore catalog validator runtime ranking) pick
  rw [policy] at unbeaten
  have order : metricsPolicy.score rival (recordOutcomes outcomes ∅)
      ≤ metricsPolicy.score failing (recordOutcomes outcomes ∅) := by
    rcases unbeaten.2 rival offered with same | ⟨k, l, known, known', order⟩
    · rw [same]
    · obtain ⟨key, -, rfl⟩ := Option.map_eq_some_iff.mp known
      obtain ⟨key', -, rfl⟩ := Option.map_eq_some_iff.mp known'
      exact neg_le_neg_iff.mp
        (Prod.Lex.monotone_fst _ _ (order.elim le_of_lt fun tie => le_of_eq tie.1))
  change metricsScore _ _ _ _ ≤ metricsScore _ _ _ _ at order
  rw [metricsScore_eq, metricsScore_eq, observedScore_of_failures fails failed, zero_add] at order
  have least : min (7 / 10) (1 - bound / 1000 * (1 / 10))
      ≤ observedScore (7 / 10) (1 / 10)
          ((recordOutcomes outcomes ∅).metrics (featureId rival)) :=
    le_observedScore_of_successes (by norm_num) good
  have untrusted : trustPrior failing.manifest.trust ≤ 1 / 10 := by
    cases failing.manifest.trust <;> norm_num [trustPrior]
  have trusted : 0 ≤ trustPrior rival.manifest.trust := by
    cases rival.manifest.trust <;> norm_num [trustPrior]
  have above : (1 : Rat) / 10 < min (7 / 10) (1 - bound / 1000 * (1 / 10)) :=
    lt_min (by norm_num) (by linarith)
  linarith

end Runs

/-- The rivals have ids of their own. -/
theorem rivals_ownId : ∀ f ∈ rivals.list, rivalGateway.OwnId f := by
  intro f member name other found same
  have entries : other ∈ rivals.list := by
    rw [rivals.mem_list_iff]
    exact List.mem_map_of_mem (Dict.get?_eq_some_iff.mp found)
  have distinct : (rivals.list.map featureId).Nodup := by decide
  exact List.inj_on_of_nodup_map distinct entries member same

/-- Two calls of the capability, the first one answered. -/
def twoCalls (reply : Reply) : List (Action Request Reply) :=
  [.arrive (.invokeCapability "x" {} none none), .reply 0 reply,
    .arrive (.invokeCapability "x" {} none none)]

end Gateway

end AgentFeatures
