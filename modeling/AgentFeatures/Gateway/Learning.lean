import AgentFeatures.Gateway.ObjectRanking

/-! How recorded outcomes move scores and rankings under the metrics policy. -/

namespace AgentFeatures

open Library

-----------------------------------------------------------------------------------------
-- Scores
-----------------------------------------------------------------------------------------

/-- What the score takes from the counters of a feature: the prior before any data, and else the
success rate less the latency penalty.
-/
def observedScore (defaultPrior latencyWeight : Rat) (metrics : FeatureMetrics) : Rat :=
  if metrics.invocations = 0 then defaultPrior
  else
    metrics.successes / metrics.invocations
      - metrics.avgLatencyMs.getD 0 / 1000 * latencyWeight

/-- The score of a feature is the one of its counters and its trust prior. -/
theorem metricsScore_eq (defaultPrior latencyWeight : Rat) (feature : Feature)
    (store : MetricsStore)
    : metricsScore defaultPrior latencyWeight feature store
      = observedScore defaultPrior latencyWeight (store.metrics (featureId feature))
        + trustPrior feature.manifest.trust := by
  rw [metricsScore, MetricsStore.metrics]
  cases store.get? (featureId feature) with
  | none => simp [observedScore]
  | some metrics =>
      by_cases unknown : metrics.invocations = 0
      · simp [observedScore, FeatureMetrics.successRate, unknown]
      · simp only [observedScore, FeatureMetrics.successRate, if_neg unknown, Option.bind_some,
          Option.map_some, Option.getD_some]
        ring

section Outcomes

variable {defaultPrior latencyWeight : Rat} (metrics : FeatureMetrics)

/-- A failure lowers the success rate, or replaces the prior by the rate zero; it does not change
the average latency.
-/
theorem observedScore_failure_le (prior : 0 ≤ defaultPrior) (latencyMs : Rat)
    : observedScore defaultPrior latencyWeight (metrics.counted false latencyMs)
      ≤ observedScore defaultPrior latencyWeight metrics := by
  by_cases unknown : metrics.invocations = 0
  · have none : metrics.successes = 0 := Nat.le_zero.mp (unknown ▸ metrics.bounded)
    simpa [observedScore, FeatureMetrics.counted, FeatureMetrics.avgLatencyMs, unknown, none]
      using prior
  · have positive : (0 : Rat) < metrics.invocations := by exact_mod_cast Nat.pos_of_ne_zero unknown
    have rate : (metrics.successes : Rat) / (metrics.invocations + 1)
        ≤ metrics.successes / metrics.invocations := by
      refine div_le_div_of_nonneg_left (Nat.cast_nonneg _) positive ?_
      linarith
    have latency : (metrics.counted false latencyMs).avgLatencyMs = metrics.avgLatencyMs := rfl
    rw [observedScore, observedScore, if_neg unknown, latency]
    simpa [FeatureMetrics.counted] using rate

/-- A success that takes no longer than the average raises the rate and not the average. -/
theorem observedScore_le_success (weight : 0 ≤ latencyWeight) {latencyMs average : Rat}
    (known : metrics.avgLatencyMs = some average) (fast : latencyMs ≤ average)
    : observedScore defaultPrior latencyWeight metrics
      ≤ observedScore defaultPrior latencyWeight (metrics.counted true latencyMs) := by
  simp only [FeatureMetrics.avgLatencyMs, Option.ite_none_left_eq_some, Option.some.injEq] at known
  obtain ⟨some', rfl⟩ := known
  have successes : (0 : Rat) < metrics.successes := by exact_mod_cast Nat.pos_of_ne_zero some'
  have bounded : (metrics.successes : Rat) ≤ metrics.invocations := by
    exact_mod_cast metrics.bounded
  have invocations : (0 : Rat) < metrics.invocations := lt_of_lt_of_le successes bounded
  have unknown : metrics.invocations ≠ 0 := by
    intro zero
    simp [zero] at invocations
  have rate : (metrics.successes : Rat) / metrics.invocations
      ≤ (metrics.successes + 1) / (metrics.invocations + 1) := by
    rw [div_le_div_iff₀ invocations (by linarith)]
    linarith
  have latency : (metrics.totalLatencyMs + latencyMs) / (metrics.successes + 1)
      ≤ metrics.totalLatencyMs / metrics.successes := by
    rw [le_div_iff₀ successes] at fast
    rw [div_le_div_iff₀ (by linarith) successes]
    linarith
  have penalty := mul_le_mul_of_nonneg_right
    (div_le_div_of_nonneg_right latency (by norm_num : (0 : Rat) ≤ 1000)) weight
  simp only [observedScore, FeatureMetrics.avgLatencyMs, FeatureMetrics.counted, if_true,
    if_neg unknown, if_neg some', Nat.add_one_ne_zero, if_false, Option.getD_some,
    Nat.cast_add, Nat.cast_one]
  linarith

end Outcomes

-----------------------------------------------------------------------------------------
-- Rankings
-----------------------------------------------------------------------------------------

/-- `a` stands before `b` in the list. -/
def Before (list : List Feature) (a b : Feature) : Prop := [a, b].Sublist list

section Rankings

variable {defaultPrior latencyWeight : Rat} {features : List Feature}
  {store other : MetricsStore}

/-- The ranking returns in every metrics state or in none. -/
theorem metricsRank_isSome_congr
    : ((metricsPolicy defaultPrior latencyWeight).rank features store).isSome
      = ((metricsPolicy defaultPrior latencyWeight).rank features other).isSome := by
  rw [metricsPolicy_byScore, metricsPolicy_byScore, Bool.eq_iff_iff, sortedBy_isSome_iff,
    sortedBy_isSome_iff]
  simp only [scoreKey, Option.isSome_map]

/-- A provider stays before another one when its score does not fall and the other's does not
rise. Witness: both rankings are stable sorts by score and baseline key.
-/
theorem before_of_scores (distinct : features.Nodup) {ranked ranked' : List Feature}
    (known : (metricsPolicy defaultPrior latencyWeight).rank features store = some ranked)
    (known' : (metricsPolicy defaultPrior latencyWeight).rank features other = some ranked')
    {a b : Feature}
    (rises : metricsScore defaultPrior latencyWeight a store
      ≤ metricsScore defaultPrior latencyWeight a other)
    (falls : metricsScore defaultPrior latencyWeight b other
      ≤ metricsScore defaultPrior latencyWeight b store)
    (before : Before ranked a b)
    : Before ranked' a b := by
  rw [metricsPolicy_byScore] at known known'
  obtain ⟨member, member', ahead⟩ := (pair_sublist_sortedBy_iff known distinct).mp before
  refine (pair_sublist_sortedBy_iff known' distinct).mpr ⟨member, member', ?_⟩
  obtain ⟨k, l, first, second, -⟩ := id ahead
  obtain ⟨base, isBase, rfl⟩ := Option.map_eq_some_iff.mp first
  obtain ⟨base', isBase', rfl⟩ := Option.map_eq_some_iff.mp second
  have keyLe {score score' : Rat} (le : score ≤ score') (base : RankKey)
      : (toLex (-score', base) : ScoreKey) ≤ toLex (-score, base) := by
    rcases lt_or_eq_of_le (neg_le_neg le) with less | same
    · exact Prod.Lex.toLex_le_toLex.mpr (.inl less)
    · exact Prod.Lex.toLex_le_toLex.mpr (.inr ⟨same, le_refl _⟩)
  refine ahead.mono ⟨_, _, first, ?_, keyLe rises base⟩ ⟨_, _, second, ?_, keyLe falls base'⟩
  · rw [scoreKey, isBase]
    rfl
  · rw [scoreKey, isBase']
    rfl

/-- Both of two providers in a ranking are listed, and they are different ones. -/
theorem listed_of_before (distinct : features.Nodup) {ranked : List Feature}
    (known : (metricsPolicy defaultPrior latencyWeight).rank features store = some ranked)
    {a b : Feature} (before : Before ranked a b)
    : a ∈ features ∧ b ∈ features ∧ a ≠ b := by
  have perm := (metricsPolicy defaultPrior latencyWeight).rank_perm _ _ _ known
  refine ⟨perm.subset (before.subset (by simp)), perm.subset (before.subset (by simp)), ?_⟩
  intro same
  subst same
  exact List.nodup_iff_sublist.mp (perm.nodup_iff.mpr distinct) a before

/-- The score of a feature after a record is that of its counters with the outcome. -/
theorem metricsScore_record_self (store : MetricsStore) (f : Feature) (success : Bool)
    (latencyMs : Rat)
    : metricsScore defaultPrior latencyWeight f (store.record (featureId f) success latencyMs)
      = observedScore defaultPrior latencyWeight
            ((store.metrics (featureId f)).counted success latencyMs)
          + trustPrior f.manifest.trust := by
  rw [metricsScore_eq, MetricsStore.metrics_record, if_pos rfl]

/-- A record changes the score of no other listed feature. -/
theorem metricsScore_record_of_ne (distinct : (features.map featureId).Nodup) {f g : Feature}
    (member : f ∈ features) (listed : g ∈ features) (differs : g ≠ f) (success : Bool)
    (latencyMs : Rat)
    : metricsScore defaultPrior latencyWeight g (store.record (featureId f) success latencyMs)
      = metricsScore defaultPrior latencyWeight g store := by
  have ids : featureId g ≠ featureId f := fun same =>
    differs (List.inj_on_of_nodup_map distinct listed member same)
  rw [metricsScore_eq, metricsScore_eq, MetricsStore.metrics_record, if_neg ids]

end Rankings

/-- Recording a failure of `f` never raises its score, changes no other one and keeps every
provider before `f` that stood there; recording a success in at most its average time never
lowers its score, and every provider behind `f` stays there.
-/
theorem learning_monotone {defaultPrior latencyWeight : Rat} (prior : 0 ≤ defaultPrior)
    (weight : 0 ≤ latencyWeight) {features : List Feature}
    (distinct : (features.map featureId).Nodup) {f : Feature} (member : f ∈ features)
    (store : MetricsStore)
    : let policy := metricsPolicy defaultPrior latencyWeight
      (∀ latencyMs,
        let failed := store.record (featureId f) false latencyMs
        policy.score f failed ≤ policy.score f store
        ∧ (∀ g ∈ features, g ≠ f → policy.score g failed = policy.score g store)
        ∧ ((policy.rank features failed).isSome = (policy.rank features store).isSome)
        ∧ ∀ ranked ranked',
            policy.rank features store = some ranked
            → policy.rank features failed = some ranked'
            → ∀ g, Before ranked g f → Before ranked' g f)
      ∧ ∀ latencyMs average,
          (store.metrics (featureId f)).avgLatencyMs = some average
          → latencyMs ≤ average
          → let succeeded := store.record (featureId f) true latencyMs
            policy.score f store ≤ policy.score f succeeded
            ∧ (∀ g ∈ features, g ≠ f → policy.score g succeeded = policy.score g store)
            ∧ ((policy.rank features succeeded).isSome = (policy.rank features store).isSome)
            ∧ ∀ ranked ranked',
                policy.rank features store = some ranked
                → policy.rank features succeeded = some ranked'
                → ∀ g, Before ranked f g → Before ranked' f g := by
  intro policy
  have unrepeated : features.Nodup := .of_map featureId distinct
  have before := metricsScore_eq defaultPrior latencyWeight f store
  have others (success : Bool) (latencyMs : Rat) (g : Feature) (listed : g ∈ features)
      (differs : g ≠ f)
      : policy.score g (store.record (featureId f) success latencyMs) = policy.score g store :=
    metricsScore_record_of_ne distinct member listed differs success latencyMs
  constructor
  · intro latencyMs failed
    have lower : policy.score f failed ≤ policy.score f store := by
      refine (metricsScore_record_self store f false latencyMs).trans_le (le_trans ?_ before.ge)
      exact add_le_add_left (observedScore_failure_le _ prior latencyMs) _
    refine ⟨lower, others false latencyMs, metricsRank_isSome_congr, ?_⟩
    intro ranked ranked' known known' g ahead
    obtain ⟨listed, -, differs⟩ := listed_of_before unrepeated known ahead
    exact before_of_scores unrepeated known known'
      (le_of_eq (others false latencyMs g listed differs).symm) lower ahead
  · intro latencyMs average known fast succeeded
    have higher : policy.score f store ≤ policy.score f succeeded := by
      refine before.trans_le (le_trans ?_ (metricsScore_record_self store f true latencyMs).ge)
      exact add_le_add_left (observedScore_le_success _ weight known fast) _
    refine ⟨higher, others true latencyMs, metricsRank_isSome_congr, ?_⟩
    intro ranked ranked' known known' g ahead
    obtain ⟨-, listed, differs⟩ := listed_of_before unrepeated known ahead
    exact before_of_scores unrepeated known known' higher
      (le_of_eq (others true latencyMs g listed differs.symm)) ahead

/-- One success in five milliseconds, then a failure or a faster success of the same provider. -/
theorem learning_monotone_provider
    : let policy := metricsPolicy
      let store := MetricsStore.record ∅ (featureId (providerAt "1")) true 5
      policy.score (providerAt "1") (store.record (featureId (providerAt "1")) false 0)
          ≤ policy.score (providerAt "1") store
        ∧ policy.score (providerAt "1") store
          ≤ policy.score (providerAt "1") (store.record (featureId (providerAt "1")) true 3) := by
  have learns := @learning_monotone (7 / 10) (1 / 10) (by norm_num) (by norm_num)
    [providerAt "1"] (List.nodup_singleton _) (providerAt "1") List.mem_cons_self
    (MetricsStore.record ∅ (featureId (providerAt "1")) true 5)
  refine ⟨(learns.1 0).1, (learns.2 3 5 ?_ (by norm_num)).1⟩
  rw [MetricsStore.metrics_record, if_pos rfl]
  change some ((0 + 5) / ((0 + 1 : Nat) : Rat)) = some 5
  norm_num

-----------------------------------------------------------------------------------------
-- Gaps in the success rate
-----------------------------------------------------------------------------------------

section Gaps

variable {ι : Type} [DecidableEq ι]

/-- The policy ranks the objects and puts every place of `f` before every one of `g`. -/
def PlacesFirst (shipped : ShippedPolicy) (feature : ι → Feature) (objects : List ι)
    (store : MetricsStore) (f g : ι)
    : Prop :=
  ∃ best,
    shipped.rank feature objects store = some best
    ∧ f ∈ best
    ∧ g ∈ best
    ∧ ¬ [g, f].Sublist best

/-- `MetricsPolicy()`. -/
def defaultMetrics : ShippedPolicy := .metrics (7 / 10) (1 / 10)

/-- Trust priors differ by at most ten points, and by that much only between the outer tiers. -/
theorem trustPrior_gap (tier other : TrustTier)
    : trustPrior other - trustPrior tier ≤ 1 / 10
      ∧ (trustPrior other - trustPrior tier = 1 / 10
          ↔ tier = .community ∧ other = .official) := by
  cases tier <;> cases other <;> norm_num [trustPrior] <;> decide

omit [DecidableEq ι] in
/-- With equal latencies the scores of two providers with data differ by their success rates and
their trust priors.
-/
theorem score_sub_of_rates (feature : ι → Feature) {f g : ι} (store : MetricsStore)
    {rate lower : Rat}
    (known : (store.metrics (featureId (feature f))).successRate = some rate)
    (known' : (store.metrics (featureId (feature g))).successRate = some lower)
    (latency
      : (store.metrics (featureId (feature f))).avgLatencyMs.getD 0
        = (store.metrics (featureId (feature g))).avgLatencyMs.getD 0)
    : defaultMetrics.score feature store f - defaultMetrics.score feature store g
      = rate - lower
        - (trustPrior (feature g).manifest.trust - trustPrior (feature f).manifest.trust) := by
  have scored {object : ι} {rate : Rat}
      (known : (store.metrics (featureId (feature object))).successRate = some rate)
      : defaultMetrics.score feature store object
        = rate
          - (store.metrics (featureId (feature object))).avgLatencyMs.getD 0 / 1000 * (1 / 10)
          + trustPrior (feature object).manifest.trust := by
    simp only [FeatureMetrics.successRate, Option.ite_none_left_eq_some,
      Option.some.injEq] at known
    change metricsScore (7 / 10) (1 / 10) (feature object) store = _
    rw [metricsScore_eq, observedScore, if_neg known.1, known.2]
  rw [scored known, scored known', latency]
  ring

/-- Of providers with equal scores, one that stands before the other has no lower trust prior.
Witness: the metrics policy keeps the baseline order of equal scores, and that is by trust.
-/
theorem trustPrior_le_of_tied (feature : ι → Feature) {objects best : List ι} {f g : ι}
    (store : MetricsStore) (ranks : defaultMetrics.rank feature objects store = some best)
    (differs : f ≠ g)
    (tied : defaultMetrics.score feature store f = defaultMetrics.score feature store g)
    (ahead : [f, g].Sublist best)
    : trustPrior (feature g).manifest.trust ≤ trustPrior (feature f).manifest.trust := by
  obtain ⟨order, baseline, -⟩ := metrics_rank_eq_some_iff.mp ranks
  obtain ⟨i, j, atFirst, atSecond, first⟩ :=
    List.pairwise_pair.mp ((metrics_rank_pairwise baseline ranks).sublist ahead)
  have earlier : i ≤ j := (first.resolve_left (not_lt_of_ge (le_of_eq tied))).2
  rcases lt_or_eq_of_le earlier with less | same
  · have inOrder := pair_sublist_of_places atFirst atSecond less
    obtain ⟨k, l, key, key', below⟩ :=
      List.pairwise_pair.mp ((rankObjects_pairwise baseline).sublist inOrder)
    exact trustPrior_le_of_rankKey_le key key' below
  · exact absurd (places_injective atFirst (same ▸ atSecond)) differs

/-- Of two providers with data and equal average latency the one with a success rate ten points
higher is placed first, unless a version text does not convert, or the gap is just ten points and
the provider is a community one and the other an official one. Witness: at that gap their scores
are equal, and the baseline order decides by trust.
-/
theorem placesFirst_iff (feature : ι → Feature) {objects : List ι} {f g : ι}
    (member : f ∈ objects) (member' : g ∈ objects) (store : MetricsStore) {rate lower : Rat}
    (known : (store.metrics (featureId (feature f))).successRate = some rate)
    (known' : (store.metrics (featureId (feature g))).successRate = some lower)
    (latency
      : (store.metrics (featureId (feature f))).avgLatencyMs.getD 0
        = (store.metrics (featureId (feature g))).avgLatencyMs.getD 0)
    (gap : lower + 1 / 10 ≤ rate)
    : PlacesFirst defaultMetrics feature objects store f g
      ↔ (∀ object ∈ objects, DigitsConvert (feature object).manifest.version.toList)
        ∧ ¬ (rate = lower + 1 / 10
            ∧ (feature f).manifest.trust = .community
            ∧ (feature g).manifest.trust = .official) := by
  let score := defaultMetrics.score feature store
  have differs : f ≠ g := by
    intro same
    subst same
    cases known.symm.trans known'
    linarith
  have scores := score_sub_of_rates feature store known known' latency
  obtain ⟨bound, outer⟩ := trustPrior_gap (feature f).manifest.trust (feature g).manifest.trust
  constructor
  · intro places
    obtain ⟨best, ranks, inBest, inBest', notBehind⟩ := places
    refine ⟨rank_isSome_iff.mp (by rw [ranks]; rfl), fun boundary => ?_⟩
    obtain ⟨exactly, community, official⟩ := boundary
    have tied : score f = score g := by
      have priors := outer.mpr ⟨community, official⟩
      linarith
    have ahead := (pair_sublist_or inBest inBest' differs).resolve_right notBehind
    have priors := trustPrior_le_of_tied feature store ranks differs tied ahead
    rw [community, official] at priors
    norm_num [trustPrior] at priors
  · intro conditions
    obtain ⟨converts, inside⟩ := conditions
    obtain ⟨best, ranks⟩ := Option.isSome_iff_exists.mp (rank_isSome_iff.mpr converts)
    have inBest := (rank_perm ranks).symm.subset
    refine ⟨best, ranks, inBest member, inBest member', fun behind => ?_⟩
    have falling : best.Pairwise fun a b => score b ≤ score a := rank_pairwise ranks
    have above : score f ≤ score g := by simpa using falling.sublist behind
    refine inside ⟨by linarith, outer.mp (by linarith)⟩

/-- A community provider and an official one with the given version. -/
def communityAndOfficial (version : String) (object : Fin 2) : Feature where
  manifest :=
    { name := if object = 0 then "c" else "o", version, capability := "x",
      trust := if object = 0 then .community else .official,
      defaultCapability := fun absurdly => absurd absurdly (by decide) }

/-- A store with this many successes of ten invocations for the two providers. -/
def outcomes (first second : Nat) (bound : first ≤ 10) (bound' : second ≤ 10) : MetricsStore :=
  Dict.ofList
    [("community/c@1", { invocations := 10, successes := first, bounded := bound }),
     ("community/o@1", { invocations := 10, successes := second, bounded := bound' })]

/-- A community provider that is eleven points better is placed before an official one. -/
theorem placesFirst_elevenPoints
    : PlacesFirst defaultMetrics (communityAndOfficial "1") [0, 1]
        (outcomes 10 8 (by decide) (by decide)) 0 1 := by
  let store := outcomes 10 8 (by decide) (by decide)
  let rateOf (object : Fin 2) : Option Rat :=
    (store.metrics (featureId (communityAndOfficial "1" object))).successRate
  have rate : rateOf 0 = some (((10 : Nat) : Rat) / (10 : Nat)) := rfl
  have lower : rateOf 1 = some (((8 : Nat) : Rat) / (10 : Nat)) := rfl
  refine (placesFirst_iff (communityAndOfficial "1") (by decide) (by decide) store rate lower
    (by decide +kernel) (by norm_num)).mpr ⟨rankObjects_isSome_iff.mp rfl, fun boundary => ?_⟩
  norm_num at boundary

/-- With nine of ten successes the official provider stays before the community one with ten. -/
theorem tenPoints_not_first
    : ¬ ∀ (ι : Type) [DecidableEq ι] (feature : ι → Feature) (objects : List ι) (f g : ι)
          (store : MetricsStore) (rate lower : Rat),
          f ∈ objects
          → g ∈ objects
          → (store.metrics (featureId (feature f))).successRate = some rate
          → (store.metrics (featureId (feature g))).successRate = some lower
          → (store.metrics (featureId (feature f))).avgLatencyMs
            = (store.metrics (featureId (feature g))).avgLatencyMs
          → lower + 1 / 10 ≤ rate
          → PlacesFirst defaultMetrics feature objects store f g := by
  intro all
  obtain ⟨best, ranks, -, -, notBehind⟩ := all (Fin 2) (communityAndOfficial "1") [0, 1] 0 1
    (outcomes 10 9 (by decide) (by decide)) (10 / (10 : Nat)) (9 / (10 : Nat)) (by decide)
    (by decide) rfl rfl (by decide +kernel) (by norm_num)
  have officialFirst : defaultMetrics.rank (communityAndOfficial "1") [0, 1]
      (outcomes 10 9 (by decide) (by decide)) = some [1, 0] := by
    decide +kernel
  cases officialFirst.symm.trans ranks
  exact notBehind (List.Sublist.refl _)

end Gaps

end AgentFeatures
