import AgentFeatures.Catalog.Resolution

/-! Outcome counters per feature, and the policies that order providers by them. -/

namespace AgentFeatures

open Library

/-- Outcomes of one feature; at most as many successes as invocations. -/
structure FeatureMetrics where
  invocations : Nat := 0
  successes : Nat := 0
  totalLatencyMs : Rat := 0
  bounded : successes ≤ invocations := by decide

namespace FeatureMetrics

def successRate (metrics : FeatureMetrics) : Option Rat :=
  if metrics.invocations = 0 then none
  else some (metrics.successes / metrics.invocations)

def avgLatencyMs (metrics : FeatureMetrics) : Option Rat :=
  if metrics.successes = 0 then none else some (metrics.totalLatencyMs / metrics.successes)

/-- The counters after one more outcome; only a success adds its latency. -/
def counted (metrics : FeatureMetrics) (success : Bool) (latencyMs : Rat) : FeatureMetrics :=
  if success then
    { invocations := metrics.invocations + 1
      successes := metrics.successes + 1
      totalLatencyMs := metrics.totalLatencyMs + latencyMs
      bounded := Nat.succ_le_succ metrics.bounded }
  else
    { metrics with
      invocations := metrics.invocations + 1
      bounded := Nat.le_succ_of_le metrics.bounded }

end FeatureMetrics

/-- Counters by feature id. -/
abbrev MetricsStore := Dict String FeatureMetrics

namespace MetricsStore

/-- The counters of a feature, zero before its first outcome. -/
def metrics (store : MetricsStore) (featureId : String) : FeatureMetrics :=
  (store.get? featureId).getD {}

def record (store : MetricsStore) (featureId : String) (success : Bool)
    (latencyMs : Rat := 0)
    : MetricsStore :=
  store.set featureId ((store.metrics featureId).counted success latencyMs)

/-- Recording counts at the named feature and nowhere else. -/
theorem metrics_record (store : MetricsStore) (featureId other : String) (success : Bool)
    (latencyMs : Rat)
    : (store.record featureId success latencyMs).metrics other
      = if other = featureId then (store.metrics featureId).counted success latencyMs
        else store.metrics other := by
  unfold metrics record
  rw [Dict.get?_set]
  split <;> rfl

end MetricsStore

/-- Scores providers and orders them best-first; `rank` is `none` when it raises, and else
only reorders what it is given.
-/
structure RankingPolicy where
  score : Feature → MetricsStore → Rat
  rank : List Feature → MetricsStore → Option (List Feature)
  rank_perm : ∀ features store ranked, rank features store = some ranked → ranked.Perm features

/-- A small prior so trusted vendors lead on a tie or with no data yet. -/
def trustPrior : TrustTier → Rat
  | .official => 1 / 10
  | .verified => 1 / 20
  | .community => 0

/-- Static ordering: trust tier, then newest version, then vendor. -/
def baselinePolicy : RankingPolicy where
  score feature _ := trustPrior feature.manifest.trust
  rank features _ := rankFeatures features
  rank_perm _ _ _ := sortedBy_perm

/-- Observed success rate and latency, or the optimistic prior before any data. -/
def metricsScore (defaultPrior latencyWeight : Rat) (feature : Feature)
    (store : MetricsStore)
    : Rat :=
  let (base, latencyPenalty) :=
    match (store.get? (featureId feature)).bind fun m => m.successRate.map fun r => (m, r) with
    | some (m, rate) => (rate, m.avgLatencyMs.getD 0 / 1000 * latencyWeight)
    | none => (defaultPrior, 0)
  base + trustPrior feature.manifest.trust - latencyPenalty

/-- Orders by falling score; the baseline position of each object breaks ties. Objects are
told apart by their place in the list, as `id` does for the objects of one listing.
-/
def metricsRank (score : Feature → MetricsStore → Rat) (features : List Feature)
    (store : MetricsStore)
    : Option (List Feature) := do
  let objects := features.zipIdx
  let baseline ← sortedBy (fun object => rankKey object.1) objects
  let place (object : Feature × Nat) := baseline.findIdx fun other => other.2 = object.2
  let ranked ← sortedBy
    (fun object => some (toLex (-score object.1 store, place object) : Rat ×ₗ Nat)) objects
  return ranked.map Prod.fst

/-- Ranking by score only reorders. Witness: the second sort permutes the numbered list. -/
theorem metricsRank_perm {score : Feature → MetricsStore → Rat} {features ranked : List Feature}
    {store : MetricsStore} (h : metricsRank score features store = some ranked)
    : ranked.Perm features := by
  simp only [metricsRank, Option.bind_eq_bind, Option.pure_def, Option.bind_eq_some_iff,
    Option.some.injEq] at h
  obtain ⟨baseline, -, sorted, order, rfl⟩ := h
  simpa using (sortedBy_perm order).map Prod.fst

/-- Data-driven ordering: observed success rate and latency win. -/
def metricsPolicy (defaultPrior : Rat := 7 / 10) (latencyWeight : Rat := 1 / 10)
    : RankingPolicy where
  score := metricsScore defaultPrior latencyWeight
  rank := metricsRank (metricsScore defaultPrior latencyWeight)
  rank_perm _ _ _ := metricsRank_perm

end AgentFeatures
