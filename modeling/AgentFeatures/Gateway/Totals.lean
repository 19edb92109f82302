import AgentFeatures.Gateway.Recording

/-! What the counters of a store add up, for any recorded outcomes in any order. -/

namespace AgentFeatures

open Library

/-- The store after some outcomes. -/
def recordOutcomes (outcomes : List Outcome) (store : MetricsStore) : MetricsStore :=
  outcomes.foldl (fun store outcome => recordOutcome outcome store) store

/-- A feature has counters exactly when it had some or one of its outcomes is recorded, by
induction on the outcomes.
-/
theorem isSome_get?_recordOutcomes {outcomes : List Outcome} {store : MetricsStore} {fid : String}
    : ((recordOutcomes outcomes store).get? fid).isSome
      ↔ (store.get? fid).isSome ∨ ∃ outcome ∈ outcomes, outcome.featureId = fid := by
  induction outcomes generalizing store with
  | nil => simp [recordOutcomes]
  | cons outcome rest ih =>
      rw [recordOutcomes, List.foldl_cons]
      refine ih.trans ?_
      simp only [recordOutcome, MetricsStore.record, Dict.get?_set, List.exists_mem_cons_iff]
      by_cases here : outcome.featureId = fid
      · simp [here]
      · simp [here, Ne.symm here]

/-- The latencies of the successes of a feature. -/
def successLatencies (outcomes : List Outcome) (fid : String) : List Rat :=
  (outcomes.filter fun outcome => outcome.featureId = fid ∧ outcome.success).map Outcome.latencyMs

/-- The total latency grows by the latencies of the successes, by induction on the outcomes. -/
theorem totalLatencyMs_recordOutcomes (outcomes : List Outcome) (store : MetricsStore)
    (fid : String)
    : ((recordOutcomes outcomes store).metrics fid).totalLatencyMs
      = (store.metrics fid).totalLatencyMs + (successLatencies outcomes fid).sum := by
  induction outcomes generalizing store with
  | nil => simp [recordOutcomes, successLatencies]
  | cons outcome rest ih =>
      have recorded := MetricsStore.metrics_record store outcome.featureId fid
        outcome.success outcome.latencyMs
      rw [recordOutcomes, List.foldl_cons]
      refine (ih _).trans ?_
      simp only [recordOutcome, recorded]
      by_cases here : outcome.featureId = fid
      · subst here
        cases succeeded : outcome.success with
        | false => simp [FeatureMetrics.counted, successLatencies, succeeded]
        | true => simp [FeatureMetrics.counted, successLatencies, succeeded, add_assoc]
      · simp [successLatencies, here, Ne.symm here]

/-- The counters hold the numbers of these outcomes of a feature and of the successes among them,
and the sum of the latencies of the successes.
-/
structure Counts (outcomes : List Outcome) (fid : String) (metrics : FeatureMetrics) : Prop where
  invocations
    : metrics.invocations = outcomes.countP fun outcome => outcome.featureId = fid
  successes
    : metrics.successes
      = outcomes.countP fun outcome => outcome.featureId = fid ∧ outcome.success
  totalLatencyMs : metrics.totalLatencyMs = (successLatencies outcomes fid).sum

/-- The counts of a feature are determined by its outcomes in any order. -/
theorem Counts.eq_of_perm {outcomes others : List Outcome} {fid : String}
    {metrics other : FeatureMetrics} (counts : Counts outcomes fid metrics)
    (counts' : Counts others fid other) (perm : outcomes.Perm others)
    : metrics = other := by
  obtain ⟨invocations, successes, total, bounded⟩ := metrics
  obtain ⟨invocations', successes', total', bounded'⟩ := other
  have sameInvocations :=
    counts.invocations.trans ((perm.countP_eq _).trans counts'.invocations.symm)
  have sameSuccesses :=
    counts.successes.trans ((perm.countP_eq _).trans counts'.successes.symm)
  have sameTotal := counts.totalLatencyMs.trans
    (((perm.filter _).map _).sum_eq.trans counts'.totalLatencyMs.symm)
  cases sameInvocations
  cases sameSuccesses
  cases sameTotal
  rfl

/-- The counters of a store that starts empty count the recorded outcomes. -/
theorem counts_recordOutcomes {outcomes : List Outcome} {fid : String} {metrics : FeatureMetrics}
    (stored : (recordOutcomes outcomes ∅).get? fid = some metrics)
    : Counts outcomes fid metrics := by
  have here : (recordOutcomes outcomes ∅).metrics fid = metrics := by
    rw [MetricsStore.metrics, stored]
    rfl
  have start : MetricsStore.metrics ∅ fid = {} := rfl
  obtain ⟨invocations, successes⟩ := metrics_replay outcomes ∅ fid
  have total := totalLatencyMs_recordOutcomes outcomes ∅ fid
  rw [start] at invocations successes total
  change ((recordOutcomes outcomes ∅).metrics fid).invocations = _ at invocations
  change ((recordOutcomes outcomes ∅).metrics fid).successes = _ at successes
  rw [here] at invocations successes total
  exact ⟨by simpa using invocations, by simpa using successes, by simpa using total⟩

/-- The averages of some counters divide by a count that is not zero, and the success rate lies
between zero and one.
-/
structure Averaged (metrics : FeatureMetrics) : Prop where
  bounded : 0 ≤ metrics.successes ∧ metrics.successes ≤ metrics.invocations
  invoked : metrics.invocations ≠ 0
  rate
    : ∃ rate,
        metrics.successRate = some rate
        ∧ rate = metrics.successes / metrics.invocations
        ∧ 0 ≤ rate
        ∧ rate ≤ 1
  latency
    : ∀ average,
        metrics.avgLatencyMs = some average
        → metrics.successes ≠ 0 ∧ average = metrics.totalLatencyMs / metrics.successes

/-- Counters of a feature that was invoked have its averages. -/
theorem averaged_of_invoked {metrics : FeatureMetrics} (invoked : metrics.invocations ≠ 0)
    : Averaged metrics := by
  have positive : (0 : Rat) < metrics.invocations := by exact_mod_cast Nat.pos_of_ne_zero invoked
  have bounded : (metrics.successes : Rat) ≤ metrics.invocations := by
    exact_mod_cast metrics.bounded
  refine ⟨⟨Nat.zero_le _, metrics.bounded⟩, invoked, ⟨_, if_neg invoked, rfl, ?_, ?_⟩, ?_⟩
  · exact div_nonneg (Nat.cast_nonneg _) positive.le
  · exact (div_le_one positive).mpr bounded
  · intro average known
    simp only [FeatureMetrics.avgLatencyMs, Option.ite_none_left_eq_some,
      Option.some.injEq] at known
    exact ⟨known.1, known.2.symm⟩

/-- After any recorded outcomes exactly the features with outcomes have counters; these count the
outcomes, have averages, and are the same for every order of the outcomes.
-/
theorem record_totals (outcomes : List Outcome) (fid : String)
    : (((recordOutcomes outcomes ∅).get? fid).isSome
        ↔ ∃ outcome ∈ outcomes, outcome.featureId = fid)
      ∧ (∀ metrics,
          (recordOutcomes outcomes ∅).get? fid = some metrics
          → Counts outcomes fid metrics ∧ Averaged metrics)
      ∧ ∀ others,
          outcomes.Perm others
          → (recordOutcomes others ∅).get? fid = (recordOutcomes outcomes ∅).get? fid := by
  have recorded (outcomes : List Outcome)
      : ((recordOutcomes outcomes ∅).get? fid).isSome
        ↔ ∃ outcome ∈ outcomes, outcome.featureId = fid := by
    simpa using @isSome_get?_recordOutcomes outcomes ∅ fid
  refine ⟨recorded outcomes, fun metrics stored => ?_, fun others perm => ?_⟩
  · have counts := counts_recordOutcomes stored
    refine ⟨counts, averaged_of_invoked ?_⟩
    obtain ⟨outcome, member, own⟩ := (recorded outcomes).mp (by rw [stored]; rfl)
    rw [counts.invocations]
    exact (List.countP_pos_iff.mpr ⟨outcome, member, by simpa using own⟩).ne'
  · have alike : ((recordOutcomes others ∅).get? fid).isSome
        ↔ ((recordOutcomes outcomes ∅).get? fid).isSome := by
      rw [recorded, recorded]
      simp only [perm.mem_iff]
    cases stored : (recordOutcomes outcomes ∅).get? fid with
    | none => simpa [stored] using alike
    | some metrics =>
        obtain ⟨other, stored'⟩ := Option.isSome_iff_exists.mp (alike.mpr (by rw [stored]; rfl))
        rw [stored', (counts_recordOutcomes stored).eq_of_perm (counts_recordOutcomes stored') perm]

end AgentFeatures
