import AgentFeatures.Gateway.Ranking
import AgentFeatures.Library.StableSort

/-! Both policies sort stably by falling score, then by the baseline key. -/

namespace AgentFeatures

open Library

/-- Falling score, then the baseline key. -/
abbrev ScoreKey := Rat ×ₗ RankKey

/-- The key of a feature under a policy's scores; `none` when its version text raises. -/
def scoreKey (score : Feature → MetricsStore → Rat) (store : MetricsStore) (feature : Feature)
    : Option ScoreKey :=
  (rankKey feature).map fun key => toLex (-score feature store, key)

/-- The policy ranks by falling score, then by the baseline key, and keeps the order of what it
is given among equals.
-/
def RankingPolicy.ByScore (policy : RankingPolicy) : Prop :=
  ∀ features store, policy.rank features store = sortedBy (scoreKey policy.score store) features

/-- The prior of a tier by its rank. -/
def priorOfRank : Nat → Rat
  | 0 => 1 / 10
  | 1 => 1 / 20
  | _ => 0

/-- A trust tier with a smaller rank has no smaller prior. -/
theorem priorOfRank_antitone : Antitone priorOfRank := by
  refine antitone_nat_of_succ_le fun rank => ?_
  rcases rank with - | - | rank <;> norm_num [priorOfRank]

/-- The baseline ranks by its score too. Witness: the trust prior falls with the first part of
the key, so it adds nothing to the order.
-/
theorem baselinePolicy_byScore : baselinePolicy.ByScore := by
  intro features store
  let withPrior (key : RankKey) : ScoreKey := toLex (-priorOfRank (ofLex key).1, key)
  have mono : StrictMono withPrior := by
    intro left right less
    rw [Prod.Lex.toLex_lt_toLex]
    have tiers : (ofLex left).1 ≤ (ofLex right).1 := by
      rcases Prod.Lex.lt_iff.mp less with smaller | ⟨same, -⟩
      · exact le_of_lt smaller
      · exact le_of_eq same
    rcases lt_or_eq_of_le (neg_le_neg (priorOfRank_antitone tiers)) with smaller | same
    · exact Or.inl smaller
    · exact Or.inr ⟨same, less⟩
  have key : scoreKey baselinePolicy.score store = fun f => (rankKey f).map withPrior := by
    funext f
    rw [scoreKey, rankKey, Option.map_map, Option.map_map]
    congr 1
    funext parts
    change toLex (-trustPrior f.manifest.trust, _) = _
    cases f.manifest.trust <;> rfl
  change sortedBy rankKey features = _
  rw [key, sortedBy_strictMono mono]

/-- The baseline key of a numbered object. -/
abbrev objectKey (object : Feature × Nat) : Option RankKey := rankKey object.1

/-- Numbers grow along a numbered list. -/
theorem pairwise_numbers (features : List Feature)
    : features.zipIdx.Pairwise fun a b => a.2 < b.2 := by
  rw [← @List.pairwise_map _ _ Prod.snd, List.zipIdx_map_snd]
  exact List.pairwise_lt_range'

section Places

variable {features : List Feature} {baseline : List (Feature × Nat)}

/-- The place of an object in the baseline order grows with its key and its number. -/
theorem place_lt_place (sorted : sortedBy objectKey features.zipIdx = some baseline)
    {a b : Feature × Nat} (member : a ∈ features.zipIdx) (member' : b ∈ features.zipIdx)
    (before : Stably objectKey (fun a b => a.2 < b.2) a b)
    : (baseline.findIdx fun other => other.2 = a.2)
      < baseline.findIdx fun other => other.2 = b.2 := by
  have same := sortedBy_perm sorted
  have distinct : (features.zipIdx.map Prod.snd).Nodup := by
    rw [List.zipIdx_map_snd]
    exact List.nodup_range'
  have later (a b : Feature × Nat) : a.2 < b.2 → ¬ b.2 < a.2 := lt_asymm
  exact findIdx_lt_findIdx ((same.map Prod.snd).nodup_iff.mpr distinct)
    (sortedBy_pairwise sorted (pairwise_numbers features)) (fun _ _ => Stably.asymm later)
    (same.mem_iff.mpr member) (same.mem_iff.mpr member') before

/-- Sorting by score and place sorts by score and baseline key. -/
theorem sortedBy_places {score : Feature → MetricsStore → Rat} {store : MetricsStore}
    (sorted : sortedBy objectKey features.zipIdx = some baseline) {ranked : List (Feature × Nat)}
    (known : sortedBy (fun object => scoreKey score store object.1) features.zipIdx = some ranked)
    : sortedBy
        (fun object : Feature × Nat =>
          some (toLex (-score object.1 store,
            baseline.findIdx fun other => other.2 = object.2) : Rat ×ₗ Nat))
        features.zipIdx
      = some ranked := by
  have numbered := pairwise_numbers features
  have later (a b : Feature × Nat) : a.2 < b.2 → ¬ b.2 < a.2 := lt_asymm
  refine sortedBy_eq_some_of_pairwise later numbered (fun _ _ => rfl) (sortedBy_perm known)
    ((sortedBy_pairwise known numbered).imp_of_mem ?_)
  intro a b inRanked inRanked' ahead
  have member := (sortedBy_perm known).subset inRanked
  have member' := (sortedBy_perm known).subset inRanked'
  obtain ⟨k, l, keyed, keyed', order⟩ := ahead
  obtain ⟨key, base, rfl⟩ := Option.map_eq_some_iff.mp keyed
  obtain ⟨key', base', rfl⟩ := Option.map_eq_some_iff.mp keyed'
  refine ⟨_, _, rfl, rfl, Or.inl ?_⟩
  rw [Prod.Lex.toLex_lt_toLex]
  rcases order with less | ⟨same, first⟩
  · rcases Prod.Lex.toLex_lt_toLex.mp less with better | ⟨same, smaller⟩
    · exact Or.inl better
    · exact Or.inr
        ⟨same, place_lt_place sorted member member' ⟨key, key', base, base', Or.inl smaller⟩⟩
  · obtain ⟨scores, keys⟩ := Prod.mk.inj (toLex.injective same)
    exact Or.inr ⟨scores,
      place_lt_place sorted member member' ⟨key, key', base, base', Or.inr ⟨keys, first⟩⟩⟩

end Places

/-- A ranking by score and baseline place sorts by score and baseline key. Witness: the place of
an object in the baseline order grows with its key and its number.
-/
theorem metricsRank_eq (score : Feature → MetricsStore → Rat) (features : List Feature)
    (store : MetricsStore)
    : metricsRank score features store = sortedBy (scoreKey score store) features := by
  have unmarked : sortedBy (scoreKey score store) features
      = (sortedBy (fun object => scoreKey score store object.1) features.zipIdx).map
          (List.map Prod.fst) := by
    rw [← sortedBy_map, List.zipIdx_map_fst]
  have keys
      : (sortedBy (fun object => scoreKey score store object.1) features.zipIdx).isSome
        = (sortedBy objectKey features.zipIdx).isSome := by
    rw [Bool.eq_iff_iff, sortedBy_isSome_iff, sortedBy_isSome_iff]
    simp only [scoreKey, Option.isSome_map]
  rw [unmarked, metricsRank]
  cases sorted : sortedBy objectKey features.zipIdx with
  | none =>
      rw [sorted, Option.isSome_none, Option.isSome_eq_false_iff, Option.isNone_iff_eq_none] at keys
      rw [keys]
      rfl
  | some baseline =>
      rw [sorted] at keys
      obtain ⟨ranked, known⟩ := Option.isSome_iff_exists.mp keys
      rw [known]
      simp only [Option.bind_eq_bind, Option.bind_some, sortedBy_places sorted known]
      rfl

/-- The metrics policy ranks by its score. -/
theorem metricsPolicy_byScore (defaultPrior latencyWeight : Rat)
    : (metricsPolicy defaultPrior latencyWeight).ByScore :=
  fun features store => metricsRank_eq _ features store

end AgentFeatures
