import AgentFeatures.Gateway.ObjectRanking

/-! What both policies make of every list: the order of scores, of ties and of selections. -/

namespace AgentFeatures

open Library

section Objects

variable {ι : Type}

-----------------------------------------------------------------------------------------
-- Equal scores
-----------------------------------------------------------------------------------------

/-- No object stands between two places of another one that has its score and baseline key. -/
def TiesApart (score : ι → Rat) (feature : ι → Feature) (objects : List ι) : Prop :=
  ∀ a b,
    a ≠ b
    → score a = score b
    → rankKey (feature a) = rankKey (feature b)
    → ¬ [a, b, a].Sublist objects

/-- A list without repeated objects has no object on both sides of another one. -/
theorem tiesApart_of_nodup {objects : List ι} (distinct : objects.Nodup) (score : ι → Rat)
    (feature : ι → Feature)
    : TiesApart score feature objects := by
  intro a b _ _ _ around
  exact List.nodup_iff_sublist.mp distinct a
    ((List.Sublist.cons_cons a (List.sublist_cons_self b [a])).trans around)

/-- The objects with a value of the score, in the order of the list. -/
def withScore (score : ι → Rat) (value : Rat) (objects : List ι) : List ι :=
  objects.filter fun object => score object = value

/-- Objects of one baseline key stand in the baseline order as in the list. -/
theorem sublist_order_iff {feature : ι → Feature} {objects order : List ι}
    (baseline : rankObjects feature objects = some order) {chosen : List ι} {k : RankKey}
    (alike : ∀ object ∈ chosen, rankKey (feature object) = some k)
    : chosen.Sublist order ↔ chosen.Sublist objects := by
  have whole : chosen.filter (fun object => rankKey (feature object) = some k) = chosen :=
    List.filter_eq_self.mpr fun object member => decide_eq_true (alike object member)
  have same := filter_key_sortedBy baseline k
  constructor
  · intro part
    have kept := part.filter fun object => rankKey (feature object) = some k
    rw [whole, same] at kept
    exact kept.trans List.filter_sublist
  · intro part
    have kept := part.filter fun object => rankKey (feature object) = some k
    rw [whole, ← same] at kept
    exact kept.trans List.filter_sublist

section ByScore

variable {score : Feature → MetricsStore → Rat} {feature : ι → Feature}
  {objects order sorted : List ι} {store : MetricsStore}

/-- The score falls along a sort by score and baseline key. -/
theorem pairwise_byScore
    (known : sortedBy (fun object => scoreKey score store (feature object)) objects = some sorted)
    : sorted.Pairwise fun a b => -score (feature a) store ≤ -score (feature b) store := by
  have unordered : objects.Pairwise fun _ _ => True := List.pairwise_of_forall fun _ _ => trivial
  refine (sortedBy_pairwise known unordered).imp fun {a b} ahead => ?_
  obtain ⟨k, l, first, second, below⟩ := ahead
  obtain ⟨base, -, rfl⟩ := Option.map_eq_some_iff.mp first
  obtain ⟨base', -, rfl⟩ := Option.map_eq_some_iff.mp second
  rcases below with less | ⟨same, -⟩
  · rcases Prod.Lex.toLex_lt_toLex.mp less with better | ⟨same, -⟩
    · exact le_of_lt better
    · exact le_of_eq same
  · exact le_of_eq (Prod.mk.inj (toLex.injective same)).1

/-- A sort by score and baseline key has the baseline order of each score's objects. -/
theorem withScore_byScore
    (known : sortedBy (fun object => scoreKey score store (feature object)) objects = some sorted)
    (baseline : rankObjects feature objects = some order) (value : Rat)
    : withScore (fun object => score (feature object) store) value sorted
      = withScore (fun object => score (feature object) store) value order := by
  have mono : StrictMono fun key : RankKey => (toLex (-value, key) : ScoreKey) :=
    fun _ _ less => Prod.Lex.toLex_lt_toLex.mpr (.inr ⟨rfl, less⟩)
  have alike : ∀ object ∈ withScore (fun object => score (feature object) store) value objects,
      scoreKey score store (feature object)
        = (rankKey (feature object)).map fun key => toLex (-value, key) := by
    intro object member
    have ofValue : score (feature object) store = value := by
      simpa using (List.mem_filter.mp member).2
    rw [scoreKey, ofValue]
  have selected := sortedBy_filter known fun object => score (feature object) store = value
  have selected' := sortedBy_filter baseline fun object => score (feature object) store = value
  rw [← withScore, sortedBy_congr alike, sortedBy_strictMono mono] at selected
  exact Option.some.inj (selected.symm.trans selected')

end ByScore

variable [DecidableEq ι]

section Metrics

variable {feature : ι → Feature} {objects order best : List ι} {store : MetricsStore}
  {prior weight : Rat}

/-- Ties that are apart stand in the baseline order as their places do. Witness: an object whose
last place is behind that of a later one would stand on both sides of it, with the same key.
-/
theorem pairwise_order (baseline : rankObjects feature objects = some order) {score : ι → Rat}
    (apart : TiesApart score feature objects)
    : order.Pairwise fun a b =>
        score a = score b
        → ∀ i j,
            (places order).get? a = some i → (places order).get? b = some j → i ≤ j := by
  refine List.pairwise_iff_forall_sublist.mpr fun {a b} before tied i j atFirst atSecond => ?_
  by_contra behind
  have differs : a ≠ b := by
    intro same
    subst same
    cases atFirst.symm.trans atSecond
    exact behind (le_refl _)
  have around := sublist_of_places before differs atSecond atFirst (not_le.mp behind)
  have keys := rankObjects_pairwise baseline
  obtain ⟨k, l, first, second, below⟩ := List.pairwise_pair.mp (keys.sublist before)
  obtain ⟨l', k', second', first', above⟩ :=
    List.pairwise_pair.mp (keys.sublist ((List.sublist_cons_self a [b, a]).trans around))
  cases first.symm.trans first'
  cases second.symm.trans second'
  have same : k = l := le_antisymm below above
  subst same
  have alike : ∀ object ∈ [a, b, a], rankKey (feature object) = some k := by
    simp [first, second]
  exact apart a b differs tied (first.trans second.symm)
    ((sublist_order_iff baseline alike).mp around)

/-- Where the ranking keeps the baseline order of equal scores, ties are apart. Witness: an object
around a tied one would have to stand at the same place as that one.
-/
theorem tiesApart_of_withScore_eq (baseline : rankObjects feature objects = some order)
    (known : (ShippedPolicy.metrics prior weight).rank feature objects store = some best)
    {score : ι → Rat} (scoring : (ShippedPolicy.metrics prior weight).score feature store = score)
    (same : ∀ value, withScore score value best = withScore score value order)
    : TiesApart score feature objects := by
  have ranked := metrics_rank_pairwise baseline known
  rw [scoring] at ranked
  intro a b differs tied keys around
  have inObjects : a ∈ objects := around.subset List.mem_cons_self
  obtain ⟨k, key⟩ := Option.isSome_iff_exists.mp
    (sortedBy_isSome_iff.mp (Option.isSome_iff_exists.mpr ⟨order, baseline⟩) a inObjects)
  have alike : ∀ object ∈ [a, b, a], rankKey (feature object) = some k := by
    simpa [← keys] using key
  have scores : [a, b, a].filter (fun object => score object = score a) = [a, b, a] := by
    simp [tied]
  have kept := ((sublist_order_iff baseline alike).mpr around).filter
    fun object => score object = score a
  rw [scores] at kept
  have inBest : [a, b, a].Sublist best := by
    rw [← withScore, ← same (score a)] at kept
    exact kept.trans List.filter_sublist
  have started : [a, b].Sublist [a, b, a] := List.sublist_append_left [a, b] [a]
  obtain ⟨i, j, atFirst, atSecond, first⟩ :=
    List.pairwise_pair.mp (ranked.sublist (started.trans inBest))
  obtain ⟨j', i', atSecond', atFirst', second⟩ :=
    List.pairwise_pair.mp (ranked.sublist ((List.sublist_cons_self a [b, a]).trans inBest))
  cases atFirst.symm.trans atFirst'
  cases atSecond.symm.trans atSecond'
  have le := (first.resolve_left (by simp [tied])).2
  have ge := (second.resolve_left (by simp [tied])).2
  cases le_antisymm le ge
  exact differs (places_injective atFirst atSecond)

/-- Where ties are apart the ranking keeps the baseline order of equal scores. Witness: different
objects have different places, so that one order of them fits.
-/
theorem withScore_eq_of_tiesApart (baseline : rankObjects feature objects = some order)
    (known : (ShippedPolicy.metrics prior weight).rank feature objects store = some best)
    {score : ι → Rat} (scoring : (ShippedPolicy.metrics prior weight).score feature store = score)
    (apart : TiesApart score feature objects) (value : Rat)
    : withScore score value best = withScore score value order := by
  have ranked := metrics_rank_pairwise baseline known
  rw [scoring] at ranked
  have ofValue {object : ι} {list : List ι} (member : object ∈ withScore score value list)
      : object ∈ list ∧ score object = value := by
    simpa [withScore] using member
  have perm : (withScore score value best).Perm (withScore score value order) :=
    ((rank_perm known).trans (sortedBy_perm baseline).symm).filter _
  let inPlace (a b : ι) : Prop :=
    ∀ i j, (places order).get? a = some i → (places order).get? b = some j → i ≤ j
  have first : (withScore score value best).Pairwise inPlace := by
    refine (ranked.filter _).imp_of_mem fun {a b} member member' ahead i j atFirst atSecond => ?_
    obtain ⟨i', j', atFirst', atSecond', below⟩ := ahead
    cases atFirst.symm.trans atFirst'
    cases atSecond.symm.trans atSecond'
    refine (below.resolve_left fun less => ?_).2
    rw [(ofValue member).2, (ofValue member').2] at less
    exact lt_irrefl _ less
  have second : (withScore score value order).Pairwise inPlace := by
    refine ((pairwise_order baseline apart).filter _).imp_of_mem
      fun {a b} member member' ahead => ahead ?_
    rw [(ofValue member).2, (ofValue member').2]
  refine perm.eq_of_pairwise (fun a b member member' ahead behind => ?_) first second
  have inOrder := (ofValue (perm.mem_iff.mp member)).1
  obtain ⟨i, atFirst⟩ := Option.isSome_iff_exists.mp (isSome_get?_places inOrder)
  obtain ⟨j, atSecond⟩ := Option.isSome_iff_exists.mp
    (isSome_get?_places (ofValue member').1)
  cases le_antisymm (ahead i j atFirst atSecond) (behind j i atSecond atFirst)
  exact places_injective atFirst atSecond

/-- The metrics policy keeps the baseline order of equal scores exactly where ties are apart. -/
theorem withScore_eq_iff (baseline : rankObjects feature objects = some order)
    (known : (ShippedPolicy.metrics prior weight).rank feature objects store = some best)
    : (∀ value,
        withScore ((ShippedPolicy.metrics prior weight).score feature store) value best
          = withScore ((ShippedPolicy.metrics prior weight).score feature store) value order)
      ↔ TiesApart ((ShippedPolicy.metrics prior weight).score feature store) feature
          objects :=
  ⟨tiesApart_of_withScore_eq baseline known rfl, withScore_eq_of_tiesApart baseline known rfl⟩

end Metrics

/-- The policy returns the objects in an order in which the score never rises, so that the first
has the greatest, and equal scores stand as in the baseline order.
-/
def RanksByScore (shipped : ShippedPolicy) (feature : ι → Feature) (objects : List ι)
    (store : MetricsStore)
    : Prop :=
  let score := shipped.score feature store
  ∃ order best,
    rankObjects feature objects = some order
    ∧ shipped.rank feature objects store = some best
    ∧ best.Perm objects
    ∧ best.Pairwise (fun a b => score b ≤ score a)
    ∧ (∀ dispatched ∈ best.head?, ∀ object ∈ objects, score object ≤ score dispatched)
    ∧ ∀ value, withScore score value best = withScore score value order

/-- The policy's ties stand as in the baseline order: the baseline's own always do. -/
def ShippedPolicy.KeepsTies (shipped : ShippedPolicy) (feature : ι → Feature)
    (objects : List ι) (store : MetricsStore)
    : Prop :=
  match shipped with
  | .baseline => True
  | .metrics .. => TiesApart (shipped.score feature store) feature objects

/-- A policy ranks by score, with ties in the baseline order, exactly when every version text
converts and no repeated object stands around a tied one.
-/
theorem ranksByScore_iff (shipped : ShippedPolicy) (feature : ι → Feature) (objects : List ι)
    (store : MetricsStore)
    : RanksByScore shipped feature objects store
      ↔ (∀ object ∈ objects, DigitsConvert (feature object).manifest.version.toList)
        ∧ shipped.KeepsTies feature objects store := by
  constructor
  · intro ranks
    obtain ⟨order, best, baseline, known, -, -, -, ties⟩ := ranks
    refine ⟨rankObjects_isSome_iff.mp (by rw [baseline]; rfl), ?_⟩
    cases shipped with
    | baseline => exact trivial
    | metrics prior weight => exact (withScore_eq_iff baseline known).mp ties
  · intro conditions
    obtain ⟨converts, apart⟩ := conditions
    obtain ⟨order, baseline⟩ := Option.isSome_iff_exists.mp (rankObjects_isSome_iff.mpr converts)
    obtain ⟨best, known⟩ := Option.isSome_iff_exists.mp (rank_isSome_iff.mpr converts)
    have falling := rank_pairwise known
    refine ⟨order, best, baseline, known, rank_perm known, falling, ?_, ?_⟩
    · intro dispatched first object member
      obtain ⟨others, rfl⟩ := List.head?_eq_some_iff.mp first
      rcases List.mem_cons.mp ((rank_perm known).mem_iff.mpr member) with rfl | later
      · exact le_refl _
      · exact (List.pairwise_cons.mp falling).1 object later
    · cases shipped with
      | baseline =>
          intro value
          cases baseline.symm.trans known
          rfl
      | metrics prior weight => exact (withScore_eq_iff baseline known).mpr apart

/-- One provider with the superscript two for a version: neither policy ranks it. And two
providers that tie, the first listed again behind the second: it loses its first place.
-/
theorem superscript_not_ranked
    : ¬ (∀ (shipped : ShippedPolicy) (feature : Fin 1 → Feature) (objects : List (Fin 1))
          (store : MetricsStore),
          RanksByScore shipped feature objects store)
      ∧ rankObjects (fun _ : Fin 2 => providerAt "1") [0, 1, 0] = some [0, 1, 0]
      ∧ (ShippedPolicy.metrics (7 / 10) (1 / 10)).rank (fun _ : Fin 2 => providerAt "1")
          [0, 1, 0] ∅
        = some [1, 0, 0] := by
  refine ⟨fun all => ?_, rfl, by decide +kernel⟩
  obtain ⟨order, best, baseline, -⟩ := all .baseline (fun _ => providerAt "²") [0] ∅
  have raised : rankObjects (fun _ : Fin 1 => providerAt "²") [0] = none := rfl
  cases raised.symm.trans baseline

-----------------------------------------------------------------------------------------
-- Selections
-----------------------------------------------------------------------------------------

/-- Without repeated objects the metrics policy sorts by score and then by the baseline key.
Witness: both orders have the baseline order of each score's objects.
-/
theorem metrics_rank_of_nodup {feature : ι → Feature} {objects : List ι}
    (distinct : objects.Nodup) (prior weight : Rat) (store : MetricsStore)
    : (ShippedPolicy.metrics prior weight).rank feature objects store
      = sortedBy (fun object => scoreKey (metricsScore prior weight) store (feature object))
          objects := by
  let metrics : ShippedPolicy := .metrics prior weight
  have keys
      : (sortedBy (fun object => scoreKey (metricsScore prior weight) store (feature object))
            objects).isSome
          ↔ ∀ object ∈ objects, DigitsConvert (feature object).manifest.version.toList := by
    simp only [sortedBy_isSome_iff, scoreKey, Option.isSome_map, rankKey_isSome_iff]
  have returns : (metrics.rank feature objects store).isSome ↔ _ := rank_isSome_iff
  change metrics.rank feature objects store = _
  cases known : metrics.rank feature objects store with
  | none =>
      rw [known, ← keys] at returns
      exact (Option.not_isSome_iff_eq_none.mp (mt returns.mpr Bool.false_ne_true)).symm
  | some best =>
      have converts := returns.mp (by rw [known]; rfl)
      obtain ⟨order, baseline⟩ := Option.isSome_iff_exists.mp (rankObjects_isSome_iff.mpr converts)
      obtain ⟨sorted, byScore⟩ := Option.isSome_iff_exists.mp (keys.mpr converts)
      have ties := (withScore_eq_iff baseline known).mpr (tiesApart_of_nodup distinct _ feature)
      have same : best = sorted := by
        refine @eq_of_filter_eq _ _ _ _ (fun object => -metrics.score feature store object) _ _
          ((rank_pairwise known).imp neg_le_neg) (pairwise_byScore byScore) fun value => ?_
        have classes := (ties (-value)).trans (withScore_byScore byScore baseline (-value)).symm
        simp only [neg_eq_iff_eq_neg]
        exact classes
      rw [byScore, same]

/-- Ranking the objects that satisfy the predicate gives those of the whole ranking that do. -/
def OnlyFilters (shipped : ShippedPolicy) (feature : ι → Feature) (objects : List ι)
    (store : MetricsStore) (keep : ι → Bool)
    : Prop :=
  ∃ best,
    shipped.rank feature objects store = some best
    ∧ shipped.rank feature (objects.filter keep) store = some (best.filter keep)

/-- Pins only filter exactly when every version text converts. Witness: without repeated objects
both policies are stable sorts, and sorting a selection selects from the sort.
-/
theorem onlyFilters_iff (shipped : ShippedPolicy) (feature : ι → Feature) {objects : List ι}
    (distinct : objects.Nodup) (store : MetricsStore) (keep : ι → Bool)
    : OnlyFilters shipped feature objects store keep
      ↔ ∀ object ∈ objects, DigitsConvert (feature object).manifest.version.toList := by
  constructor
  · intro filters
    obtain ⟨best, known, -⟩ := filters
    exact rank_isSome_iff.mp (by rw [known]; rfl)
  · intro converts
    obtain ⟨best, known⟩ := Option.isSome_iff_exists.mp (rank_isSome_iff.mpr converts)
    refine ⟨best, known, ?_⟩
    cases shipped with
    | baseline => exact sortedBy_filter known keep
    | metrics prior weight =>
        rw [metrics_rank_of_nodup distinct] at known
        rw [metrics_rank_of_nodup (distinct.filter keep)]
        exact sortedBy_filter known keep

/-- Two providers of different vendors, the second with the given version. -/
def twoVendors (version : String) (object : Fin 2) : Feature where
  manifest :=
    { name := "x", version := if object.val = 0 then "1" else version,
      vendor := if object.val = 0 then "v" else "w", capability := "x",
      defaultCapability := id }

/-- A pin to the first of two vendors keeps the best one of the two. -/
theorem onlyFilters_twoVendors
    : OnlyFilters (.metrics (7 / 10) (1 / 10)) (twoVendors "2") [0, 1] ∅ (· = 0) :=
  (onlyFilters_iff _ _ (by decide) _ _).mpr (rankObjects_isSome_iff.mp rfl)

/-- Ranking raises on the superscript two of a provider that the pin drops. -/
theorem superscript_not_onlyFilters
    : ¬ ∀ (shipped : ShippedPolicy) (feature : Fin 2 → Feature) (objects : List (Fin 2))
          (store : MetricsStore) (keep : Fin 2 → Bool),
          objects.Nodup → OnlyFilters shipped feature objects store keep := by
  intro all
  obtain ⟨best, known, -⟩ := all .baseline (twoVendors "²") [0, 1] ∅ (· = 0) (by decide)
  have raised : rankObjects (twoVendors "²") [0, 1] = none := rfl
  cases raised.symm.trans known

/-- The ranking of a listing's features is that of its objects. -/
theorem rank_eq_map_rank (shipped : ShippedPolicy) (features : List Feature)
    (store : MetricsStore)
    : shipped.policy.rank features store
      = (shipped.rank features.get (List.finRange features.length) store).map
          (List.map features.get) := by
  have listed : (List.finRange features.length).map features.get = features := by simp
  have distinct := List.nodup_finRange features.length
  cases shipped with
  | baseline =>
      change sortedBy rankKey features = _
      rw [← listed, sortedBy_map]
      rw [listed]
      rfl
  | metrics prior weight =>
      change metricsRank (metricsScore prior weight) features store = _
      rw [metricsRank_eq, metrics_rank_of_nodup distinct, ← sortedBy_map, listed]

end Objects

end AgentFeatures
