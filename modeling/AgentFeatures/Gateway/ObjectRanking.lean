import AgentFeatures.Catalog.VersionTexts
import AgentFeatures.Gateway.ScoreOrder

/-! Rankings of feature objects, which `id` tells apart, and what they keep of a list. -/

namespace AgentFeatures

open Library

/-- The two policies that ship. -/
inductive ShippedPolicy where
  | baseline
  | metrics (defaultPrior latencyWeight : Rat)

section Objects

variable {ι : Type}

/-- `rank_features` of objects; `feature` is what an object holds. -/
def rankObjects (feature : ι → Feature) (objects : List ι) : Option (List ι) :=
  sortedBy (fun object => rankKey (feature object)) objects

/-- The baseline returns exactly when every version converts. -/
theorem rankObjects_isSome_iff {feature : ι → Feature} {objects : List ι}
    : (rankObjects feature objects).isSome
      ↔ ∀ object ∈ objects, DigitsConvert (feature object).manifest.version.toList := by
  simp only [rankObjects, sortedBy_isSome_iff, rankKey_isSome_iff]

/-- A trust tier with a smaller key has no smaller prior. -/
theorem trustPrior_le_of_rankKey_le {f g : Feature} {k l : RankKey} (first : rankKey f = some k)
    (second : rankKey g = some l) (below : k ≤ l)
    : trustPrior g.manifest.trust ≤ trustPrior f.manifest.trust := by
  have prior (tier : TrustTier) : trustPrior tier = priorOfRank (trustRank tier) := by
    cases tier <;> rfl
  obtain ⟨version, -, rfl⟩ := Option.map_eq_some_iff.mp first
  obtain ⟨other, -, rfl⟩ := Option.map_eq_some_iff.mp second
  rw [prior, prior]
  refine priorOfRank_antitone ?_
  rcases Prod.Lex.toLex_le_toLex.mp below with smaller | ⟨same, -⟩
  · exact le_of_lt smaller
  · exact le_of_eq same

/-- Baseline keys do not fall along the baseline order. -/
theorem rankObjects_pairwise {feature : ι → Feature} {objects order : List ι}
    (known : rankObjects feature objects = some order)
    : order.Pairwise fun a b =>
        ∃ k l, rankKey (feature a) = some k ∧ rankKey (feature b) = some l ∧ k ≤ l := by
  have unordered : objects.Pairwise fun _ _ => True := List.pairwise_of_forall fun _ _ => trivial
  refine (sortedBy_pairwise known unordered).imp fun {a b} ahead => ?_
  obtain ⟨k, l, first, second, less | ⟨same, -⟩⟩ := ahead
  · exact ⟨k, l, first, second, le_of_lt less⟩
  · exact ⟨k, l, first, second, le_of_eq same⟩

variable [DecidableEq ι]

/-- `{id(f): i for i, f in enumerate(ranked)}`: a repeated object has its last place. -/
def places (ranked : List ι) : Dict ι Nat := Dict.ofList ranked.zipIdx

namespace ShippedPolicy

def policy : ShippedPolicy → RankingPolicy
  | baseline => baselinePolicy
  | metrics defaultPrior latencyWeight => metricsPolicy defaultPrior latencyWeight

/-- The score of an object. -/
def score (shipped : ShippedPolicy) (feature : ι → Feature) (store : MetricsStore)
    (object : ι)
    : Rat :=
  shipped.policy.score (feature object) store

/-- `rank` of the policy on objects. -/
def rank (shipped : ShippedPolicy) (feature : ι → Feature) (objects : List ι)
    (store : MetricsStore)
    : Option (List ι) :=
  match shipped with
  | baseline => rankObjects feature objects
  | metrics .. => do
      let baseline := places (← rankObjects feature objects)
      sortedBy
        (fun object =>
          (baseline.get? object).map fun place =>
            (toLex (-shipped.score feature store object, place) : Rat ×ₗ Nat))
        objects

end ShippedPolicy

-----------------------------------------------------------------------------------------
-- Places
-----------------------------------------------------------------------------------------

/-- An object has the last of its places. Witness: induction from the end of the list. -/
theorem get?_places_eq_some_iff {ranked : List ι} {object : ι} {place : Nat}
    : (places ranked).get? object = some place
      ↔ ∃ before after,
          ranked = before ++ object :: after ∧ before.length = place ∧ object ∉ after := by
  induction ranked using List.reverseRecOn with
  | nil => simp [places, Dict.ofList, Dict.get?]
  | append_singleton rest last ih =>
      have grown : places (rest ++ [last]) = (places rest).set last rest.length := by
        simp [places, Dict.ofList, List.zipIdx_append]
      rw [grown, Dict.get?_set]
      by_cases isLast : object = last
      · subst isLast
        rw [if_pos rfl, Option.some.injEq]
        constructor
        · intro same
          exact ⟨rest, [], rfl, same, List.not_mem_nil⟩
        · intro split
          obtain ⟨before, after, same, size, absent⟩ := split
          rcases List.eq_nil_or_concat after with rfl | ⟨initial, final, rfl⟩
          · rw [(List.append_inj' same rfl).1, size]
          · rw [List.concat_eq_append, ← List.cons_append, ← List.append_assoc] at same
            rw [← List.cons.inj (List.append_inj' same rfl).2 |>.1] at absent
            exact absurd (by simp) absent
      · rw [if_neg isLast, ih]
        constructor
        · intro split
          obtain ⟨before, after, rfl, size, absent⟩ := split
          exact ⟨before, after ++ [last], by simp, size, by simp [absent, isLast]⟩
        · intro split
          obtain ⟨before, after, same, size, absent⟩ := split
          rcases List.eq_nil_or_concat after with rfl | ⟨initial, final, rfl⟩
          · exact absurd (List.cons.inj (List.append_inj' same rfl).2).1.symm isLast
          · rw [List.concat_eq_append, ← List.cons_append, ← List.append_assoc] at same
            refine ⟨before, initial, (List.append_inj' same rfl).1, size, ?_⟩
            exact fun member => absent (by simp [member])

/-- Every object of the list has a place. -/
theorem isSome_get?_places {ranked : List ι} {object : ι} (member : object ∈ ranked)
    : ((places ranked).get? object).isSome := by
  rw [Dict.isSome_get?_iff, places, Dict.mem_keys_ofList]
  simpa using member

/-- Different objects have different places. -/
theorem places_injective {ranked : List ι} {a b : ι} {place : Nat}
    (first : (places ranked).get? a = some place) (second : (places ranked).get? b = some place)
    : a = b := by
  obtain ⟨before, after, rfl, size, -⟩ := get?_places_eq_some_iff.mp first
  obtain ⟨other, rest, same, size', -⟩ := get?_places_eq_some_iff.mp second
  exact (List.cons.inj (List.append_inj same (size.trans size'.symm)).2).1

/-- An object whose last place is earlier than that of another one stands before it. -/
theorem pair_sublist_of_places {ranked : List ι} {a b : ι} {place later : Nat}
    (first : (places ranked).get? a = some place) (second : (places ranked).get? b = some later)
    (less : place < later)
    : [a, b].Sublist ranked := by
  obtain ⟨front, after, rfl, rfl, -⟩ := get?_places_eq_some_iff.mp first
  obtain ⟨other, rest, same, rfl, -⟩ := get?_places_eq_some_iff.mp second
  rcases List.append_eq_append_iff.mp same with ⟨gap, otherSplit, tail⟩ | ⟨gap, split, -⟩
  · cases gap with
    | nil => simp [otherSplit] at less
    | cons middle gap =>
        obtain ⟨-, rfl⟩ := List.cons.inj tail
        exact (List.Sublist.cons_cons a (List.singleton_sublist.mpr (by simp))).trans
          (List.sublist_append_right front _)
  · simp [split] at less

/-- An object that stands before another one and has its last place behind it stands on both
sides of it.
-/
theorem sublist_of_places {ranked : List ι} {a b : ι} {place later : Nat}
    (before : [a, b].Sublist ranked) (differs : a ≠ b)
    (first : (places ranked).get? b = some place) (second : (places ranked).get? a = some later)
    (less : place < later)
    : [a, b, a].Sublist ranked := by
  obtain ⟨front, after, rfl, rfl, absent⟩ := get?_places_eq_some_iff.mp first
  obtain ⟨other, rest, same, rfl, -⟩ := get?_places_eq_some_iff.mp second
  have inAfter : a ∈ after := by
    rcases List.append_eq_append_iff.mp same with ⟨gap, otherSplit, tail⟩ | ⟨gap, split, -⟩
    · cases gap with
      | nil => simp [otherSplit] at less
      | cons middle gap =>
          obtain ⟨-, rfl⟩ := List.cons.inj tail
          simp
    · simp [split] at less
  have inFront : a ∈ front := by
    obtain ⟨left, right, split, inLeft, inRight⟩ := List.sublist_append_iff.mp before
    cases left with
    | nil =>
        rw [List.nil_append] at split
        subst split
        have later := (List.cons_sublist_cons'.mp inRight).resolve_right fun both =>
          differs both.1
        exact absurd (later.subset (by simp)) absent
    | cons head left =>
        obtain ⟨rfl, -⟩ := List.cons.inj split
        exact inLeft.subset List.mem_cons_self
  exact (List.singleton_sublist.mpr inFront).append
    (List.Sublist.cons_cons b (List.singleton_sublist.mpr inAfter))

-----------------------------------------------------------------------------------------
-- Rankings
-----------------------------------------------------------------------------------------

section Rankings

variable {shipped : ShippedPolicy} {feature : ι → Feature} {objects order best : List ι}
  {store : MetricsStore}

/-- The metrics policy sorts by score and by place in the baseline order. -/
theorem metrics_rank_eq_some_iff {prior weight : Rat}
    : (ShippedPolicy.metrics prior weight).rank feature objects store = some best
      ↔ ∃ order,
          rankObjects feature objects = some order
          ∧ sortedBy
              (fun object =>
                ((places order).get? object).map fun place =>
                  (toLex (-(ShippedPolicy.metrics prior weight).score feature store object, place)
                    : Rat ×ₗ Nat))
              objects
            = some best :=
  Option.bind_eq_some_iff

/-- A policy ranks exactly when every version converts. -/
theorem rank_isSome_iff
    : (shipped.rank feature objects store).isSome
      ↔ ∀ object ∈ objects, DigitsConvert (feature object).manifest.version.toList := by
  cases shipped with
  | baseline => exact rankObjects_isSome_iff
  | metrics prior weight =>
      rw [← rankObjects_isSome_iff]
      constructor
      · intro ranked
        obtain ⟨best, known⟩ := Option.isSome_iff_exists.mp ranked
        obtain ⟨order, sorted, -⟩ := metrics_rank_eq_some_iff.mp known
        rw [sorted]
        rfl
      · intro sorted
        obtain ⟨order, sorted⟩ := Option.isSome_iff_exists.mp sorted
        have placed : ∀ object ∈ objects, ((places order).get? object).isSome :=
          fun object member => isSome_get?_places ((sortedBy_perm sorted).mem_iff.mpr member)
        simp only [ShippedPolicy.rank, sorted, Option.bind_eq_bind, Option.bind_some,
          sortedBy_isSome_iff, Option.isSome_map]
        exact placed

/-- A ranking permutes the objects. -/
theorem rank_perm (known : shipped.rank feature objects store = some best)
    : best.Perm objects := by
  cases shipped with
  | baseline => exact sortedBy_perm known
  | metrics prior weight =>
      obtain ⟨order, -, sorted⟩ := metrics_rank_eq_some_iff.mp known
      exact sortedBy_perm sorted

/-- Under the metrics policy the score falls along the ranking, and the place in the baseline
order grows where it stays the same.
-/
theorem metrics_rank_pairwise {prior weight : Rat}
    (baseline : rankObjects feature objects = some order)
    (known : (ShippedPolicy.metrics prior weight).rank feature objects store = some best)
    : best.Pairwise fun a b =>
        ∃ i j,
          (places order).get? a = some i
          ∧ (places order).get? b = some j
          ∧ ((ShippedPolicy.metrics prior weight).score feature store b
                < (ShippedPolicy.metrics prior weight).score feature store a
              ∨ (ShippedPolicy.metrics prior weight).score feature store a
                  = (ShippedPolicy.metrics prior weight).score feature store b
                ∧ i ≤ j) := by
  obtain ⟨other, sorted, known⟩ := metrics_rank_eq_some_iff.mp known
  cases baseline.symm.trans sorted
  have unordered : objects.Pairwise fun _ _ => True := List.pairwise_of_forall fun _ _ => trivial
  refine (sortedBy_pairwise known unordered).imp fun {a b} ahead => ?_
  obtain ⟨k, l, first, second, below⟩ := ahead
  obtain ⟨i, atFirst, rfl⟩ := Option.map_eq_some_iff.mp first
  obtain ⟨j, atSecond, rfl⟩ := Option.map_eq_some_iff.mp second
  refine ⟨i, j, atFirst, atSecond, ?_⟩
  rcases below with less | ⟨same, -⟩
  · rcases Prod.Lex.toLex_lt_toLex.mp less with better | ⟨same, earlier⟩
    · exact .inl (neg_lt_neg_iff.mp better)
    · exact .inr ⟨neg_injective same, le_of_lt earlier⟩
  · obtain ⟨scores, numbers⟩ := Prod.mk.inj (toLex.injective same)
    exact .inr ⟨neg_injective scores, le_of_eq numbers⟩

/-- No ranking has a better score behind a worse one. -/
theorem rank_pairwise (known : shipped.rank feature objects store = some best)
    : best.Pairwise fun a b =>
        shipped.score feature store b ≤ shipped.score feature store a := by
  cases shipped with
  | baseline =>
      refine (rankObjects_pairwise known).imp fun {a b} ahead => ?_
      obtain ⟨k, l, first, second, below⟩ := ahead
      exact trustPrior_le_of_rankKey_le first second below
  | metrics prior weight =>
      obtain ⟨order, baseline, -⟩ := metrics_rank_eq_some_iff.mp known
      refine (metrics_rank_pairwise baseline known).imp fun {a b} ahead => ?_
      obtain ⟨i, j, -, -, less | ⟨same, -⟩⟩ := ahead
      · exact le_of_lt less
      · exact le_of_eq same.symm

end Rankings

end Objects

end AgentFeatures
