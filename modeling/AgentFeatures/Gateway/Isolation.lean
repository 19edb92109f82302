import AgentFeatures.Gateway.Recording
import AgentFeatures.Library.Text

/-! Whether the outcomes of one feature count for another one. -/

namespace AgentFeatures

open Library

/-- The store after outcomes of one feature. -/
def recordAll (store : MetricsStore) (featureId : String) (outcomes : List (Bool × Rat))
    : MetricsStore :=
  outcomes.foldl (fun store outcome => store.record featureId outcome.1 outcome.2) store

/-- No run of outcomes of `f` changes what is stored for `g` or its score, and neither does a run of
any gateway whose answered calls all went to `f`.
-/
structure Isolated (f g : Feature) : Prop where
  reported
    : ∀ store outcomes,
        (recordAll store (featureId f) outcomes).get? (featureId g) = store.get? (featureId g)
  scored
    : ∀ store outcomes defaultPrior latencyWeight,
        metricsScore defaultPrior latencyWeight g (recordAll store (featureId f) outcomes)
        = metricsScore defaultPrior latencyWeight g store
  served
    : ∀ (gateway : Gateway) state pool,
        gateway.catalog.get f.manifest.name = some f
        → gateway.system.Reaches (.initial state) pool
        → (∀ answered ∈ pool.history, answered.2.1.feature = f.manifest.name)
        → pool.state.store.get? (featureId g) = state.store.get? (featureId g)

-----------------------------------------------------------------------------------------
-- Distinct ids
-----------------------------------------------------------------------------------------

/-- Outcomes recorded under other ids leave an entry alone, by induction on the outcomes. -/
theorem get?_recordOutcomes {outcomes : List Outcome} {fid : String}
    (elsewhere : ∀ outcome ∈ outcomes, outcome.featureId ≠ fid) (store : MetricsStore)
    : (outcomes.foldl (fun store outcome => recordOutcome outcome store) store).get? fid
      = store.get? fid := by
  induction outcomes generalizing store with
  | nil => rfl
  | cons outcome rest ih =>
      obtain ⟨here, later⟩ := List.forall_mem_cons.mp elsewhere
      rw [List.foldl_cons, ih later, recordOutcome, MetricsStore.record,
        Dict.get?_set_ne _ _ here.symm]

/-- A feature's outcomes are outcomes recorded under its id. -/
theorem recordAll_eq (store : MetricsStore) (fid : String) (outcomes : List (Bool × Rat))
    : recordAll store fid outcomes
      = (outcomes.map fun outcome => (⟨fid, outcome.1, outcome.2⟩ : Outcome)).foldl
          (fun store outcome => recordOutcome outcome store) store := by
  rw [List.foldl_map]
  rfl

/-- The score of a feature reads its own entry only. -/
theorem metricsScore_congr {store other : MetricsStore} {g : Feature}
    (same : store.get? (featureId g) = other.get? (featureId g)) (defaultPrior latencyWeight : Rat)
    : metricsScore defaultPrior latencyWeight g store
      = metricsScore defaultPrior latencyWeight g other := by
  simp only [metricsScore, same]

/-- What is recorded for an answered call goes under the id of the feature called. -/
theorem Gateway.featureId_of_settled {gateway : Gateway} {f : Feature}
    (listed : gateway.catalog.get f.manifest.name = some f) {request : Request}
    {call : Dispatch} {reply : Reply} (goes : call.feature = f.manifest.name) {outcome : Outcome}
    (settled : outcome ∈ gateway.settle request call reply)
    : outcome.featureId = featureId f := by
  simp only [settle] at settled
  split at settled
  · cases settled
  · simp only [owed] at settled
    split at settled
    · cases settled
    · simp only [dispatchedId, goes, listed, Option.map_some, Option.toList_some, List.map_cons,
        List.map_nil, List.mem_singleton] at settled
      rw [settled]

/-- Features are isolated iff their ids differ. Witness: one outcome is seen under its id, and under
no other.
-/
theorem isolated_iff {f g : Feature} : Isolated f g ↔ featureId f ≠ featureId g := by
  constructor
  · intro isolated same
    have seen := isolated.reported ∅ [(true, 0)]
    rw [← same] at seen
    simp [recordAll, MetricsStore.record] at seen
  · intro differ
    have reported (store : MetricsStore) (outcomes : List (Bool × Rat))
        : (recordAll store (featureId f) outcomes).get? (featureId g)
          = store.get? (featureId g) := by
      rw [recordAll_eq]
      refine get?_recordOutcomes (fun outcome member => ?_) store
      obtain ⟨pair, -, rfl⟩ := List.mem_map.mp member
      exact differ
    refine ⟨reported, fun store outcomes prior weight =>
      metricsScore_congr (reported store outcomes) prior weight, ?_⟩
    intro gateway state pool listed run only
    have replayed :=
      (System.Reaches.replay gateway.store_observes gateway.serve_settles run).2
    rw [replayed]
    refine get?_recordOutcomes (fun outcome member => ?_) _
    obtain ⟨answered, inHistory, settled⟩ := List.mem_flatMap.mp member
    rw [Gateway.featureId_of_settled listed (only answered inHistory) settled]
    exact differ

-----------------------------------------------------------------------------------------
-- Ids that read alike
-----------------------------------------------------------------------------------------

/-- Parts of `f` hold separators that make its id read as that of `g`. -/
inductive Overlaps (f g : Feature) : Prop
  /-- Both have one vendor, and the name of `g` goes on into the version of `f`. -/
  | name (y : String) (vendor : g.manifest.vendor = f.manifest.vendor)
    (name : g.manifest.name = f.manifest.name ++ "@" ++ y)
    (version : f.manifest.version = y ++ "@" ++ g.manifest.version)
  /-- The vendor of `g` goes on into the version of `f`. -/
  | vendor (u : String)
    (vendor : g.manifest.vendor = f.manifest.vendor ++ "/" ++ f.manifest.name ++ "@" ++ u)
    (version
      : f.manifest.version = u ++ "/" ++ g.manifest.name ++ "@" ++ g.manifest.version)
  /-- The vendor of `g` goes on into the name of `f`, and what is left of that reads as the name
  and version of `g`.
  -/
  | rest (w x : String) (vendor : g.manifest.vendor = f.manifest.vendor ++ "/" ++ w)
    (name : f.manifest.name = w ++ "/" ++ x)
    (alike
      : x = g.manifest.name ∧ f.manifest.version = g.manifest.version
        ∨ (∃ y, g.manifest.name = x ++ "@" ++ y
            ∧ f.manifest.version = y ++ "@" ++ g.manifest.version)
        ∨ ∃ y, x = g.manifest.name ++ "@" ++ y
            ∧ g.manifest.version = y ++ "@" ++ f.manifest.version)

/-- Overlapping features have one id. -/
theorem Overlaps.featureId_eq {f g : Feature} (overlaps : Overlaps f g)
    : featureId f = featureId g := by
  unfold featureId
  cases overlaps with
  | name y vendor name version => simp only [vendor, name, version, String.append_assoc]
  | vendor u vendor version => simp only [vendor, version, String.append_assoc]
  | rest w x vendor name alike =>
      rcases alike with ⟨rfl, version⟩ | ⟨y, other, version⟩ | ⟨y, rfl, version⟩
      · simp only [vendor, name, version, String.append_assoc]
      · simp only [vendor, name, other, version, String.append_assoc]
      · simp only [vendor, name, version, String.append_assoc]

theorem toList_at : "@".toList = ['@'] := rfl

theorem toList_slash : "/".toList = ['/'] := rfl

/-- When the vendor of `g` goes on after that of `f` and the ids agree, the features overlap.
Witness: the first `@` of the rest stands in what the vendor goes on with, or behind it.
-/
theorem overlaps_of_vendor {f g : Feature} {w : String}
    (vendor : g.manifest.vendor = f.manifest.vendor ++ "/" ++ w)
    (rest
      : f.manifest.name ++ "@" ++ f.manifest.version
        = w ++ "/" ++ (g.manifest.name ++ "@" ++ g.manifest.version))
    : Overlaps f g := by
  rcases (Text.joined_eq_joined_iff toList_at toList_slash).mp rest with
    ⟨-, differ, -⟩ | ⟨u, goesOn, version⟩ | ⟨x, name, alike⟩
  · exact absurd differ (by decide)
  · refine .vendor u ?_ ?_
    · simp only [vendor, goesOn, String.append_assoc]
    · simp only [version, String.append_assoc]
  · refine .rest w x vendor name ?_
    rcases (Text.joined_eq_joined_iff toList_at toList_at).mp alike with
      ⟨same, -, version⟩ | ⟨y, longer, version⟩ | ⟨y, shorter, version⟩
    · exact Or.inl ⟨same.symm, version.symm⟩
    · exact Or.inr (Or.inr ⟨y, longer, version⟩)
    · exact Or.inr (Or.inl ⟨y, shorter, version⟩)

/-- Features with different names and one id overlap, one way or the other. Witness: their ids
split at a `/` alike, or one vendor goes on after the other.
-/
theorem overlaps_of_featureId_eq {f g : Feature}
    (differ : f.manifest.name ≠ g.manifest.name) (same : featureId f = featureId g)
    : Overlaps f g ∨ Overlaps g f := by
  have split : f.manifest.vendor ++ "/" ++ (f.manifest.name ++ "@" ++ f.manifest.version)
      = g.manifest.vendor ++ "/" ++ (g.manifest.name ++ "@" ++ g.manifest.version) := by
    simpa only [featureId, String.append_assoc] using same
  rcases (Text.joined_eq_joined_iff toList_slash toList_slash).mp split with
    ⟨vendor, -, rest⟩ | ⟨w, vendor, rest⟩ | ⟨w, vendor, rest⟩
  · rcases (Text.joined_eq_joined_iff toList_at toList_at).mp rest with
      ⟨name, -, -⟩ | ⟨y, name, version⟩ | ⟨y, name, version⟩
    · exact absurd name differ
    · exact Or.inl (.name y vendor.symm name version)
    · exact Or.inr (.name y vendor name version)
  · exact Or.inl (overlaps_of_vendor vendor rest)
  · exact Or.inr (overlaps_of_vendor vendor rest)

/-- Vendors without a `/` and names without an `@` leave no room for an overlap. -/
theorem not_overlaps {f g : Feature} (vendor : '/' ∉ g.manifest.vendor.toList)
    (name : '@' ∉ g.manifest.name.toList)
    : ¬ Overlaps f g := by
  intro overlaps
  cases overlaps with
  | name y _ other _ => exact name (by simp [other])
  | vendor u other _ => exact vendor (by simp [other])
  | rest w x other _ _ => exact vendor (by simp [other])

/-- Two features with different names are isolated from each other, and their ids differ, iff
neither overlaps the other. Witness: ids that agree split at separators inside their parts.
-/
theorem isolated_iff_not_overlaps {f g : Feature}
    (differ : f.manifest.name ≠ g.manifest.name)
    : (Isolated f g ↔ ¬ Overlaps f g ∧ ¬ Overlaps g f)
      ∧ (featureId f ≠ featureId g ↔ ¬ Overlaps f g ∧ ¬ Overlaps g f) := by
  have ids : featureId f ≠ featureId g ↔ ¬ Overlaps f g ∧ ¬ Overlaps g f := by
    constructor
    · exact fun apart => ⟨fun overlaps => apart overlaps.featureId_eq,
        fun overlaps => apart overlaps.featureId_eq.symm⟩
    · intro free same
      rcases overlaps_of_featureId_eq differ same with overlaps | overlaps
      · exact free.1 overlaps
      · exact free.2 overlaps
  exact ⟨isolated_iff.trans ids, ids⟩

/-- A feature with the parts of an id. -/
def offered (vendor name version : String) : Feature where
  manifest := { name, vendor, version, capability := name, defaultCapability := fun h => h }

theorem isolated_iff_not_overlaps_offered
    : let f := offered "acme" "ocr" "1.0.0"
      let g := offered "globex" "scan" "1.0.0"
      (Isolated f g ↔ ¬ Overlaps f g ∧ ¬ Overlaps g f)
        ∧ (featureId f ≠ featureId g ↔ ¬ Overlaps f g ∧ ¬ Overlaps g f) :=
  isolated_iff_not_overlaps (by decide)

/-- A vendor `acme/ocr` collides with a vendor `acme` whose name starts with `ocr/`. -/
theorem offered_not_isolated
    : ¬ ∀ f g : Feature, f.manifest.name ≠ g.manifest.name → Isolated f g := by
  intro all
  have isolated := all (offered "acme" "ocr/scan" "1.0.0") (offered "acme/ocr" "scan" "1.0.0")
    (by decide)
  exact isolated_iff.mp isolated (by decide)

end AgentFeatures
