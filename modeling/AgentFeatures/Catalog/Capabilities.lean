import AgentFeatures.Catalog.Listing
import AgentFeatures.Catalog.Resolution

/-! The static summary of a catalog's capabilities. -/

namespace AgentFeatures

open Library

/-- A canonical capability and the vendors that provide it, ranked. -/
structure CapabilitySummary where
  capability : String
  description : String := ""
  providerCount : Nat
  vendors : List String := []
  preferred : Option String := none

/-- `by_cap.setdefault(f.manifest.capability, []).append(f)`. -/
def addToGroup (byCap : Dict String (List Feature)) (f : Feature) : Dict String (List Feature) :=
  byCap.set f.manifest.capability ((byCap.get? f.manifest.capability).getD [] ++ [f])

/-- The features by capability, each group in list order. -/
def groupByCapability (features : List Feature) : Dict String (List Feature) :=
  features.foldl addToGroup ∅

/-- The summary of one group; `none` when a version text raises or the group is empty. -/
def summarize (capability : String) (group : List Feature) : Option CapabilitySummary := do
  let ranked ← rankFeatures group
  let first ← ranked.head?
  return {
    capability
    description := first.manifest.description
    providerCount := ranked.length
    vendors := ranked.map fun f => f.manifest.vendor
    preferred := some (featureId first) }

/-- The capabilities in order, each with its ranked vendors. -/
def summarizeCapabilities (features : List Feature) : Option (List CapabilitySummary) :=
  ((groupByCapability features).entries.insertionSort fun a b => a.1 ≤ b.1).mapM
    fun entry => summarize entry.1 entry.2

/-- What `list_capabilities` of a catalog returns. -/
def PublishedCatalog.listCapabilities (catalog : PublishedCatalog)
    : Option (List CapabilitySummary) :=
  summarizeCapabilities catalog.published

/-- The providers of a capability in list order. -/
def providersOf (capability : String) (features : List Feature) : List Feature :=
  features.filter fun f => f.manifest.capability = capability

theorem mem_providersOf_iff {capability : String} {features : List Feature} {f : Feature}
    : f ∈ providersOf capability features ↔ f ∈ features ∧ f.manifest.capability = capability := by
  simp [providersOf]

/-- A group is the list of the providers of its capability, by induction from the list's end. -/
theorem get?_groupByCapability (features : List Feature) (capability : String)
    : (groupByCapability features).get? capability
      = if providersOf capability features = [] then none
        else some (providersOf capability features) := by
  induction features using List.reverseRecOn with
  | nil => rfl
  | append_singleton rest f ih =>
      rw [groupByCapability, List.foldl_append, List.foldl_cons, List.foldl_nil,
        ← groupByCapability, addToGroup, Dict.get?_set]
      by_cases same : capability = f.manifest.capability
      · subst same
        have grown : providersOf f.manifest.capability (rest ++ [f])
            = providersOf f.manifest.capability rest ++ [f] := by simp [providersOf]
        have before : ((groupByCapability rest).get? f.manifest.capability).getD []
            = providersOf f.manifest.capability rest := by
          rw [ih]
          split
          · next empty => rw [empty, Option.getD_none]
          · rfl
        rw [if_pos rfl, before, grown, if_neg (by simp)]
      · have others : f.manifest.capability ≠ capability := fun h => same h.symm
        rw [if_neg same, ih]
        simp [providersOf, others]

/-- The groups are those of the capabilities that occur. -/
theorem mem_groupByCapability_iff {features : List Feature} {capability : String}
    {group : List Feature}
    : (capability, group) ∈ (groupByCapability features).entries
      ↔ group = providersOf capability features ∧ group ≠ [] := by
  rw [← Dict.get?_eq_some_iff, get?_groupByCapability]
  split
  · next empty => simp [empty]
  · next filled =>
      rw [Option.some.injEq]
      constructor
      · intro same
        exact ⟨same.symm, same ▸ filled⟩
      · exact fun both => both.1.symm

/-- A group is summarized by its ranking's head. -/
theorem summarize_eq_some_iff {capability : String} {group : List Feature}
    {summary : CapabilitySummary}
    : summarize capability group = some summary
      ↔ ∃ first others,
          rankFeatures group = some (first :: others)
          ∧ summary
            = { capability, description := first.manifest.description,
                providerCount := (first :: others).length,
                vendors := (first :: others).map fun f => f.manifest.vendor,
                preferred := some (featureId first) } := by
  rw [summarize]
  cases rankFeatures group with
  | none => simp
  | some ranked =>
      cases ranked with
      | nil => simp
      | cons first others => simp [eq_comm]

/-- The summaries of a catalog are those of its groups. -/
theorem mem_summarizeCapabilities_iff {features : List Feature}
    {summaries : List CapabilitySummary}
    (summarized : summarizeCapabilities features = some summaries) {summary : CapabilitySummary}
    : summary ∈ summaries
      ↔ ∃ capability,
          providersOf capability features ≠ []
          ∧ summarize capability (providersOf capability features) = some summary := by
  constructor
  · intro member
    obtain ⟨⟨capability, group⟩, inGroups, known⟩ := exists_of_mapM summarized member
    obtain ⟨rfl, filled⟩ :=
      mem_groupByCapability_iff.mp ((List.mem_insertionSort _).mp inGroups)
    exact ⟨capability, filled, known⟩
  · intro present
    obtain ⟨capability, filled, known⟩ := present
    have inGroups := mem_groupByCapability_iff.mpr ⟨rfl, filled⟩
    exact mem_of_mapM summarized ((List.mem_insertionSort _).mpr inGroups) known

/-- Summarizing succeeds exactly when every version text parses. -/
theorem summarizeCapabilities_isSome_iff {features : List Feature}
    : (summarizeCapabilities features).isSome ↔ ∀ f ∈ features, (rankKey f).isSome := by
  have group (capability : String) {group : List Feature} (filled : group ≠ [])
      : (summarize capability group).isSome ↔ ∀ f ∈ group, (rankKey f).isSome := by
    rw [← sortedBy_isSome_iff, summarize, ← rankFeatures]
    cases sorted : rankFeatures group with
    | none => simp
    | some ranked =>
        cases ranked with
        | nil => exact absurd (sortedBy_perm sorted).symm.eq_nil filled
        | cons first others => simp
  rw [summarizeCapabilities, mapM_isSome_iff]
  constructor
  · intro all f member
    have inGroup : f ∈ providersOf f.manifest.capability features := by simp [providersOf, member]
    have filled := List.ne_nil_of_mem inGroup
    have entry := mem_groupByCapability_iff.mpr ⟨rfl, filled⟩
    exact (group _ filled).mp (all _ ((List.mem_insertionSort _).mpr entry)) f inGroup
  · intro all entry member
    obtain ⟨same, filled⟩ := mem_groupByCapability_iff.mp ((List.mem_insertionSort _).mp member)
    refine (group _ filled).mpr fun f inGroup => all f ?_
    rw [same] at inGroup
    exact List.mem_of_mem_filter inGroup

end AgentFeatures
