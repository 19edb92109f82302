import AgentFeatures.Catalog.Capabilities
import AgentFeatures.Catalog.VersionTexts
import AgentFeatures.Library.StableSort

/-! The capability summary as a partition of the catalog, group by group. -/

namespace AgentFeatures

open Library

/-- The capabilities are strictly increasing and those that occur; the provider counts add up to
the features; and each summary lists the vendors of its capability's features and prefers the one
that the capability resolves to without pins.
-/
structure Partitions (features : List Feature) (summaries : List CapabilitySummary) : Prop where
  increasing : summaries.Pairwise fun a b => a.capability < b.capability
  occurring
    : ∀ capability,
        (∃ summary ∈ summaries, summary.capability = capability)
          ↔ ∃ f ∈ features, f.manifest.capability = capability
  counts : (summaries.map CapabilitySummary.providerCount).sum = features.length
  vendors
    : ∀ summary ∈ summaries,
        summary.vendors.Perm
          ((features.filter fun f => f.manifest.capability = summary.capability).map
            fun f => f.manifest.vendor)
  preferred
    : ∀ summary ∈ summaries,
        ∃ f,
          resolveFeature features summary.capability none none = some (some f)
          ∧ summary.preferred = some (featureId f)

section Groups

variable {features : List Feature} {summaries : List CapabilitySummary}

/-- The groups in the order of their capabilities. -/
def sortedGroups (features : List Feature) : List (String × List Feature) :=
  (groupByCapability features).entries.insertionSort fun a b => a.1 ≤ b.1

/-- The capabilities of the sorted groups strictly increase: no capability has two groups. -/
theorem pairwise_sortedGroups (features : List Feature)
    : (sortedGroups features).Pairwise fun a b => a.1 < b.1 :=
  insertionSort_strict (groupByCapability features).nodup

theorem mem_sortedGroups_iff {capability : String} {group : List Feature}
    : (capability, group) ∈ sortedGroups features
      ↔ group = providersOf capability features ∧ group ≠ [] :=
  (List.mem_insertionSort _).trans mem_groupByCapability_iff

/-- There is a group for exactly the capabilities that occur. -/
theorem mem_capabilities_iff {capability : String}
    : capability ∈ (sortedGroups features).map Prod.fst
      ↔ ∃ f ∈ features, f.manifest.capability = capability := by
  rw [List.mem_map]
  constructor
  · intro present
    obtain ⟨⟨capability, group⟩, member, rfl⟩ := present
    obtain ⟨rfl, filled⟩ := mem_sortedGroups_iff.mp member
    obtain ⟨f, inGroup⟩ := List.exists_mem_of_ne_nil _ filled
    exact ⟨f, mem_providersOf_iff.mp inGroup⟩
  · intro present
    obtain ⟨f, member, rfl⟩ := present
    have inGroup := mem_providersOf_iff.mpr ⟨member, rfl⟩
    exact ⟨⟨f.manifest.capability, providersOf f.manifest.capability features⟩,
      mem_sortedGroups_iff.mpr ⟨rfl, List.ne_nil_of_mem inGroup⟩, rfl⟩

/-- The sizes of the groups add up to the list. Witness: each feature counts once, under its own
capability.
-/
theorem sum_length_sortedGroups (features : List Feature)
    : ((sortedGroups features).map fun entry => entry.2.length).sum = features.length := by
  let capabilities := features.map fun f => f.manifest.capability
  have sizes : ((sortedGroups features).map fun entry => entry.2.length)
      = ((sortedGroups features).map Prod.fst).map capabilities.count := by
    rw [List.map_map]
    refine List.map_congr_left fun entry member => ?_
    rw [(mem_sortedGroups_iff.mp member).1, providersOf, ← List.countP_eq_length_filter,
      Function.comp_apply, List.count, List.countP_map]
    rfl
  have keys : ((sortedGroups features).map Prod.fst).Perm capabilities.dedup := by
    have distinct : ((sortedGroups features).map Prod.fst).Nodup :=
      List.pairwise_map.mpr ((pairwise_sortedGroups features).imp ne_of_lt)
    refine (List.perm_ext_iff_of_nodup distinct (List.nodup_dedup _)).mpr fun capability => ?_
    rw [mem_capabilities_iff, List.mem_dedup, List.mem_map]
  rw [sizes, (keys.map capabilities.count).sum_eq, List.sum_map_count_dedup_eq_length]
  exact List.length_map ..

/-- Each summary is that of the group at its place, and has its capability and its size. -/
theorem summaries_of_groups (summarized : summarizeCapabilities features = some summaries)
    : List.Forall₂
        (fun entry summary =>
          entry.1 = summary.capability ∧ entry.2.length = summary.providerCount)
        (sortedGroups features) summaries := by
  refine (mapM_eq_some_iff.mp summarized).imp fun {entry summary} known => ?_
  obtain ⟨first, others, ranked, rfl⟩ := summarize_eq_some_iff.mp known
  exact ⟨rfl, (sortedBy_perm ranked).length_eq.symm⟩

/-- Without pins a capability resolves to the first of its ranked providers. -/
theorem resolveFeature_unpinned (features : List Feature) (capability : String)
    : resolveFeature features capability none none
      = (rankFeatures (providersOf capability features)).map List.head? := by
  rw [Option.map_eq_bind]
  rfl

/-- The summaries that are returned partition the catalog. -/
theorem partitions_of_summarized (summarized : summarizeCapabilities features = some summaries)
    : Partitions features summaries := by
  have aligned := summaries_of_groups summarized
  have capabilities : (sortedGroups features).map Prod.fst
      = summaries.map CapabilitySummary.capability := by
    rw [← List.forall₂_eq_eq_eq, List.forall₂_map_left_iff, List.forall₂_map_right_iff]
    exact aligned.imp fun _ _ both => both.1
  have counts : (sortedGroups features).map (fun entry => entry.2.length)
      = summaries.map CapabilitySummary.providerCount := by
    rw [← List.forall₂_eq_eq_eq, List.forall₂_map_left_iff, List.forall₂_map_right_iff]
    exact aligned.imp fun _ _ both => both.2
  have group {summary : CapabilitySummary} (member : summary ∈ summaries)
      : ∃ first others,
          rankFeatures (providersOf summary.capability features) = some (first :: others)
          ∧ summary.vendors = (first :: others).map (fun f => f.manifest.vendor)
          ∧ summary.preferred = some (featureId first) := by
    obtain ⟨capability, -, known⟩ := (mem_summarizeCapabilities_iff summarized).mp member
    obtain ⟨first, others, ranked, rfl⟩ := summarize_eq_some_iff.mp known
    exact ⟨first, others, ranked, rfl, rfl⟩
  refine ⟨?_, fun capability => ?_, ?_, fun summary member => ?_, fun summary member => ?_⟩
  · rw [← List.pairwise_map, ← capabilities, List.pairwise_map]
    exact pairwise_sortedGroups features
  · rw [← List.mem_map, ← capabilities, mem_capabilities_iff]
  · rw [← counts, sum_length_sortedGroups]
  · obtain ⟨first, others, ranked, vendors, -⟩ := group member
    rw [vendors]
    exact (sortedBy_perm ranked).map _
  · obtain ⟨first, others, ranked, -, preferred⟩ := group member
    exact ⟨first, by rw [resolveFeature_unpinned, ranked]; rfl, preferred⟩

end Groups

/-- The summary is returned and partitions the catalog exactly when every version text converts. -/
theorem summarized_partitions_iff (features : List Feature)
    : (∃ summaries,
        summarizeCapabilities features = some summaries ∧ Partitions features summaries)
      ↔ ∀ f ∈ features, DigitsConvert f.manifest.version.toList := by
  simp only [← rankKey_isSome_iff]
  rw [← summarizeCapabilities_isSome_iff, Option.isSome_iff_exists]
  exact exists_congr fun summaries => and_iff_left_of_imp partitions_of_summarized

/-- No summary is returned for a provider with the superscript two for a version. -/
theorem superscript_not_summarized
    : ¬ ∀ features,
        ∃ summaries,
          summarizeCapabilities features = some summaries ∧ Partitions features summaries := by
  intro all
  obtain ⟨summaries, summarized, -⟩ := all [providerAt "²"]
  have raised : summarizeCapabilities [providerAt "²"] = none := rfl
  cases raised.symm.trans summarized

end AgentFeatures
