import AgentFeatures.Models

/-! The catalog the gateway reads: published features by name. -/

namespace AgentFeatures

open Library (Dict)

/-- Read-only view over the set of published features: each is found under its own name. -/
structure Catalog where
  list : List Feature
  get : String → Option Feature
  get_of_mem : ∀ feature ∈ list, get feature.manifest.name = some feature
  name_of_get : ∀ name feature, get name = some feature → feature.manifest.name = name

namespace InMemoryCatalog

/-- The dev catalog's features by name; a later manifest replaces one of its name. -/
def features (manifests : List Manifest) : Dict String Feature :=
  Dict.ofList (manifests.map fun manifest =>
    (manifest.name, { manifest, endpoint := some s!"local://{manifest.name}" }))

/-- Features are stored under their own names. -/
theorem name_of_mem_features {manifests : List Manifest}
    : ∀ entry ∈ (features manifests).entries, entry.2.manifest.name = entry.1 := by
  refine Dict.forall_entries_ofList fun item member => ?_
  obtain ⟨manifest, -, rfl⟩ := List.mem_map.mp member
  rfl

/-- `sorted(results, key=lambda f: f.manifest.name)`. -/
def sortedByName (features : List Feature) : List Feature :=
  features.insertionSort fun a b => a.manifest.name ≤ b.manifest.name

end InMemoryCatalog

/-- Dev catalog seeded from a static set of manifests. -/
def inMemoryCatalog (manifests : List Manifest) : Catalog where
  list := InMemoryCatalog.sortedByName ((InMemoryCatalog.features manifests).entries.map Prod.snd)
  get := (InMemoryCatalog.features manifests).get?
  get_of_mem feature member := by
    rw [InMemoryCatalog.sortedByName, (List.perm_insertionSort _ _).mem_iff] at member
    obtain ⟨⟨name, stored⟩, inEntries, rfl⟩ := List.mem_map.mp member
    rw [InMemoryCatalog.name_of_mem_features _ inEntries]
    exact Dict.get?_eq_some_iff.mpr inEntries
  name_of_get name feature found :=
    InMemoryCatalog.name_of_mem_features (name, feature) (Dict.get?_eq_some_iff.mp found)

/-- A catalog with the order in which it hands its features to resolution and summary. -/
structure PublishedCatalog extends Catalog where
  published : List Feature
  list_eq : list = InMemoryCatalog.sortedByName published

namespace PublishedCatalog

/-- A catalog lists what it has published. -/
theorem mem_list_iff (catalog : PublishedCatalog) {feature : Feature}
    : feature ∈ catalog.list ↔ feature ∈ catalog.published := by
  rw [catalog.list_eq, InMemoryCatalog.sortedByName, List.mem_insertionSort]

end PublishedCatalog

namespace InMemoryCatalog

/-- The dev catalog resolves over its features in insertion order. -/
def publishedCatalog (manifests : List Manifest) : PublishedCatalog where
  toCatalog := inMemoryCatalog manifests
  published := (features manifests).entries.map Prod.snd
  list_eq := rfl

/-- Manifests with distinct names are published as they stand. -/
theorem manifests_published {manifests : List Manifest}
    (distinct : (manifests.map Manifest.name).Nodup)
    : (publishedCatalog manifests).published.map Feature.manifest = manifests := by
  have keys : ((manifests.map fun manifest =>
      (manifest.name, ({ manifest, endpoint := some s!"local://{manifest.name}" } : Feature))).map
        Prod.fst).Nodup := by
    simpa [Function.comp_def] using distinct
  simp only [publishedCatalog, features]
  rw [Dict.entries_ofList keys]
  simp [Function.comp_def]

/-- Sorting by name sorts by name. -/
theorem pairwise_sortedByName (features : List Feature)
    : (sortedByName features).Pairwise fun a b => a.manifest.name ≤ b.manifest.name := by
  let byName (a b : Feature) : Prop := a.manifest.name ≤ b.manifest.name
  have total : Std.Total byName := ⟨fun a b => le_total a.manifest.name b.manifest.name⟩
  have trans : IsTrans Feature byName := ⟨fun _ _ _ => le_trans⟩
  exact List.pairwise_insertionSort byName features

/-- Sorting by name once more changes nothing. -/
theorem sortedByName_sortedByName (features : List Feature)
    : sortedByName (sortedByName features) = sortedByName features :=
  List.Pairwise.insertionSort_eq (pairwise_sortedByName features)

end InMemoryCatalog

end AgentFeatures
