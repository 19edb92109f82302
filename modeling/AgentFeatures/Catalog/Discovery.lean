import AgentFeatures.Catalog.Kubernetes
import AgentFeatures.Library.StableSort

/-! Listing with a query and tags, and fetching by name, in the two catalogs.

`lower` stands for `str.lower`: nothing depends on what it does.
-/

namespace AgentFeatures

open Library

-----------------------------------------------------------------------------------------
-- Filters
-----------------------------------------------------------------------------------------

/-- `part in text`. -/
def Contains (part text : String) : Prop := part.toList <:+: text.toList

instance (part text : String) : Decidable (Contains part text) :=
  inferInstanceAs (Decidable (part.toList <:+: text.toList))

namespace Manifest

/-- `wanted.issubset(set(manifest.tags))`. -/
def HasTags (wanted : List String) (manifest : Manifest) : Prop :=
  ∀ tag ∈ wanted, tag ∈ manifest.tags

instance (wanted : List String) : DecidablePred (HasTags wanted) :=
  fun manifest => inferInstanceAs (Decidable (∀ tag ∈ wanted, tag ∈ manifest.tags))

/-- The lowered query occurs in the lowered name, description or a lowered tag. -/
def Mentions (lower : String → String) (query : String) (manifest : Manifest) : Prop :=
  Contains (lower query) (lower manifest.name)
  ∨ Contains (lower query) (lower manifest.description)
  ∨ ∃ tag ∈ manifest.tags, Contains (lower query) (lower tag)

instance (lower : String → String) (query : String) : DecidablePred (Mentions lower query) :=
  fun manifest => inferInstanceAs (Decidable (_ ∨ _ ∨ ∃ tag ∈ manifest.tags, _))

end Manifest

/-- The features that pass the tag filter, if any tag is given, and then the query filter, if a
query is.
-/
def filtered (lower : String → String) (query : Option String) (tags : Option (List String))
    (features : List Feature)
    : List Feature :=
  let results :=
    match tags with
    | some (tag :: more) => features.filter fun f => f.manifest.HasTags (tag :: more)
    | _ => features
  match given query with
  | some query => results.filter fun f => f.manifest.Mentions lower query
  | none => results

/-- `list(query=query, tags=tags)` of the dev catalog. -/
def InMemoryCatalog.listBy (lower : String → String) (manifests : List Manifest)
    (query : Option String) (tags : Option (List String))
    : List Feature :=
  sortedByName (filtered lower query tags ((features manifests).entries.map Prod.snd))

/-- `list(query=query, tags=tags)` of the cluster's catalog; `none` where it raises. -/
def KubernetesCatalog.listBy (loads : String → Option Json) (lower : String → String)
    (items : List FeatureCr) (query : Option String) (tags : Option (List String))
    : Option (List Feature) :=
  (items.mapM (featureFromCr loads)).map fun features =>
    InMemoryCatalog.sortedByName (filtered lower query tags features)

/-- `get(name)` of the cluster's catalog; the outer `none` is where it raises. -/
def KubernetesCatalog.get (loads : String → Option Json) (items : List FeatureCr)
    (name : String)
    : Option (Option Feature) :=
  match items.find? fun cr => cr.name = name with
  | none => some none
  | some cr => (featureFromCr loads cr).map some

/-- Without filters the dev catalog lists what it serves. -/
theorem InMemoryCatalog.listBy_none (lower : String → String) (manifests : List Manifest)
    : InMemoryCatalog.listBy lower manifests none none = (inMemoryCatalog manifests).list := rfl

/-- Without filters the cluster's catalog lists what it serves. -/
theorem KubernetesCatalog.listBy_none (loads : String → Option Json) (lower : String → String)
    (items : List FeatureCr)
    : KubernetesCatalog.listBy loads lower items none none = KubernetesCatalog.list loads items :=
  rfl

/-- The manifest passes both filters. -/
def Manifest.Matches (lower : String → String) (query : Option String)
    (tags : Option (List String)) (manifest : Manifest)
    : Prop :=
  (∀ wanted ∈ tags, manifest.HasTags wanted)
  ∧ ∀ text ∈ given query, manifest.Mentions lower text

instance (lower : String → String) (query : Option String) (tags : Option (List String))
    : DecidablePred (Manifest.Matches lower query tags) :=
  fun manifest => inferInstanceAs (Decidable ((∀ wanted ∈ tags, manifest.HasTags wanted)
    ∧ ∀ text ∈ given query, manifest.Mentions lower text))

/-- Filtering keeps, in order, the features whose manifests pass both filters. -/
theorem filtered_eq (lower : String → String) (query : Option String)
    (tags : Option (List String)) (features : List Feature)
    : filtered lower query tags features
      = features.filter fun f => f.manifest.Matches lower query tags := by
  have tagged : (match tags with
      | some (tag :: more) => features.filter fun f => f.manifest.HasTags (tag :: more)
      | _ => features)
      = features.filter fun f => ∀ wanted ∈ tags, f.manifest.HasTags wanted := by
    cases tags with
    | none => simp
    | some wanted =>
        cases wanted with
        | nil => simp [Manifest.HasTags]
        | cons tag more => simp
  simp only [filtered, tagged]
  cases asked : given query with
  | none => simp [Manifest.Matches, asked]
  | some text =>
      simp only [List.filter_filter]
      exact List.filter_congr fun f _ => by simp [Manifest.Matches, asked, Bool.and_comm]

/-- Filtering features filters their manifests. -/
theorem manifests_filtered (lower : String → String) (query : Option String)
    (tags : Option (List String)) (features : List Feature)
    : (filtered lower query tags features).map Feature.manifest
      = (features.map Feature.manifest).filter fun m => m.Matches lower query tags := by
  rw [filtered_eq, List.filter_map]
  rfl

-----------------------------------------------------------------------------------------
-- Sorting by name
-----------------------------------------------------------------------------------------

namespace InMemoryCatalog

/-- The names of the features, in order. -/
def names (features : List Feature) : List String := features.map fun f => f.manifest.name

/-- Features with distinct names are sorted in strictly increasing order of their names. -/
theorem sortedByName_strict {features : List Feature} (distinct : (names features).Nodup)
    : (sortedByName features).Pairwise fun a b => a.manifest.name < b.manifest.name :=
  insertionSort_strict distinct

/-- Filtering sorted features sorts the filtered ones: only one order of them is strictly
increasing.
-/
theorem sortedByName_filter {features : List Feature} (distinct : (names features).Nodup)
    (keep : Feature → Bool)
    : sortedByName (features.filter keep) = (sortedByName features).filter keep := by
  have kept : (names (features.filter keep)).Nodup :=
    distinct.sublist (List.filter_sublist.map _)
  have perm : (sortedByName (features.filter keep)).Perm ((sortedByName features).filter keep) :=
    (List.perm_insertionSort _ _).trans ((List.perm_insertionSort _ features).filter keep).symm
  exact eq_of_perm_of_strict perm (sortedByName_strict kept)
    ((sortedByName_strict distinct).filter keep)

/-- Sorted features with the same manifests, up to their order, have the same manifests. -/
theorem manifests_sortedByName {left right : List Feature} (distinct : (names right).Nodup)
    (perm : (left.map Feature.manifest).Perm (right.map Feature.manifest))
    : (sortedByName left).map Feature.manifest = (sortedByName right).map Feature.manifest := by
  have namesOf (features : List Feature)
      : names features = (features.map Feature.manifest).map Manifest.name := by
    rw [names, List.map_map]
    rfl
  have distinct' : (names left).Nodup := by
    rw [namesOf] at distinct ⊢
    exact (perm.map Manifest.name).nodup_iff.mpr distinct
  have strict {features : List Feature} (distinct : (names features).Nodup)
      : ((sortedByName features).map Feature.manifest).Pairwise fun a b => a.name < b.name := by
    rw [List.pairwise_map]
    exact sortedByName_strict distinct
  have sorted (features : List Feature)
      : ((sortedByName features).map Feature.manifest).Perm (features.map Feature.manifest) :=
    (List.perm_insertionSort _ features).map _
  exact eq_of_perm_of_strict ((sorted left).trans (perm.trans (sorted right).symm))
    (strict distinct') (strict distinct)

end InMemoryCatalog

-----------------------------------------------------------------------------------------
-- Discovery
-----------------------------------------------------------------------------------------

/-- What a catalog's `list` and `get` promise together. -/
structure Discovers (lower : String → String)
    (listBy : Option String → Option (List String) → List Feature)
    (get : String → Option Feature)
    : Prop where
  /-- A name gets the one listed feature of that name, and nothing when there is none. -/
  get_eq_some_iff
    : ∀ name feature,
        get name = some feature ↔ feature ∈ listBy none none ∧ feature.manifest.name = name
  /-- Filtering the list keeps, in order, what passes both filters. -/
  listBy_eq
    : ∀ query tags,
        listBy query tags
        = (listBy none none).filter fun f => f.manifest.Matches lower query tags
  increasing
    : ∀ query tags,
        (listBy query tags).Pairwise fun a b => a.manifest.name < b.manifest.name

/-- Sorted and filtered features with distinct names are discovered. Witness: sorting commutes with
filtering.
-/
theorem discovers_sortedByName (lower : String → String) {features : List Feature}
    (distinct : (InMemoryCatalog.names features).Nodup) {get : String → Option Feature}
    (found
      : ∀ name feature,
          get name = some feature ↔ feature ∈ features ∧ feature.manifest.name = name)
    : Discovers lower
        (fun query tags => InMemoryCatalog.sortedByName (filtered lower query tags features))
        get := by
  have all : filtered lower none none features = features := rfl
  refine ⟨fun name feature => ?_, fun query tags => ?_, fun query tags => ?_⟩
  · rw [all, InMemoryCatalog.sortedByName, List.mem_insertionSort]
    exact found name feature
  · rw [all, filtered_eq, InMemoryCatalog.sortedByName_filter distinct]
  · rw [filtered_eq, InMemoryCatalog.sortedByName_filter distinct]
    exact (InMemoryCatalog.sortedByName_strict distinct).filter _

/-- The dev catalog discovers any manifests. Witness: it keeps one feature for each name. -/
theorem InMemoryCatalog.discovers (lower : String → String) (manifests : List Manifest)
    : Discovers lower (InMemoryCatalog.listBy lower manifests)
        (inMemoryCatalog manifests).get := by
  have named := @InMemoryCatalog.name_of_mem_features manifests
  refine discovers_sortedByName lower ?_ fun name feature => ?_
  · have keys : InMemoryCatalog.names ((InMemoryCatalog.features manifests).entries.map Prod.snd)
        = (InMemoryCatalog.features manifests).entries.map Prod.fst := by
      rw [InMemoryCatalog.names, List.map_map]
      exact List.map_congr_left named
    rw [keys]
    exact (InMemoryCatalog.features manifests).nodup
  · constructor
    · intro found
      have stored := Dict.get?_eq_some_iff.mp found
      exact ⟨List.mem_map_of_mem stored, named _ stored⟩
    · intro listed
      obtain ⟨entry, stored, rfl⟩ := List.mem_map.mp listed.1
      rw [← listed.2, named entry stored]
      exact Dict.get?_eq_some_iff.mpr stored

namespace KubernetesCatalog

variable {loads : String → Option Json} {items : List FeatureCr} {features : List Feature}

/-- Mapped resources keep their names, by induction along the two lists. -/
theorem names_of_mapped (mapped : items.mapM (featureFromCr loads) = some features)
    : InMemoryCatalog.names features = items.map FeatureCr.name := by
  have pointwise := mapM_eq_some_iff.mp mapped
  clear mapped
  induction pointwise with
  | nil => rfl
  | @cons cr feature rest others known _ ih =>
      rw [List.map_cons, ← ih, ← name_of_featureFromCr loads known]
      rfl

/-- Among resources that all map, fetching by name does not raise. -/
theorem get_of_mapped (mapped : items.mapM (featureFromCr loads) = some features)
    (distinct : (items.map FeatureCr.name).Nodup) (name : String)
    : get loads items name = some ((publishedCatalog loads mapped distinct).get name) := by
  have fetched : (publishedCatalog loads mapped distinct).get name
      = (items.find? fun cr => cr.name = name).bind (featureFromCr loads) := rfl
  rw [get, fetched]
  cases found : items.find? fun cr => cr.name = name with
  | none => rfl
  | some cr =>
      have all := mapM_isSome_iff.mp (Option.isSome_iff_exists.mpr ⟨features, mapped⟩)
      obtain ⟨feature, known⟩ :=
        Option.isSome_iff_exists.mp (all cr (List.mem_of_find?_eq_some found))
      simp only [known, Option.map_some, Option.bind_some]

/-- The catalog over resources that all map discovers what they map to. -/
theorem discovers (lower : String → String)
    (mapped : items.mapM (featureFromCr loads) = some features)
    (distinct : (items.map FeatureCr.name).Nodup)
    : Discovers lower
        (fun query tags => InMemoryCatalog.sortedByName (filtered lower query tags features))
        (publishedCatalog loads mapped distinct).get := by
  have names := names_of_mapped mapped
  refine discovers_sortedByName lower (by rwa [names]) fun name feature => ?_
  constructor
  · intro found
    obtain ⟨cr, fetched, known⟩ := Option.bind_eq_some_iff.mp found
    exact ⟨mem_of_mapM mapped (List.mem_of_find?_eq_some fetched) known,
      (publishedCatalog loads mapped distinct).name_of_get name feature found⟩
  · intro listed
    rw [← listed.2]
    refine (publishedCatalog loads mapped distinct).get_of_mem feature ?_
    exact (List.mem_insertionSort _).mpr listed.1

end KubernetesCatalog

end AgentFeatures
