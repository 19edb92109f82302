import AgentFeatures.Catalog.BestSelection
import AgentFeatures.Catalog.Kubernetes
import AgentFeatures.Gateway.Ranking

/-! When resolution depends on the order in which features were published. -/

namespace AgentFeatures

open Library

-----------------------------------------------------------------------------------------
-- Resolution looks at manifests only
-----------------------------------------------------------------------------------------

section Manifests

variable {g : Feature → Feature} (keeps : ∀ f, (g f).manifest = f.manifest)
include keeps

/-- The sort key looks at the manifest only. -/
theorem rankKey_of_manifest (f : Feature) : rankKey (g f) = rankKey f := by
  rw [rankKey, rankKey, keeps]

/-- The selection of rewritten features is the rewritten selection. -/
theorem selectProviders_map (features : List Feature) (capability : String)
    (vendor version : Option String)
    : selectProviders (features.map g) capability vendor version
      = (selectProviders features capability vendor version).map (List.map g) := by
  simp only [selectProviders]
  cases given vendor <;> cases given version <;>
    simp [List.filter_map, filterBy_map, Function.comp_def, keeps]

/-- Resolving among rewritten features gives the rewritten feature. -/
theorem resolveFeature_map (features : List Feature) (capability : String)
    (version vendor : Option String)
    : resolveFeature (features.map g) capability version vendor
      = (resolveFeature features capability version vendor).map (Option.map g) := by
  rw [resolveFeature, resolveFeature, selectProviders_map keeps]
  cases selectProviders features capability vendor version with
  | none => rfl
  | some candidates =>
      simp only [Option.map_some, Option.bind_eq_bind, Option.bind_some, rankFeatures,
        sortedBy_map, rankKey_of_manifest keeps]
      cases sortedBy rankKey candidates with
      | none => rfl
      | some ranked => cases ranked <;> rfl

end Manifests

-----------------------------------------------------------------------------------------
-- Ties for the first place
-----------------------------------------------------------------------------------------

/-- What `resolve` of a catalog picks. -/
def PublishedCatalog.resolve (catalog : PublishedCatalog) (capability : String)
    (version vendor : Option String)
    : Option (Option Feature) :=
  resolveFeature catalog.published capability version vendor

/-- The head of the baseline ranking over the providers of a catalog. -/
def PublishedCatalog.baselineHead (catalog : PublishedCatalog) (capability : String)
    (version vendor : Option String) (store : MetricsStore)
    : Option (Option Feature) :=
  (selectProviders catalog.list capability vendor version).bind fun providers =>
    (baselinePolicy.rank providers store).map List.head?

/-- The head of the baseline ranking is the resolution over the listing. -/
theorem PublishedCatalog.baselineHead_eq (catalog : PublishedCatalog) (capability : String)
    (version vendor : Option String) (store : MetricsStore)
    : catalog.baselineHead capability version vendor store
      = resolveFeature catalog.list capability version vendor := by
  rw [baselineHead, resolveFeature]
  cases selectProviders catalog.list capability vendor version with
  | none => rfl
  | some providers =>
      change (rankFeatures providers).map List.head?
        = (rankFeatures providers).bind fun ranked => some ranked.head?
      rw [Option.map_eq_bind]
      rfl

/-- The catalog has published exactly the manifests of those features, in some order. -/
def PublishedCatalog.Publishes (catalog : PublishedCatalog) (features : List Feature) : Prop :=
  (catalog.published.map Feature.manifest).Perm (features.map Feature.manifest)

/-- The dev catalog publishes its manifests. -/
theorem InMemoryCatalog.publishes {features : List Feature}
    (distinct : ((features.map Feature.manifest).map Manifest.name).Nodup)
    : (InMemoryCatalog.publishedCatalog (features.map Feature.manifest)).Publishes features := by
  rw [PublishedCatalog.Publishes, InMemoryCatalog.manifests_published distinct]

/-- The catalog of a cluster publishes what its resources map to. -/
theorem KubernetesCatalog.publishes {loads : String → Option Json} {items : List FeatureCr}
    {features : List Feature}
    (mapped : items.mapM (KubernetesCatalog.featureFromCr loads) = some features)
    (distinct : (items.map FeatureCr.name).Nodup)
    : (KubernetesCatalog.publishedCatalog loads mapped distinct).Publishes features :=
  (List.perm_insertionSort _ features).map Feature.manifest

/-- A request resolves alike in every order of the features, and every catalog that publishes
their manifests resolves it and ranks it first alike.
-/
structure OrderFree (features : List Feature) (capability : String)
    (version vendor : Option String)
    : Prop where
  permuted
    : ∀ other : List Feature,
        other.Perm features
        → resolveFeature other capability version vendor
          = resolveFeature features capability version vendor
  resolved
    : ∀ catalog : PublishedCatalog,
        catalog.Publishes features
        → (catalog.resolve capability version vendor).map (Option.map Feature.manifest)
          = (resolveFeature features capability version vendor).map
              (Option.map Feature.manifest)
  ranked
    : ∀ (catalog : PublishedCatalog) (store : MetricsStore),
        catalog.Publishes features
        → (catalog.baselineHead capability version vendor store).map
            (Option.map Feature.manifest)
          = (resolveFeature features capability version vendor).map
              (Option.map Feature.manifest)

/-- Two different satisfying features have the same sort key only behind a third one. -/
def TiesOutranked (features : List Feature) (capability : String)
    (version vendor : Option String)
    : Prop :=
  ∀ f ∈ features, ∀ g ∈ features,
    f ≠ g
    → Satisfies capability version vendor f
    → Satisfies capability version vendor g
    → rankKey f = rankKey g
    → ∃ h ∈ features,
        Satisfies capability version vendor h
        ∧ ∃ k bound, rankKey h = some k ∧ rankKey f = some bound ∧ k < bound

section Order

variable {features other : List Feature} {capability : String} {version vendor : Option String}

/-- Whether some version text raises does not depend on the order. -/
theorem versionsParse_perm (perm : other.Perm features)
    : VersionsParse other capability version vendor
      ↔ VersionsParse features capability version vendor := by
  simp only [VersionsParse, PinsParse, perm.mem_iff]

/-- The feature satisfies the request, and no satisfying feature has a smaller key. -/
def Least (features : List Feature) (capability : String) (version vendor : Option String)
    (f : Feature)
    : Prop :=
  f ∈ features
  ∧ Satisfies capability version vendor f
  ∧ ∃ bound,
      rankKey f = some bound
      ∧ ∀ g ∈ features,
          Satisfies capability version vendor g → ∃ k, rankKey g = some k ∧ bound ≤ k

/-- The feature that sorts first is a least one. -/
theorem SortsFirst.least {f : Feature} (first : SortsFirst features capability version vendor f)
    : Least features capability version vendor f := by
  obtain ⟨before, after, rfl, satisfied, bound, known, strict, weak⟩ := first
  refine ⟨by simp, satisfied, bound, known, ?_⟩
  intro g member other
  rcases List.mem_append.mp member with early | late
  · obtain ⟨k, key, above⟩ := strict g (by simpa using ⟨early, other⟩)
    exact ⟨k, key, le_of_lt above⟩
  · rcases List.mem_cons.mp late with rfl | late
    · exact ⟨bound, known, le_refl _⟩
    · exact weak g (by simpa using ⟨late, other⟩)

/-- Being least does not depend on the order. -/
theorem Least.perm {f : Feature} (least : Least other capability version vendor f)
    (perm : other.Perm features)
    : Least features capability version vendor f := by
  obtain ⟨member, satisfied, bound, known, below⟩ := least
  exact ⟨perm.subset member, satisfied, bound, known,
    fun g inFeatures => below g (perm.symm.subset inFeatures)⟩

/-- Without ties for the first place there is one least feature: two would tie, and the one
ahead of them would be smaller.
-/
theorem Least.unique {f g : Feature}
    (outranked : TiesOutranked features capability version vendor)
    (least : Least features capability version vendor f)
    (least' : Least features capability version vendor g)
    : f = g := by
  obtain ⟨member, satisfied, bound, known, below⟩ := least
  obtain ⟨member', satisfied', bound', known', below'⟩ := least'
  obtain ⟨k, key, le⟩ := below g member' satisfied'
  obtain ⟨k', key', ge⟩ := below' f member satisfied
  cases known'.symm.trans key
  cases known.symm.trans key'
  by_contra differs
  obtain ⟨h, inFeatures, satisfied'', k, top, key, bounded, ahead⟩ :=
    outranked f member g member' differs satisfied satisfied'
      (by rw [known, known', le_antisymm le ge])
  obtain ⟨k', key', above⟩ := below h inFeatures satisfied''
  cases key.symm.trans key'
  cases known.symm.trans bounded
  exact absurd ahead (not_lt_of_ge above)

/-- A least feature is resolved when it is published first. -/
theorem Least.resolved {f : Feature} (least : Least features capability version vendor f)
    (parse : VersionsParse features capability version vendor)
    : ∃ other : List Feature,
        other.Perm features
        ∧ resolveFeature other capability version vendor = some (some f) := by
  obtain ⟨member, satisfied, bound, known, below⟩ := least
  obtain ⟨before, after, rfl⟩ := List.append_of_mem member
  have perm : (f :: (before ++ after)).Perm (before ++ f :: after) := List.perm_middle.symm
  refine ⟨f :: (before ++ after), perm, ?_⟩
  rw [resolveFeature_eq_some_iff ((versionsParse_perm perm).mpr parse)]
  refine ⟨[], before ++ after, rfl, satisfied, bound, known, by simp, ?_⟩
  intro g kept
  obtain ⟨inRest, other⟩ := List.mem_filter.mp kept
  exact below g (perm.subset (List.mem_cons_of_mem f inRest)) (by simpa using other)

/-- Without ties for the first place every order resolves alike. Witness: the feature that
sorts first is least in either order.
-/
theorem resolveFeature_perm (perm : other.Perm features)
    (outranked
      : VersionsParse features capability version vendor
        → TiesOutranked features capability version vendor)
    : resolveFeature other capability version vendor
      = resolveFeature features capability version vendor := by
  by_cases parse : VersionsParse features capability version vendor
  · have parse' := (versionsParse_perm perm).mpr parse
    obtain ⟨outcome, resolved⟩ :=
      Option.isSome_iff_exists.mp (resolveFeature_isSome_iff.mpr parse)
    cases outcome with
    | none =>
        have none := (resolveFeature_eq_none_iff parse).mp resolved
        rw [resolved, resolveFeature_eq_none_iff parse']
        exact fun f member => none f (perm.subset member)
    | some f =>
        have first := ((resolveFeature_eq_some_iff parse).mp resolved).least
        obtain ⟨outcome', resolved'⟩ :=
          Option.isSome_iff_exists.mp (resolveFeature_isSome_iff.mpr parse')
        cases outcome' with
        | none =>
            have none := (resolveFeature_eq_none_iff parse').mp resolved'
            exact absurd first.2.1 (none f (perm.symm.subset first.1))
        | some g =>
            have first' := ((resolveFeature_eq_some_iff parse').mp resolved').least.perm perm
            rw [resolved, resolved', first.unique (outranked parse) first']
  · have raises := mt resolveFeature_isSome_iff.mp parse
    have raises' := mt resolveFeature_isSome_iff.mp (mt (versionsParse_perm perm).mp parse)
    rw [Option.not_isSome_iff_eq_none] at raises raises'
    rw [raises, raises']

/-- Two least features with different identity are resolved in different orders, so where every
order resolves alike ties are outranked.
-/
theorem tiesOutranked_of_perm (parse : VersionsParse features capability version vendor)
    (permuted
      : ∀ other : List Feature,
          other.Perm features
          → resolveFeature other capability version vendor
            = resolveFeature features capability version vendor)
    : TiesOutranked features capability version vendor := by
  intro f member g member' differs satisfied satisfied' tie
  by_contra alone
  have least {h : Feature} (inFeatures : h ∈ features)
      (satisfied'' : Satisfies capability version vendor h) (same : rankKey h = rankKey f)
      : Least features capability version vendor h := by
    have parses {h : Feature} (inFeatures : h ∈ features)
        (satisfied'' : Satisfies capability version vendor h)
        : ∃ k, rankKey h = some k := by
      obtain ⟨key, known⟩ := Option.isSome_iff_exists.mp (parse.2 h inFeatures satisfied'')
      exact ⟨_, by rw [rankKey, known]; rfl⟩
    obtain ⟨bound, known⟩ := parses member satisfied
    refine ⟨inFeatures, satisfied'', bound, same.trans known, ?_⟩
    intro other inFeatures' satisfied''
    obtain ⟨k, key⟩ := parses inFeatures' satisfied''
    exact ⟨k, key, le_of_not_gt fun below =>
      alone ⟨other, inFeatures', satisfied'', k, bound, key, known, below⟩⟩
  obtain ⟨left, perm, resolved⟩ := (least member satisfied rfl).resolved parse
  obtain ⟨right, perm', resolved'⟩ := (least member' satisfied' tie.symm).resolved parse
  rw [permuted left perm] at resolved
  rw [permuted right perm', resolved] at resolved'
  exact differs (Option.some.inj (Option.some.inj resolved'))

/-- Features with the same manifests in some order resolve to the same manifest. -/
theorem resolveFeature_of_manifests
    (perm : (other.map Feature.manifest).Perm (features.map Feature.manifest))
    (outranked
      : VersionsParse features capability version vendor
        → TiesOutranked features capability version vendor)
    : (resolveFeature other capability version vendor).map (Option.map Feature.manifest)
      = (resolveFeature features capability version vendor).map
          (Option.map Feature.manifest) := by
  let bare (f : Feature) : Feature := { manifest := f.manifest }
  have keeps (f : Feature) : (bare f).manifest = f.manifest := rfl
  have stripped (list : List Feature)
      : (resolveFeature list capability version vendor).map (Option.map Feature.manifest)
        = (resolveFeature (list.map bare) capability version vendor).map
            (Option.map Feature.manifest) := by
    rw [resolveFeature_map keeps, Option.map_map]
    congr 1
    funext outcome
    cases outcome <;> rfl
  have bares : (other.map bare).Perm (features.map bare) := by
    have mapped := perm.map fun manifest => ({ manifest } : Feature)
    rwa [List.map_map, List.map_map] at mapped
  have parses (parse : VersionsParse (features.map bare) capability version vendor)
      : VersionsParse features capability version vendor :=
    ⟨fun f member => parse.1 (bare f) (List.mem_map_of_mem member),
      fun f member => parse.2 (bare f) (List.mem_map_of_mem member)⟩
  rw [stripped other, stripped features, resolveFeature_perm bares ?_]
  intro parse f' member g' member' differs satisfied satisfied' tie
  obtain ⟨f, inFeatures, rfl⟩ := List.mem_map.mp member
  obtain ⟨g, inFeatures', rfl⟩ := List.mem_map.mp member'
  obtain ⟨h, inFeatures'', ahead⟩ := outranked (parses parse) f inFeatures g inFeatures'
    (fun same => differs (congrArg bare same)) satisfied satisfied' tie
  exact ⟨bare h, List.mem_map_of_mem inFeatures'', ahead⟩

end Order

/-- A request resolves alike in every order and from every catalog exactly when a version text
raises or no two features tie for the first place. Witness: only a tie for the least key leaves
the choice to the order.
-/
theorem orderFree_iff_tiesOutranked (features : List Feature) (capability : String)
    (version vendor : Option String)
    : OrderFree features capability version vendor
      ↔ (VersionsParse features capability version vendor
        → TiesOutranked features capability version vendor) := by
  constructor
  · exact fun free parse => tiesOutranked_of_perm parse free.permuted
  · intro outranked
    refine ⟨fun other perm => resolveFeature_perm perm outranked,
      fun catalog publishes => resolveFeature_of_manifests publishes outranked, ?_⟩
    intro catalog store publishes
    have listed : catalog.list.Perm catalog.published := by
      rw [catalog.list_eq]
      exact List.perm_insertionSort _ _
    rw [catalog.baselineHead_eq]
    exact resolveFeature_of_manifests ((listed.map _).trans publishes) outranked

/-- A provider of capability `x` by vendor `v` under the given name. -/
def providerNamed (name : String) : Feature where
  manifest :=
    { name, vendor := "v", capability := "x", defaultCapability := by simp }

/-- Two providers that differ in their names only: the one published first is picked. -/
theorem providerNamed_not_orderFree
    : ¬ ∀ (features : List Feature) (capability : String) (version vendor : Option String),
        (features.map fun f => f.manifest.name).Nodup
        → OrderFree features capability version vendor := by
  intro all
  have free := all [providerNamed "b", providerNamed "a"] "x" none none (by decide)
  have swapped := free.permuted [providerNamed "a", providerNamed "b"] (List.Perm.swap _ _ [])
  have first : resolveFeature [providerNamed "a", providerNamed "b"] "x" none none
      = some (some (providerNamed "a")) := rfl
  have second : resolveFeature [providerNamed "b", providerNamed "a"] "x" none none
      = some (some (providerNamed "b")) := rfl
  rw [first, second] at swapped
  have names : "a" = "b" :=
    congrArg (fun f => f.manifest.name) (Option.some.inj (Option.some.inj swapped))
  exact absurd names (by decide)

end AgentFeatures
