import AgentFeatures.Catalog.Capabilities
import AgentFeatures.Gateway.Routes
import AgentFeatures.Gateway.ScoreOrder
import AgentFeatures.Gateway.Server

/-! Whether the provider that a summary advertises is the one the gateway picks. -/

namespace AgentFeatures

open Library

namespace Gateway

/-- The gateway of a catalog, with the policy that the setting names. -/
def createApp (catalog : PublishedCatalog) (validator : Validator) (runtime : Runtime)
    (ranking : Option String)
    : Gateway where
  catalog := catalog.toCatalog
  policy := if ranking = some "baseline" then baselinePolicy else metricsPolicy
  validator
  runtime

/-- Under either setting providers are ranked by score. -/
theorem createApp_byScore (catalog : PublishedCatalog) (validator : Validator)
    (runtime : Runtime) (ranking : Option String)
    : (createApp catalog validator runtime ranking).policy.ByScore := by
  rw [createApp]
  split
  · exact baselinePolicy_byScore
  · exact metricsPolicy_byScore _ _

/-- The provider that a call of the capability without pins goes to. -/
def picked (gateway : Gateway) (capability : String) (store : MetricsStore) : Option Feature :=
  (gateway.ranking capability none none store).bind List.head?

/-- A call without pins runs as the invocation of the picked provider. -/
theorem invokeCapability_run_picked {gateway : Gateway} {capability : String}
    {state : AppState} {feature : Feature}
    (pick : gateway.picked capability state.store = some feature) (body : InvokeRequest)
    {σ : Type} (answer : Dispatch → σ → Reply × σ) (world : σ)
    : (gateway.invokeCapability capability body none none).run Write.apply answer state world
      = (gateway.invoke feature body).run Write.apply answer state world := by
  obtain ⟨ranked, known, first⟩ := Option.bind_eq_some_iff.mp pick
  obtain ⟨others, rfl⟩ := List.head?_eq_some_iff.mp first
  rw [invokeCapability, rankProviders_bind_run, known]

-----------------------------------------------------------------------------------------
-- The picked provider
-----------------------------------------------------------------------------------------

/-- `f` stands before `g` in the live ranking: by score, baseline key and name. -/
def Ahead (policy : RankingPolicy) (store : MetricsStore) : Feature → Feature → Prop :=
  Stably (scoreKey policy.score store) fun f g => f.manifest.name < g.manifest.name

/-- A provider of the group that stands before all others. -/
def Unbeaten (policy : RankingPolicy) (store : MetricsStore) (group : List Feature)
    (f : Feature)
    : Prop :=
  f ∈ group ∧ ∀ g ∈ group, g = f ∨ Ahead policy store f g

/-- At most one provider of a group is unbeaten. -/
theorem Unbeaten.unique {policy : RankingPolicy} {store : MetricsStore} {group : List Feature}
    {f g : Feature} (first : Unbeaten policy store group f)
    (second : Unbeaten policy store group g)
    : f = g := by
  rcases first.2 g second.1 with same | ahead
  · exact same.symm
  · rcases second.2 f first.1 with same | behind
    · exact same
    · exact absurd behind (ahead.asymm fun _ _ => lt_asymm)

section Catalog

variable {catalog : PublishedCatalog} {gateway : Gateway} {store : MetricsStore}
  {capability : String}

/-- Without pins the gateway ranks the listed providers of the capability by score. -/
theorem ranking_eq (serves : gateway.catalog = catalog.toCatalog)
    (byScore : gateway.policy.ByScore)
    : gateway.ranking capability none none store
      = sortedBy (scoreKey gateway.policy.score store) (providersOf capability catalog.list) := by
  rw [← byScore, ranking, providers, serves]
  rfl

/-- The listing has the providers that were published. -/
theorem mem_listed_iff {f : Feature}
    : f ∈ providersOf capability catalog.list ↔ f ∈ providersOf capability catalog.published := by
  rw [mem_providersOf_iff, mem_providersOf_iff, catalog.mem_list_iff]

/-- Of listed features the one that sorts first is unbeaten. Witness: equal keys keep the order of
the listing, which is by name, and no two listed features share a name.
-/
theorem unbeaten_of_sorted {policy : RankingPolicy} {group : List Feature}
    (part : group.Sublist catalog.list) {f : Feature} {others : List Feature}
    (known : sortedBy (scoreKey policy.score store) group = some (f :: others))
    : Unbeaten policy store group f := by
  obtain ⟨before, after, split, k, key, strict, weak⟩ := sortedBy_head known
  have byName : group.Pairwise fun a b => a.manifest.name ≤ b.manifest.name := by
    have listed := InMemoryCatalog.pairwise_sortedByName catalog.published
    rw [← catalog.list_eq] at listed
    exact listed.sublist part
  have member : f ∈ group := split ▸ by simp
  refine ⟨member, fun g member' => ?_⟩
  rw [split] at byName
  rcases List.mem_append.mp (split ▸ member') with early | late
  · obtain ⟨l, key', above⟩ := strict g early
    exact Or.inr ⟨k, l, key, key', Or.inl above⟩
  · rcases List.mem_cons.mp late with same | late
    · exact Or.inl same
    · obtain ⟨l, key', above⟩ := weak g late
      have names := (List.pairwise_cons.mp (List.pairwise_append.mp byName).2.1).1 g late
      rcases lt_or_eq_of_le above with less | tie
      · exact Or.inr ⟨k, l, key, key', Or.inl less⟩
      · rcases lt_or_eq_of_le names with less | equal
        · exact Or.inr ⟨k, l, key, key', Or.inr ⟨tie, less⟩⟩
        · have found := catalog.get_of_mem f (part.subset member)
          have found' := catalog.get_of_mem g (part.subset member')
          rw [← equal, found] at found'
          exact Or.inl (Option.some.inj found').symm

/-- The picked provider is unbeaten. -/
theorem unbeaten_of_picked (serves : gateway.catalog = catalog.toCatalog)
    (byScore : gateway.policy.ByScore) {f : Feature}
    (pick : gateway.picked capability store = some f)
    : Unbeaten gateway.policy store (providersOf capability catalog.published) f := by
  obtain ⟨ranked, known, first⟩ := Option.bind_eq_some_iff.mp pick
  obtain ⟨others, rfl⟩ := List.head?_eq_some_iff.mp first
  rw [ranking_eq serves byScore] at known
  obtain ⟨listed, ahead⟩ := unbeaten_of_sorted List.filter_sublist known
  exact ⟨mem_listed_iff.mp listed, fun g member => ahead g (mem_listed_iff.mpr member)⟩

/-- When the version texts parse, the gateway picks the unbeaten provider. -/
theorem picked_eq_some_iff (serves : gateway.catalog = catalog.toCatalog)
    (byScore : gateway.policy.ByScore)
    (parse : ∀ f ∈ catalog.published, (rankKey f).isSome) {f : Feature}
    : gateway.picked capability store = some f
      ↔ Unbeaten gateway.policy store (providersOf capability catalog.published) f := by
  refine ⟨unbeaten_of_picked serves byScore, fun unbeaten => ?_⟩
  have keys : ∀ g ∈ providersOf capability catalog.list,
      (scoreKey gateway.policy.score store g).isSome := by
    intro g member
    rw [scoreKey, Option.isSome_map]
    exact parse g (mem_providersOf_iff.mp (mem_listed_iff.mp member)).1
  obtain ⟨ranked, known⟩ := Option.isSome_iff_exists.mp (sortedBy_isSome_iff.mpr keys)
  have inRanked := (sortedBy_perm known).mem_iff.mpr (mem_listed_iff.mpr unbeaten.1)
  rw [← ranking_eq serves byScore] at known
  cases ranked with
  | nil => cases inRanked
  | cons first others =>
      have pick : gateway.picked capability store = some first := by
        rw [picked, known]
        rfl
      rw [pick, (unbeaten_of_picked serves byScore pick).unique unbeaten]

end Catalog

-----------------------------------------------------------------------------------------
-- The advertised provider
-----------------------------------------------------------------------------------------

/-- Every reported summary names the provider that its capability's calls go to. -/
def Advertised (catalog : PublishedCatalog) (gateway : Gateway) (store : MetricsStore) : Prop :=
  ∀ summaries,
    catalog.listCapabilities = some summaries
    → ∀ summary ∈ summaries,
        (gateway.picked summary.capability store).map featureId = summary.preferred

/-- Unless a version text raises, the statically first provider of each capability, in the order
of publication, has the id of an unbeaten one.
-/
def FavouritesUnbeaten (catalog : PublishedCatalog) (policy : RankingPolicy)
    (store : MetricsStore)
    : Prop :=
  (∀ f ∈ catalog.published, (rankKey f).isSome)
  → ∀ capability before favourite after,
      providersOf capability catalog.published = before ++ favourite :: after
      → Leads rankKey before favourite after
      → ∃ f,
          Unbeaten policy store (providersOf capability catalog.published) f
          ∧ featureId f = featureId favourite

/-- In each state the summaries are right iff the favourites are unbeaten. Witness: a summary
names the favourite, and the picked provider is the unbeaten one.
-/
theorem advertised_iff {catalog : PublishedCatalog} {gateway : Gateway}
    (serves : gateway.catalog = catalog.toCatalog) (byScore : gateway.policy.ByScore)
    (store : MetricsStore)
    : Advertised catalog gateway store ↔ FavouritesUnbeaten catalog gateway.policy store := by
  constructor
  · intro advertised parse capability before favourite after split leads
    obtain ⟨summaries, summarized⟩ := Option.isSome_iff_exists.mp
      (summarizeCapabilities_isSome_iff.mpr parse)
    obtain ⟨others, ranked⟩ := sortedBy_of_leads leads
    rw [← split] at ranked
    have filled : providersOf capability catalog.published ≠ [] := by simp [split]
    obtain ⟨summary, known, shape⟩
        : ∃ summary,
            summarize capability (providersOf capability catalog.published) = some summary
            ∧ summary.capability = capability
            ∧ summary.preferred = some (featureId favourite) :=
      ⟨_, summarize_eq_some_iff.mpr ⟨favourite, others, ranked, rfl⟩, rfl, rfl⟩
    have names := advertised summaries summarized summary
      ((mem_summarizeCapabilities_iff summarized).mpr ⟨capability, filled, known⟩)
    rw [shape.1, shape.2] at names
    obtain ⟨f, pick, same⟩ := Option.map_eq_some_iff.mp names
    exact ⟨f, (picked_eq_some_iff serves byScore parse).mp pick, same⟩
  · intro unbeaten summaries summarized summary member
    have parse := summarizeCapabilities_isSome_iff.mp
      (Option.isSome_iff_exists.mpr ⟨summaries, summarized⟩)
    obtain ⟨capability, -, known⟩ := (mem_summarizeCapabilities_iff summarized).mp member
    obtain ⟨favourite, others, ranked, rfl⟩ := summarize_eq_some_iff.mp known
    obtain ⟨before, after, split, leads⟩ := sortedBy_head ranked
    obtain ⟨f, first, same⟩ := unbeaten parse capability before favourite after split leads
    rw [(picked_eq_some_iff serves byScore parse).mpr first, Option.map_some, same]

/-- Two providers of one capability, the first one verified. -/
def rivals : PublishedCatalog :=
  InMemoryCatalog.publishedCatalog
    [{ name := "a", capability := "x", trust := .verified, defaultCapability := by decide },
     { name := "b", capability := "x", defaultCapability := by decide }]

/-- A gateway for the rivals with the default policy. -/
def rivalGateway : Gateway := createApp rivals smallValidator echoGateway.runtime none

/-- The verified provider is called once and is unavailable. -/
def failedCall : List (Action Request Reply) :=
  [.arrive (.invokeFeature "a" {}), .reply 0 (.unavailable "down")]

end Gateway

end AgentFeatures
