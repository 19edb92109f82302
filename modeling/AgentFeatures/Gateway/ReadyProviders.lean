import AgentFeatures.Catalog.BestSelection
import AgentFeatures.Catalog.Kubernetes
import AgentFeatures.Gateway.Preferred
import AgentFeatures.Operator.Reconcile

/-! Whether calls of a capability go to workloads that are Ready. -/

namespace AgentFeatures

open Library

namespace Gateway

variable (gateway : Gateway) (capability : String) (vendor version : Option String)
  (input : Dict String Json)

/-- The listed providers that satisfy the pins. -/
def satisfying : List Feature :=
  gateway.catalog.list.filter fun f => Satisfies capability version vendor f

/-- The call goes to a feature that the catalog reports as Ready. -/
def GoesToReady (call : Dispatch) : Prop :=
  (gateway.catalog.get call.feature).map Feature.phase = some .ready

/-- When some provider that satisfies the pins is Ready, what a call of the capability and a
composite step dispatch goes to a Ready one.
-/
def PrefersReady (state : AppState) : Prop :=
  (∃ f ∈ gateway.satisfying capability vendor version, f.phase = .ready)
  → ∀ {σ : Type} (answer : Dispatch → σ → Reply × σ) (world : σ),
      (∀ context,
        ∀ call ∈ ((gateway.invokeCapability capability { input, context } vendor version).run
            Write.apply answer state world).calls,
          gateway.GoesToReady call.1)
      ∧ ∀ call ∈ ((gateway.runCapability capability input vendor version).run
          Write.apply answer state world).calls,
          gateway.GoesToReady call.1

/-- Each provider that satisfies the pins and accepts the input without being Ready stands behind
another one that satisfies them.
-/
def UnreadyOutranked (store : MetricsStore) : Prop :=
  ∀ f ∈ gateway.satisfying capability vendor version,
    f.phase ≠ .ready
    → gateway.inputErrors f (.ofDict input) = []
    → ∃ g ∈ gateway.satisfying capability vendor version, Ahead gateway.policy store g f

variable {gateway} {capability} {vendor version} {input}

/-- Calls prefer Ready providers iff what they are routed to is Ready whenever some provider
is. Witness: neither face dispatches anything else.
-/
theorem prefersReady_iff_routed {state : AppState}
    : gateway.PrefersReady capability vendor version input state
      ↔ ((∃ f ∈ gateway.satisfying capability vendor version, f.phase = .ready)
          → ∀ feature others,
              gateway.ranking capability vendor version state.store = some (feature :: others)
              → gateway.inputErrors feature (.ofDict input) = []
              → (gateway.catalog.get feature.manifest.name).map Feature.phase = some .ready) := by
  refine imp_congr_right fun _ => ?_
  constructor
  · intro prefers feature others ranked accepted
    have goes := (@prefers Unit (fun _ _ => (.unavailable "", ())) ()).2
    have routed : gateway.routed capability input {} vendor version state.store
        = some ⟨feature.manifest.name, .ofDict input, {}⟩ :=
      gateway.routed_eq_some_iff.mpr ⟨feature, others, ranked, accepted, rfl⟩
    rw [runCapability_calls, routed] at goes
    exact goes _ (List.mem_singleton_self _)
  · intro ready σ answer world
    have calls {context : RequestContext} {call : Dispatch × Reply}
        (member : call ∈ (gateway.routed capability input context vendor version
          state.store).toList.map fun call => (call, (answer call world).1))
        : gateway.GoesToReady call.1 := by
      obtain ⟨target, routed, rfl⟩ := List.mem_map.mp member
      obtain ⟨feature, others, ranked, accepted, rfl⟩ :=
        gateway.routed_eq_some_iff.mp (Option.mem_toList.mp routed)
      exact ready feature others ranked accepted
    refine ⟨fun context call member => ?_, fun call member => ?_⟩
    · rw [invokeCapability_calls] at member
      exact calls member
    · rw [runCapability_calls] at member
      exact calls member

section Catalog

variable {catalog : PublishedCatalog} {store : MetricsStore}

/-- The ranking is the sort of the satisfying providers, unless a version test raises. -/
theorem ranking_eq_some_iff (byScore : gateway.policy.ByScore) {ranked : List Feature}
    : gateway.ranking capability vendor version store = some ranked
      ↔ PinsParse gateway.catalog.list capability version vendor
        ∧ sortedBy (scoreKey gateway.policy.score store)
            (gateway.satisfying capability vendor version)
          = some ranked := by
  rw [ranking, providers, Option.bind_eq_some_iff]
  constructor
  · intro chosen
    obtain ⟨selected, known, sorted⟩ := chosen
    obtain ⟨parse, rfl⟩ := selectProviders_eq_some_iff.mp known
    exact ⟨parse, by rw [← sorted, byScore, satisfying]⟩
  · intro chosen
    exact ⟨_, selectProviders_eq_some_iff.mpr ⟨chosen.1, rfl⟩, by rw [byScore]; exact chosen.2⟩

/-- When the version texts parse, a provider heads the ranking iff no other that satisfies the
pins stands ahead of it. Witness: the head is unbeaten.
-/
theorem heads_iff (serves : gateway.catalog = catalog.toCatalog)
    (byScore : gateway.policy.ByScore)
    (parse : VersionsParse gateway.catalog.list capability version vendor) {f : Feature}
    (member : f ∈ gateway.satisfying capability vendor version)
    : (∃ others, gateway.ranking capability vendor version store = some (f :: others))
      ↔ ¬ ∃ g ∈ gateway.satisfying capability vendor version,
          Ahead gateway.policy store g f := by
  have part : (gateway.satisfying capability vendor version).Sublist catalog.list := by
    rw [satisfying, serves]
    exact List.filter_sublist
  constructor
  · intro heads behind
    obtain ⟨others, ranked⟩ := heads
    obtain ⟨g, member', ahead⟩ := behind
    have unbeaten := unbeaten_of_sorted part ((ranking_eq_some_iff byScore).mp ranked).2
    rcases unbeaten.2 g member' with rfl | first
    · exact ahead.asymm (fun _ _ => lt_asymm) ahead
    · exact ahead.asymm (fun _ _ => lt_asymm) first
  · intro foremost
    have keys : ∀ g ∈ gateway.satisfying capability vendor version,
        (scoreKey gateway.policy.score store g).isSome := by
      intro g member'
      obtain ⟨listed, satisfied⟩ := List.mem_filter.mp member'
      rw [scoreKey, rankKey, Option.isSome_map, Option.isSome_map]
      exact parse.2 g listed (of_decide_eq_true satisfied)
    obtain ⟨ranked, known⟩ := Option.isSome_iff_exists.mp (sortedBy_isSome_iff.mpr keys)
    cases ranked with
    | nil =>
        have none := (sortedBy_perm known).nil_eq
        rw [← none] at member
        cases member
    | cons first others =>
        rcases (unbeaten_of_sorted part known).2 f member with rfl | ahead
        · exact ⟨others, (ranking_eq_some_iff byScore).mpr ⟨parse.1, known⟩⟩
        · have member' := (sortedBy_perm known).subset List.mem_cons_self
          exact absurd ⟨first, member', ahead⟩ foremost

/-- Calls prefer Ready providers iff no provider is Ready, a version text raises, or each provider
that is not Ready and accepts the input stands behind another one. Witness: the provider that
nothing stands ahead of heads the ranking.
-/
theorem prefersReady_iff (serves : gateway.catalog = catalog.toCatalog)
    (byScore : gateway.policy.ByScore) (state : AppState)
    : gateway.PrefersReady capability vendor version input state
      ↔ ((∃ f ∈ gateway.satisfying capability vendor version, f.phase = .ready)
          → VersionsParse gateway.catalog.list capability version vendor
          → gateway.UnreadyOutranked capability vendor version input state.store) := by
  have found {f : Feature} (member : f ∈ gateway.satisfying capability vendor version)
      : gateway.catalog.get f.manifest.name = some f :=
    gateway.catalog.get_of_mem f (List.mem_of_mem_filter member)
  rw [prefersReady_iff_routed]
  refine imp_congr_right fun _ => ?_
  constructor
  · intro prefers parse f member unready accepted
    by_contra foremost
    obtain ⟨others, ranked⟩ := (heads_iff serves byScore parse member).mpr foremost
    have ready := prefers f others ranked accepted
    simp only [found member, Option.map_some, Option.some.injEq] at ready
    exact unready ready
  · intro outranked f others ranked accepted
    obtain ⟨pins, sorted⟩ := (ranking_eq_some_iff byScore).mp ranked
    have member := (sortedBy_perm sorted).subset List.mem_cons_self
    have parse : VersionsParse gateway.catalog.list capability version vendor := by
      refine ⟨pins, fun g listed satisfied => ?_⟩
      have keys := sortedBy_isSome_iff.mp (Option.isSome_iff_exists.mpr ⟨_, sorted⟩) g
        (List.mem_filter.mpr ⟨listed, decide_eq_true satisfied⟩)
      rwa [scoreKey, rankKey, Option.isSome_map, Option.isSome_map] at keys
    simp only [found member, Option.map_some, Option.some.injEq]
    by_contra unready
    exact (heads_iff serves byScore parse member).mp ⟨others, ranked⟩
      (outranked parse f member unready accepted)

end Catalog

-----------------------------------------------------------------------------------------
-- Resources that the operator reports on
-----------------------------------------------------------------------------------------

/-- The status of a resource as the operator writes it; an empty endpoint is left out. -/
def crStatus (status : Operator.FeatureStatus) : CrStatus where
  phase := status.phase.map Operator.phaseText
  endpoint := given (some status.endpoint)

/-- The gateway reads back the phase that the operator wrote. -/
theorem phaseOf_crStatus (status : Operator.FeatureStatus)
    : phaseOf ((crStatus status).phase.getD "Pending") = status.phase.getD .pending := by
  simp only [crStatus]
  cases status.phase with
  | none => rfl
  | some phase => cases phase <;> rfl

/-- A resource of capability `x` as the operator reports on it with so many available replicas. -/
def workload (name trust : String) (availableReplicas : Int) : FeatureCr :=
  let feature : Operator.Feature :=
    { name, «namespace» := "default", generation := 1, spec := { image := name } }
  { name
    spec := some { capability := some "x", trust := some trust }
    status := some (crStatus (Operator.observedStatus feature { name, «namespace» := "default" }
      { name, «namespace» := "default", availableReplicas } 0)) }

/-- An official provider that is still starting, and a community provider that is Ready. -/
def workloads : List FeatureCr := [workload "a" "Official" 0, workload "b" "Community" 1]

theorem workload_named (name : String) : "x" = "" → name = "" := by simp

/-- What a workload's resource maps to. -/
def provider (name : String) (trust : TrustTier) (phase : Phase) : Feature where
  manifest := { name, capability := "x", trust, defaultCapability := workload_named name }
  phase
  endpoint := some (Operator.serviceEndpoint name "default" 9090)

theorem workloads_mapped
    : workloads.mapM (KubernetesCatalog.featureFromCr fun _ => none)
      = some [provider "a" .official .provisioning, provider "b" .community .ready] := by
  rfl

/-- A gateway in their cluster, with the default setting. -/
def workloadGateway : Gateway :=
  createApp (KubernetesCatalog.publishedCatalog _ workloads_mapped (by decide)) smallValidator
    echoGateway.runtime none

end Gateway

end AgentFeatures
