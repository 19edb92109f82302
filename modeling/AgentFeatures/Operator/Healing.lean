import AgentFeatures.Operator.Routing

/-! After any run, reconciles that succeed bring the cluster to what the Features ask for, and calls
get through.
-/

namespace AgentFeatures

open Library

namespace Operator

/-- The container of a Feature. -/
def containerOf (f : Feature) : Container where
  name := "feature"
  image := f.spec.image
  ports := [⟨protocolText (protocolOrDefault f), f.spec.port⟩]
  resources := withAccelerator f.spec.runtime

/-- The stored objects are what the Feature asks for, and its status says how far they are. -/
structure Converged (cluster : Cluster) (f : Feature) : Prop where
  service
    : ∃ svc ∈ cluster.service,
        svc.selector = labelsFor f
        ∧ svc.ports = [⟨protocolText (protocolOrDefault f), f.spec.port, f.spec.port⟩]
  deployment
    : ∃ dep ∈ cluster.deployment,
        dep.replicas = some (replicas f)
        ∧ dep.templateLabels = labelsFor f
        ∧ dep.containers = [containerOf f]
        ∧ f.status.phase = some (if dep.availableReplicas > 0 then .ready else .provisioning)
  endpoint : f.status.endpoint = serviceEndpoint f.name f.namespace f.spec.port
  generation : f.status.observedGeneration = f.generation

variable {setControllerReference : SetControllerReference}

/-- A reconcile that succeeds leaves what its Feature asks for, and the Feature's spec. -/
theorem converged_of_succeeds {cluster : Cluster} {f : Feature} (stored : cluster.feature = some f)
    {faults : Faults} {now : Time}
    (succeeds : (reconcile setControllerReference cluster faults now).2 = none)
    : let after := (reconcile setControllerReference cluster faults now).1
      ∃ f', after.feature = some f' ∧ f'.spec = f.spec ∧ Converged after f' := by
  obtain ⟨svc, dep, service, deployment, settled⟩ := reconcile_of_succeeds stored succeeds
  obtain ⟨-, name, ns, selector⟩ := selector_of_reconcileService service
  simp only [reconcileService] at service
  simp only [reconcileDeployment] at deployment
  obtain ⟨owners, -, madeService⟩ := owned_of_createOrUpdate service
  obtain ⟨owners', -, madeDeployment⟩ := owned_of_createOrUpdate deployment
  intro after
  simp only [after, settled]
  refine ⟨_, rfl, rfl, ⟨svc, rfl, selector, ?_⟩, ⟨dep, rfl, ?_, ?_, ?_, rfl⟩, ?_, rfl⟩
  · rw [madeService]
    rfl
  · rw [madeDeployment]
    rfl
  · rw [madeDeployment]
    rfl
  · rw [madeDeployment]
    rfl
  · simp only [observedStatus, name, ns]

/-- A Feature whose status has an address publishes it. -/
theorem endpoint_of_status {f : Feature} {name «namespace» : String} {port : Int}
    (written : f.status.endpoint = serviceEndpoint name «namespace» port)
    : f.endpoint = some (serviceEndpoint name «namespace» port) := by
  have nonempty : serviceEndpoint name «namespace» port ≠ "" := by
    intro empty
    have texts := congrArg String.toList empty
    rw [toList_serviceEndpoint] at texts
    simp at texts
  simp [Feature.endpoint, Gateway.crStatus, given, written, nonempty]

/-- The Service of a converged Feature routes to the pods of its template. -/
theorem Converged.routes {cluster : Cluster} {f : Feature} (converged : Converged cluster f)
    : ∃ svc ∈ cluster.service,
        ∃ dep ∈ cluster.deployment,
          ∀ key, svc.RoutesTo f.spec.port ⟨key, dep.templateLabels, dep.containers⟩
            ∧ dep.containers = [containerOf f] := by
  obtain ⟨svc, storedService, selector, ports⟩ := converged.service
  obtain ⟨dep, storedDeployment, -, labels, containers, -⟩ := converged.deployment
  refine ⟨svc, storedService, dep, storedDeployment, fun key => ⟨⟨?_, ?_, ?_⟩, containers⟩⟩
  · rw [selector, labelsFor, Dict.entries_ofList (by simp)]
    simp
  · intro label member
    rw [selector] at member
    rw [labels]
    exact Dict.get?_eq_some_iff.mpr member
  · rw [ports, containers]
    exact ⟨_, List.mem_singleton_self _, rfl, _, List.mem_singleton_self _, _,
      List.mem_singleton_self _, rfl⟩

namespace Fleet

variable {featuresNamespace : String}

/-- The name whose objects an event changes. -/
def Event.key? : Event → Option NamespacedName
  | .change key _ => some key
  | _ => none

variable (setControllerReference) in
/-- If the event changes the objects of the name, it is a reconcile that succeeds. -/
def Heals (key : NamespacedName) (fleet : Fleet) : Event → Prop
  | .change other (.reconcile faults now) =>
      other = key
      → (reconcile setControllerReference (fleet.clusters key) faults now).2 = none
  | .change other _ => other ≠ key
  | _ => True

/-- The Feature of the name, if there is one, has converged, and pods are made of its template. -/
def Settled (fleet : Fleet) (key : NamespacedName) : Prop :=
  ∀ f ∈ (fleet.clusters key).feature,
    Converged (fleet.clusters key) f
    ∧ ∀ template ∈ template? key (fleet.clusters key), template ∈ fleet.templates

/-- An event of another name leaves the objects of the name. -/
theorem clusters_step_of_ne {fleet : Fleet} {event : Event} {key : NamespacedName}
    (other : event.key? ≠ some key)
    : (Fleet.step setControllerReference featuresNamespace fleet event).clusters key
      = fleet.clusters key := by
  cases event with
  | change changed made =>
      have differs : key ≠ changed := fun same => other (congrArg some same.symm)
      simp only [Fleet.step, Function.update_of_ne differs]
  | rollout template => rfl
  | evict pod => rfl
  | resolve feature =>
      simp only [Fleet.step]
      split <;> rfl
  | connect endpoint dialed port pod =>
      simp only [Fleet.step]
      split
      · split <;> rfl
      · rfl
  | deliver feature endpoint connection =>
      simp only [Fleet.step]
      split
      · split <;> rfl
      · rfl

/-- Templates stay known. -/
theorem templates_step (fleet : Fleet) (event : Event)
    : fleet.templates
      ⊆ (Fleet.step setControllerReference featuresNamespace fleet event).templates := by
  cases event with
  | change changed made => exact List.subset_append_left _ _
  | rollout template => exact List.Subset.refl _
  | evict pod => exact List.Subset.refl _
  | resolve feature =>
      simp only [Fleet.step]
      split <;> exact List.Subset.refl _
  | connect endpoint dialed port pod =>
      simp only [Fleet.step]
      split
      · split <;> exact List.Subset.refl _
      · exact List.Subset.refl _
  | deliver feature endpoint connection =>
      simp only [Fleet.step]
      split
      · split <;> exact List.Subset.refl _
      · exact List.Subset.refl _

/-- A reconcile that succeeds settles its name. -/
theorem settled_reconcile {fleet : Fleet} {key : NamespacedName} {faults : Faults} {now : Time}
    (succeeds : (reconcile setControllerReference (fleet.clusters key) faults now).2 = none)
    : Settled
        (Fleet.step setControllerReference featuresNamespace fleet
          (.change key (.reconcile faults now)))
        key := by
  intro f' member
  simp only [Fleet.step, Function.update_self, Operator.change] at member ⊢
  refine ⟨?_, fun template shown =>
    List.mem_append_right _ (Option.mem_toList.mpr shown)⟩
  cases stored : (fleet.clusters key).feature with
  | none =>
      simp only [reconcile, stored] at member
      cases member
  | some f =>
      obtain ⟨f'', after, -, converged⟩ := converged_of_succeeds stored succeeds
      cases Option.some.inj (member.symm.trans after)
      exact converged

/-- A settled name stays so while other names change. -/
theorem Settled.step {fleet : Fleet} {event : Event} {key : NamespacedName}
    (settled : fleet.Settled key) (other : event.key? ≠ some key)
    : Settled (Fleet.step setControllerReference featuresNamespace fleet event) key := by
  intro f member
  rw [clusters_step_of_ne other] at member ⊢
  obtain ⟨converged, known⟩ := settled f member
  exact ⟨converged, fun template shown => templates_step fleet event (known template shown)⟩

/-- A name whose objects only change by reconciles that succeed is settled after one of them.
Witness: induction on the events.
-/
theorem settled_run {key : NamespacedName} {fleet : Fleet} {events : List Event}
    (heals
      : Transitions.Throughout (Fleet.step setControllerReference featuresNamespace)
          (Heals setControllerReference key) fleet events)
    (starts : fleet.Settled key ∨ ∃ event ∈ events, event.key? = some key)
    : Settled
        (Transitions.run (Fleet.step setControllerReference featuresNamespace) fleet events)
        key := by
  induction events generalizing fleet with
  | nil => exact starts.resolve_right (by simp)
  | cons event rest ih =>
      obtain ⟨here, later⟩ := heals
      refine ih later ?_
      by_cases own : event.key? = some key
      · left
        cases event with
        | change changed made =>
            cases own
            cases made with
            | reconcile faults now => exact settled_reconcile (here rfl)
            | apply spec => exact absurd rfl here
            | delete => exact absurd rfl here
            | objects service deployment => exact absurd rfl here
        | _ => cases own
      · rcases starts with settled | ⟨first, member, changes⟩
        · exact .inl (settled.step own)
        · rcases List.mem_cons.mp member with rfl | inRest
          · exact absurd changes own
          · exact .inr ⟨first, inRest, changes⟩

variable {inUse : NamespacedName → Prop}

variable (setControllerReference) in
/-- A call of a settled Feature gets through to a pod that runs what its spec asks for. -/
theorem Settled.reaches {fleet : Fleet} (safe : fleet.Safe inUse featuresNamespace) {name : String}
    (settled : fleet.Settled ⟨featuresNamespace, name⟩) {f : Feature}
    (stored : f ∈ (fleet.clusters ⟨featuresNamespace, name⟩).feature)
    : ∃ (events : List Event) (pod : Pod),
        (∀ event ∈ events, event.key? = none)
        ∧ (Transitions.run (Fleet.step setControllerReference featuresNamespace) fleet
            events).reached
          = fleet.reached ++ [(name, pod)]
        ∧ pod.containers = [containerOf f] := by
  let key : NamespacedName := ⟨featuresNamespace, name⟩
  obtain ⟨converged, known⟩ := settled f stored
  obtain ⟨svc, storedService, dep, storedDeployment, routes⟩ := converged.routes
  obtain ⟨routesTo, containers⟩ := routes key
  let pod : Pod := ⟨key, dep.templateLabels, dep.containers⟩
  have listed : pod ∈ fleet.templates := by
    refine known pod ?_
    rw [template?, Option.mem_def.mp storedDeployment]
    rfl
  obtain ⟨i, at'⟩ := List.getElem?_of_mem listed
  obtain ⟨named, dials⟩ := (safe.clusters key).feature f stored
  let endpoint := serviceEndpoint f.name f.namespace f.spec.port
  have published : f.endpoint = some endpoint := endpoint_of_status converged.endpoint
  have own : Dials endpoint key f.spec.port := by
    obtain ⟨port, label, ns, -⟩ := dials endpoint published
    refine ⟨label, ns, ?_⟩
    rw [← named.name, ← named.namespace]
  refine ⟨[.rollout i, .resolve name, .connect endpoint key f.spec.port fleet.pods.length,
    .deliver name endpoint fleet.connections.length], pod, by simp [Event.key?], ?_, containers⟩
  have feature : (fleet.clusters ⟨featuresNamespace, name⟩).feature = some f := stored
  have service : (fleet.clusters key).service = some svc := storedService
  simp [Transitions.run, Fleet.step, at', feature, published, service, own, routesTo, pod, key]

/-- Two Features, the first one with a reconcile that failed, then with one that succeeds while the
second one is applied and fails.
-/
def failedEcho : List Event × List Event :=
  let echo : NamespacedName := ⟨"features", "echo"⟩
  let other : NamespacedName := ⟨"features", "other"⟩
  ([.change echo (.apply { image := "echo:1" }),
      .change echo (.reconcile { deployment := some "quota" } 0)],
    [.change other (.apply { image := "other:1" }), .change echo (.reconcile {} 1),
      .change other (.reconcile { service := some "quota" } 2)])

end Fleet

end Operator

end AgentFeatures
