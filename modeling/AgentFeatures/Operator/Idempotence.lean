import AgentFeatures.Operator.Reconcile

/-! A reconcile of what a successful reconcile left behind changes nothing, at any later time. -/

namespace AgentFeatures

namespace Operator

/-- Owner references that are set once stay as they are, whatever the Feature's status says. -/
def KeepsOwnerReferences (setControllerReference : SetControllerReference) : Prop :=
  ∀ f ownerReferences owned,
    setControllerReference f ownerReferences = .ok owned →
      ∀ status, setControllerReference { f with status } owned = .ok owned

/-- A condition that is set again later keeps its transition time, since its status is the
stored one. Witness: induction on the conditions.
-/
theorem setCondition_again (conditions : List Condition) (c : Condition) (later : Time)
    : setCondition (setCondition conditions c) { c with lastTransitionTime := later }
      = setCondition conditions c := by
  induction conditions with
  | nil => simp [setCondition]
  | cons old rest ih =>
      by_cases same : old.type = c.type
      · simp [setCondition, same]
      · simp [setCondition, same, ih]

/-- The status observed of the same objects is the one stored for them. Witness: only the
condition could remember the clock.
-/
theorem observedStatus_again (f : Feature) (svc : Service) (dep : Deployment) (now later : Time)
    : observedStatus { f with status := observedStatus f svc dep now } svc dep later
      = observedStatus f svc dep now := by
  have settled := fun c => setCondition_again f.status.conditions c later
  simp only [observedStatus, FeatureStatus.mk.injEq, true_and]
  exact settled _

variable {setControllerReference : SetControllerReference}

/-- An object that is stored owns what the references set on it say, and is otherwise what the
mutation makes of it. Witness: the call does not fail and the references are set.
-/
theorem owned_of_createOrUpdate {α : Type} {f : Feature} {failure : Option String}
    {object result : α} {ownerReferences : α → List OwnerReference}
    {own : α → List OwnerReference → α}
    (h : (createOrUpdate failure object fun o => do
        let owned ← setControllerReference f (ownerReferences o)
        return own o owned) = .ok result)
    : ∃ owned,
        setControllerReference f (ownerReferences object) = .ok owned
        ∧ result = own object owned := by
  cases failure with
  | some err => cases h
  | none =>
      simp only [createOrUpdate] at h
      cases owned : setControllerReference f (ownerReferences object) with
      | error err =>
          simp only [owned] at h
          cases h
      | ok refs =>
          simp only [owned] at h
          cases h
          exact ⟨refs, rfl, rfl⟩

/-- The Service that a reconcile stored is stored again by the next one. Witness: the fields
are set to functions of the Feature's spec, and the owner references are kept.
-/
theorem reconcileService_again (keeps : KeepsOwnerReferences setControllerReference)
    {f : Feature} {failure : Option String} {stored : Option Service} {svc : Service}
    (h : reconcileService setControllerReference f failure stored = .ok svc)
    (status : FeatureStatus)
    : reconcileService setControllerReference { f with status } none (some svc) = .ok svc := by
  simp only [reconcileService] at h
  obtain ⟨refs, owned, rfl⟩ := owned_of_createOrUpdate h
  have kept := keeps f _ refs owned status
  simp only [reconcileService, createOrUpdate, Option.getD_some, kept]
  rfl

/-- The Deployment that a reconcile stored is stored again by the next one. Witness: the fields
are set to functions of the Feature's spec, and the owner references are kept.
-/
theorem reconcileDeployment_again (keeps : KeepsOwnerReferences setControllerReference)
    {f : Feature} {failure : Option String} {stored : Option Deployment} {dep : Deployment}
    (h : reconcileDeployment setControllerReference f failure stored = .ok dep)
    (status : FeatureStatus)
    : reconcileDeployment setControllerReference { f with status } none (some dep)
      = .ok dep := by
  simp only [reconcileDeployment] at h
  obtain ⟨refs, owned, rfl⟩ := owned_of_createOrUpdate h
  have kept := keeps f _ refs owned status
  simp only [reconcileDeployment, createOrUpdate, Option.getD_some, kept]
  rfl

/-- A reconcile that succeeds stores both objects and, for a Feature that exists, the status
observed of them. Witness: every other branch ends with an error.
-/
theorem reconcile_of_succeeds {cluster : Cluster} {f : Feature}
    (stored : cluster.feature = some f) {faults : Faults} {now : Time}
    (succeeds : (reconcile setControllerReference cluster faults now).2 = none)
    : ∃ svc dep,
        reconcileService setControllerReference f faults.service cluster.service = .ok svc
        ∧ reconcileDeployment setControllerReference f faults.deployment cluster.deployment
            = .ok dep
        ∧ (reconcile setControllerReference cluster faults now).1
            = {
              feature := some { f with status := observedStatus f svc dep now }
              service := some svc
              deployment := some dep } := by
  simp only [reconcile, stored] at succeeds ⊢
  cases service : reconcileService setControllerReference f faults.service cluster.service with
  | error err => simp [service, fail] at succeeds
  | ok svc =>
      simp only [service] at succeeds ⊢
      cases deployment : reconcileDeployment setControllerReference f faults.deployment
          cluster.deployment with
      | error err => simp [deployment, fail] at succeeds
      | ok dep =>
          simp only [deployment] at succeeds
          exact ⟨svc, dep, rfl, rfl, by simp [updateStatus, succeeds]⟩

/-- After a reconcile that succeeds, a later one leaves the Deployment, the Service and the
Feature with its status as they are. Witness: each object is stored as it was, and the status
observed of the same objects is the stored one.
-/
theorem reconcile_idempotent (keeps : KeepsOwnerReferences setControllerReference)
    (cluster : Cluster) (first second : Faults) (now later : Time)
    (succeeds : (reconcile setControllerReference cluster first now).2 = none)
    (storesService : second.service = none) (storesDeployment : second.deployment = none)
    : (reconcile setControllerReference
        (reconcile setControllerReference cluster first now).1 second later).1
      = (reconcile setControllerReference cluster first now).1 := by
  cases stored : cluster.feature with
  | none => simp [reconcile, stored]
  | some f =>
      obtain ⟨svc, dep, service, deployment, settled⟩ := reconcile_of_succeeds stored succeeds
      have serviceAgain := reconcileService_again keeps service (observedStatus f svc dep now)
      have deploymentAgain :=
        reconcileDeployment_again keeps deployment (observedStatus f svc dep now)
      rw [settled]
      simp only [reconcile, storesService, storesDeployment, serviceAgain, deploymentAgain,
        observedStatus_again]
      cases second.status with
      | none => rfl
      | some err => rfl

/-- Appends the Feature as controller, unless it is there; the references of others stay. -/
def setOwner : SetControllerReference := fun f refs =>
  if refs.any (fun ref => ref.name == f.name) then .ok refs
  else .ok (refs ++ [⟨"Feature", f.name, "uid-1", true⟩])

/-- The references with the Feature as an owner keep it. Witness: it is found there. -/
theorem setOwner_keeps : KeepsOwnerReferences setOwner := by
  intro f refs owned h status
  simp only [setOwner] at h ⊢
  split at h <;> cases h
  · simp_all
  · simp

theorem reconcile_idempotent_echo
    : let cluster : Cluster :=
        { feature := some
            { name := "echo", «namespace» := "default", generation := 3, spec := { image := "e" } }
          deployment := some
            { name := "echo", «namespace» := "default", availableReplicas := 1 } }
      (reconcile setOwner cluster {} 5).2 = none
      ∧ (reconcile setOwner (reconcile setOwner cluster {} 5).1 {} 9).1
        = (reconcile setOwner cluster {} 5).1 := by
  intro cluster
  have succeeds : (reconcile setOwner cluster {} 5).2 = none := rfl
  exact ⟨succeeds, reconcile_idempotent setOwner_keeps cluster {} {} 5 9 succeeds rfl rfl⟩

end Operator

end AgentFeatures
