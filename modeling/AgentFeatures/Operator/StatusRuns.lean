import AgentFeatures.Library.Transitions
import AgentFeatures.Operator.Reconcile

/-! What the stored status of a Feature says over runs of spec edits and reconciles. -/

namespace AgentFeatures

open Library

namespace Operator

-----------------------------------------------------------------------------------------
-- What one reconcile writes
-----------------------------------------------------------------------------------------

/-- After an upsert the only condition of its type is the new one, up to its transition time.
Witness: induction on the conditions.
-/
theorem filter_setCondition {conditions : List Condition} (c : Condition)
    (atMostOne : (conditions.filter fun old => old.type = c.type).length ≤ 1)
    : ∃ time,
        (setCondition conditions c).filter (fun old => old.type = c.type)
          = [{ c with lastTransitionTime := time }] := by
  induction conditions with
  | nil => exact ⟨c.lastTransitionTime, by simp [setCondition]⟩
  | cons old rest ih =>
      by_cases same : old.type = c.type
      · have alone : rest.filter (fun other => other.type = c.type) = [] := by
          simpa [same] using atMostOne
        exact ⟨_, by simp [setCondition, same, alone]; rfl⟩
      · obtain ⟨time, later⟩ := ih (by simpa [same] using atMostOne)
        exact ⟨time, by simp [setCondition, same, later]⟩

variable {setControllerReference : SetControllerReference}

/-- A reconciled Service stands under the name and namespace of its Feature. -/
theorem key_of_reconcileService {f : Feature} {failure : Option String}
    {stored : Option Service} {svc : Service}
    (h : reconcileService setControllerReference f failure stored = .ok svc)
    : svc.name = f.name ∧ svc.namespace = f.namespace := by
  cases failure with
  | some err => cases h
  | none =>
      simp only [reconcileService, createOrUpdate] at h
      generalize setControllerReference f _ = owned at h
      cases owned with
      | error err => cases h
      | ok ownerReferences =>
          cases h
          exact ⟨rfl, rfl⟩

variable (setControllerReference) in
/-- The reconcile fails at the Service or at the Deployment. -/
def WorkloadFails (cluster : Cluster) (f : Feature) (faults : Faults) : Prop :=
  (∃ err, reconcileService setControllerReference f faults.service cluster.service = .error err)
  ∨ ∃ err,
      reconcileDeployment setControllerReference f faults.deployment cluster.deployment
        = .error err

/-- The Feature with a new status, unless the write is rejected. -/
def Feature.written (f : Feature) (status : FeatureStatus) : Option String → Feature
  | some _ => f
  | none => { f with status }

theorem updateStatus_feature (cluster : Cluster) (status : FeatureStatus)
    (failure : Option String)
    : (updateStatus cluster status failure).feature
      = cluster.feature.map fun f => f.written status failure := by
  cases failure with
  | some err => exact (Option.map_id' ..).symm
  | none => rfl

/-- A reconcile writes a failure for one of two reasons, or what it observed under the name and
the generation of the Feature; it changes nothing else of the Feature.
-/
theorem reconcile_cases (setControllerReference : SetControllerReference) {cluster : Cluster}
    {f : Feature} (stored : cluster.feature = some f) (faults : Faults) (now : Time)
    : let written (status : FeatureStatus) :=
        (reconcile setControllerReference cluster faults now).1.feature
          = some (f.written status faults.status)
      (WorkloadFails setControllerReference cluster f faults
        ∧ ∃ reason cause,
            (reason = "ServiceError" ∨ reason = "DeploymentError")
            ∧ written (failedStatus f reason cause now))
      ∨ (¬ WorkloadFails setControllerReference cluster f faults
        ∧ ∃ svc dep,
            svc.name = f.name
            ∧ svc.namespace = f.namespace
            ∧ written (observedStatus f svc dep now)) := by
  intro written
  simp only [written, reconcile, stored, WorkloadFails]
  cases service : reconcileService setControllerReference f faults.service cluster.service with
  | error err =>
      refine .inl ⟨.inl ⟨err, rfl⟩, "ServiceError", err, .inl rfl, ?_⟩
      simp [fail, updateStatus_feature, stored]
  | ok svc =>
      cases deployment : reconcileDeployment setControllerReference f faults.deployment
          cluster.deployment with
      | error err =>
          refine .inl ⟨.inr ⟨err, rfl⟩, "DeploymentError", err, .inr rfl, ?_⟩
          simp [fail, updateStatus_feature]
      | ok dep =>
          obtain ⟨name, «namespace»⟩ := key_of_reconcileService service
          refine .inr ⟨by simp, svc, dep, name, «namespace», ?_⟩
          simp [updateStatus_feature]

-----------------------------------------------------------------------------------------
-- Runs
-----------------------------------------------------------------------------------------

/-- A cluster with its history: the spec of each generation so far, and the generation of the
reconcile that wrote the stored status, if one did.
-/
structure History where
  cluster : Cluster
  specs : Dict Nat FeatureSpec
  writtenBy : Option Nat := none

/-- What happens to a Feature: its spec is edited, which raises its generation; others change
its objects; or a reconcile runs.
-/
inductive Event where
  | edit (spec : FeatureSpec) (raise : Nat)
  | objects (service : Option Service) (deployment : Option Deployment)
  | reconcile (faults : Faults) (now : Time)

/-- The Feature after an edit. -/
def Feature.edited (f : Feature) (spec : FeatureSpec) (raise : Nat) : Feature :=
  { f with spec, generation := f.generation + raise + 1 }

variable (setControllerReference) in
def step (history : History) : Event → History
  | .edit spec raise =>
      match history.cluster.feature with
      | none => history
      | some f =>
          let edited := f.edited spec raise
          { history with
            cluster := { history.cluster with feature := some edited }
            specs := history.specs.set edited.generation spec }
  | .objects service deployment =>
      { history with cluster := { history.cluster with service, deployment } }
  | .reconcile faults now =>
      { history with
        cluster := (reconcile setControllerReference history.cluster faults now).1
        writtenBy :=
          match history.cluster.feature, faults.status with
          | some f, none => some f.generation
          | _, _ => history.writtenBy }

/-- A Feature as it was created, with an empty status, among any objects of its name. -/
def created (name «namespace» : String) (generation : Nat) (spec : FeatureSpec)
    (service : Option Service) (deployment : Option Deployment)
    : History where
  cluster := {
    feature := some { name, «namespace», generation, spec }
    service
    deployment }
  specs := Dict.empty.set generation spec

-----------------------------------------------------------------------------------------
-- The status stays coherent
-----------------------------------------------------------------------------------------

/-- The conditions of type Available. -/
def FeatureStatus.available (status : FeatureStatus) : List Condition :=
  status.conditions.filter fun c => c.type = "Available"

/-- What the fields of a stored status have to do with each other and with the specs. -/
structure Coherent (f : Feature) (specs : Dict Nat FeatureSpec) : Prop where
  atMostOne : f.status.available.length ≤ 1
  ready : f.status.phase = some .ready ↔ ∃ c ∈ f.status.available, c.status = .true
  failed
    : f.status.phase = some .failed
      ↔ ∃ c ∈ f.status.available, c.reason = "ServiceError" ∨ c.reason = "DeploymentError"
  observed : f.status.observedGeneration ≤ f.generation
  endpoint
    : f.status.phase = some .provisioning ∨ f.status.phase = some .ready
      → ∃ spec,
          specs.get? f.status.observedGeneration = some spec
          ∧ f.status.endpoint = serviceEndpoint f.name f.namespace spec.port

/-- The stored status is coherent and the specs are those of the Feature. -/
structure Recorded (history : History) (f : Feature) : Prop where
  coherent : Coherent f history.specs
  current : history.specs.get? f.generation = some f.spec

/-- The Feature is there, and its status and specs are on record. -/
def Tracked (history : History) : Prop :=
  ∃ f, history.cluster.feature = some f ∧ Recorded history f

/-- A failure keeps the observed generation and the endpoint it found. -/
theorem Coherent.failed_status {f : Feature} {specs : Dict Nat FeatureSpec}
    (coherent : Coherent f specs) {reason : String} (cause : String) (now : Time)
    (known : reason = "ServiceError" ∨ reason = "DeploymentError")
    : Coherent { f with status := failedStatus f reason cause now } specs := by
  obtain ⟨time, only⟩ :=
    filter_setCondition ⟨"Available", .false, reason, cause, now⟩ coherent.atMostOne
  have available : (failedStatus f reason cause now).available
      = [⟨"Available", .false, reason, cause, time⟩] := only
  have phased : (failedStatus f reason cause now).phase = some .failed := rfl
  exact {
    atMostOne := by simp [available]
    ready := by simp [available, phased]
    failed := by simp [available, phased, known]
    observed := coherent.observed
    endpoint := by simp [phased] }

/-- What a reconcile observed names the generation and the port it saw. -/
theorem Coherent.observed_status {f : Feature} {specs : Dict Nat FeatureSpec}
    (coherent : Coherent f specs) (current : specs.get? f.generation = some f.spec)
    {svc : Service} (name : svc.name = f.name) (ns : svc.namespace = f.namespace)
    (dep : Deployment) (now : Time)
    : Coherent { f with status := observedStatus f svc dep now } specs := by
  let phase : Phase := if dep.availableReplicas > 0 then .ready else .provisioning
  obtain ⟨time, only⟩ := filter_setCondition
    ⟨"Available", boolToStatus (phase = .ready), phaseText phase,
      s!"{dep.availableReplicas}/{replicas f} replicas available", now⟩
    coherent.atMostOne
  have available : (observedStatus f svc dep now).available
      = [⟨"Available", boolToStatus (phase = .ready), phaseText phase,
          s!"{dep.availableReplicas}/{replicas f} replicas available", time⟩] := only
  have phased : (observedStatus f svc dep now).phase = some phase := rfl
  have two : phase = .ready ∨ phase = .provisioning := by
    simp only [phase]
    split <;> simp
  refine {
    atMostOne := by simp [available]
    ready := ?_
    failed := ?_
    observed := Nat.le_refl _
    endpoint := fun _ => ⟨f.spec, current, by simp [observedStatus, name, ns]⟩ }
  · rcases two with ready | provisioning
    · simp [available, phased, ready, boolToStatus]
    · simp [available, phased, provisioning, boolToStatus]
  · rcases two with ready | provisioning
    · simp [available, phased, ready, phaseText]
    · simp [available, phased, provisioning, phaseText]

/-- Every event keeps the record. Witness: an edit adds a spec for a new generation, and a
reconcile writes one of two coherent statuses or none.
-/
theorem Tracked.step {history : History} (tracked : Tracked history) (event : Event)
    : Tracked (step setControllerReference history event) := by
  obtain ⟨f, stored, coherent, current⟩ := tracked
  cases event with
  | edit spec raise =>
      have older : f.status.observedGeneration ≠ (f.edited spec raise).generation := by
        have observed := coherent.observed
        simp only [Feature.edited]
        omega
      refine ⟨f.edited spec raise, by simp [Operator.step, stored], ?_, ?_⟩
      · simp only [Operator.step, stored]
        refine {
          atMostOne := coherent.atMostOne
          ready := coherent.ready
          failed := coherent.failed
          observed := by have := coherent.observed; simp only [Feature.edited]; omega
          endpoint := fun phase => ?_ }
        obtain ⟨spec', found, endpoint⟩ := coherent.endpoint phase
        exact ⟨spec', (Dict.get?_set_ne _ _ older).trans found, endpoint⟩
      · simp only [Operator.step, stored]
        exact Dict.get?_set_self ..
  | objects service deployment => exact ⟨f, stored, coherent, current⟩
  | reconcile faults now =>
      rcases reconcile_cases setControllerReference stored faults now
        with ⟨-, reason, cause, known, written⟩ | ⟨-, svc, dep, name, ns, written⟩
      all_goals refine ⟨_, written, ?_⟩; cases status : faults.status
      · exact ⟨coherent.failed_status cause now known, current⟩
      · exact ⟨coherent, current⟩
      · exact ⟨coherent.observed_status current name ns dep now, current⟩
      · exact ⟨coherent, current⟩

/-- A Feature with an empty status is on record. -/
theorem tracked_created (name «namespace» : String) (generation : Nat) (spec : FeatureSpec)
    (service : Option Service) (deployment : Option Deployment)
    : Tracked (created name «namespace» generation spec service deployment) := by
  refine ⟨_, rfl, ?_, Dict.get?_set_self ..⟩
  exact {
    atMostOne := by simp [FeatureStatus.available]
    ready := by simp [FeatureStatus.available]
    failed := by simp [FeatureStatus.available]
    observed := Nat.zero_le _
    endpoint := by simp }

/-- In every run the stored status is coherent. Witness: the record is an invariant. -/
theorem status_coherent (setControllerReference : SetControllerReference)
    (name «namespace» : String) (generation : Nat) (spec : FeatureSpec)
    (service : Option Service) (deployment : Option Deployment) (events : List Event)
    : let history := Transitions.run (step setControllerReference)
        (created name «namespace» generation spec service deployment) events
      ∃ f, history.cluster.feature = some f ∧ Coherent f history.specs := by
  intro history
  obtain ⟨f, stored, recorded⟩ : Tracked history :=
    Transitions.run_invariant (fun _ event tracked => tracked.step event)
      (tracked_created name «namespace» generation spec service deployment) events
  exact ⟨f, stored, recorded.coherent⟩

-----------------------------------------------------------------------------------------
-- The generation a status names
-----------------------------------------------------------------------------------------

/-- The stored status names the generation of the reconcile that wrote it. -/
def Attributed (history : History) : Prop :=
  ∀ f ∈ history.cluster.feature,
    ∀ generation ∈ history.writtenBy, f.status.observedGeneration = generation

variable (setControllerReference) in
/-- A reconcile that fails and gets its status written does so at the generation that the
stored status already names.
-/
def FailsObserved (history : History) : Event → Prop
  | .reconcile faults _ =>
      ∀ f ∈ history.cluster.feature,
        faults.status = none
        → WorkloadFails setControllerReference history.cluster f faults
        → f.status.observedGeneration = f.generation
  | _ => True

/-- The status names its writer after an event exactly when the event, if it is a failing
reconcile, finds the current generation named. Witness: a failure keeps the observed generation.
-/
theorem attributed_step (history : History) (event : Event) (attributed : Attributed history)
    : Attributed (step setControllerReference history event)
      ↔ FailsObserved setControllerReference history event := by
  cases event with
  | edit spec raise =>
      refine iff_of_true ?_ trivial
      cases stored : history.cluster.feature with
      | none => simpa [step, stored] using attributed
      | some f =>
          intro edited isEdited generation wrote
          simp only [step, stored, Option.mem_def, Option.some.injEq] at isEdited wrote
          subst isEdited
          exact attributed f stored generation wrote
  | objects service deployment => exact iff_of_true attributed trivial
  | reconcile faults now =>
      cases stored : history.cluster.feature with
      | none =>
          refine iff_of_true ?_ (by simp [FailsObserved, stored])
          simp [Attributed, step, reconcile, stored]
      | some f =>
          cases rejected : faults.status with
          | some err =>
              refine iff_of_true ?_ (by simp [FailsObserved, rejected])
              rcases reconcile_cases setControllerReference stored
                faults now with ⟨-, reason, cause, -, written⟩ | ⟨-, svc, dep, -, -, written⟩
              all_goals
                rw [rejected] at written
                simp only [Attributed, step, written, stored, rejected]
                simpa [Attributed, stored, Feature.written] using attributed
          | none =>
              rcases reconcile_cases setControllerReference stored
                faults now with ⟨fails, reason, cause, -, written⟩
                  | ⟨succeeds, svc, dep, -, -, written⟩
              all_goals
                rw [rejected] at written
                simp only [Attributed, FailsObserved, step, written, stored, rejected]
              · simp [fails, Feature.written, failedStatus]
              · simp [succeeds, Feature.written, observedStatus]

/-- A run keeps naming the writer of the status exactly when all its failing reconciles whose
status is written find the current generation named. Witness: event by event.
-/
theorem attributed_iff_failsObserved (setControllerReference : SetControllerReference)
    (name «namespace» : String) (generation : Nat) (spec : FeatureSpec)
    (service : Option Service) (deployment : Option Deployment) (events : List Event)
    : let first := created name «namespace» generation spec service deployment
      Transitions.Always (step setControllerReference) Attributed first events
      ↔ Transitions.Throughout (step setControllerReference)
          (FailsObserved setControllerReference) first events := by
  intro first
  exact Transitions.always_iff_throughout attributed_step (by simp [Attributed, first, created])
    events

/-- A Feature is reconciled, its spec is edited, and the next reconcile fails at the Service. -/
def failedEdit : List Event :=
  [.reconcile {} 0, .edit { image := "echo:2" } 0, .reconcile { service := some "quota" } 1]

/-- The failure at generation 2 is reported under generation 1. -/
theorem failedEdit_misattributed
    : ¬ ∀ (setControllerReference : SetControllerReference) (name «namespace» : String)
        (generation : Nat) (spec : FeatureSpec) (service : Option Service)
        (deployment : Option Deployment) (events : List Event),
        Transitions.Always (step setControllerReference) Attributed
          (created name «namespace» generation spec service deployment) events := by
  intro all
  obtain ⟨-, -, -, last⟩ := all (fun _ owners => .ok owners) "echo" "features" 1
    { image := "echo:1" } none none failedEdit
  have same : 1 = 2 := last _ rfl 2 rfl
  exact absurd same (by decide)

end Operator

end AgentFeatures
