import AgentFeatures.Operator.Resources

/-! The Feature reconciler: a Feature becomes a Deployment and a Service, and its status says
how far that is.
-/

namespace AgentFeatures

open Library (Dict)

namespace Operator

-----------------------------------------------------------------------------------------
-- Helpers
-----------------------------------------------------------------------------------------

def labelsFor (f : Feature) : Dict String String :=
  Dict.ofList [("app.kubernetes.io/managed-by", "agent-features-operator"),
    ("agentfeatures.io/feature", f.name)]

def replicas (f : Feature) : Int := f.spec.runtime.minReplicas.getD 1

def protocolOrDefault (f : Feature) : Protocol := f.spec.protocol.getD .grpc

/-- `string(protocol)`. -/
def protocolText : Protocol → String
  | .grpc => "grpc"
  | .http => "http"

/-- `string(phase)`. -/
def phaseText : Phase → String
  | .pending => "Pending"
  | .provisioning => "Provisioning"
  | .ready => "Ready"
  | .failed => "Failed"

/-- Copies the runtime resources and adds a requested accelerator as a limit. -/
def withAccelerator (rt : RuntimeSpec) : ResourceRequirements :=
  if rt.accelerator = "" then rt.resources
  else
    { rt.resources with
      limits := some ((rt.resources.limits.getD ∅).set rt.accelerator "1") }

def boolToStatus (b : Bool) : ConditionStatus := if b then .true else .false

/-- Upserts a condition by type, preserving the transition time when the status is unchanged. -/
def setCondition : List Condition → Condition → List Condition
  | [], c => [c]
  | old :: rest, c =>
      if old.type = c.type then
        { c with
          lastTransitionTime :=
            if old.status = c.status then old.lastTransitionTime else c.lastTransitionTime }
          :: rest
      else old :: setCondition rest c

-----------------------------------------------------------------------------------------
-- The owned objects
-----------------------------------------------------------------------------------------

/-- `controllerutil.CreateOrUpdate`: mutates the object read, or an empty one, and stores the
result, unless the API fails.
-/
def createOrUpdate {α : Type} (failure : Option String) (object : α)
    (mutate : α → Except String α)
    : Except String α :=
  match failure with
  | some err => .error err
  | none => mutate object

/-- `controllerutil.SetControllerReference` on the owner references of an object. -/
abbrev SetControllerReference := Feature → List OwnerReference → Except String (List OwnerReference)

variable (setControllerReference : SetControllerReference)

/-- The Service is read and stored under the name and namespace of its Feature. -/
def reconcileService (f : Feature) (failure : Option String) (stored : Option Service)
    : Except String Service := do
  let labels := labelsFor f
  let empty : Service := { name := f.name, «namespace» := f.namespace }
  createOrUpdate failure { stored.getD empty with name := f.name, «namespace» := f.namespace }
    fun svc => do
      let ownerReferences ← setControllerReference f svc.ownerReferences
      return { svc with
        labels
        selector := labels
        ports := [⟨protocolText (protocolOrDefault f), f.spec.port, f.spec.port⟩]
        ownerReferences }

/-- The Deployment is read and stored under the name and namespace of its Feature. -/
def reconcileDeployment (f : Feature) (failure : Option String) (stored : Option Deployment)
    : Except String Deployment := do
  let labels := labelsFor f
  let empty : Deployment := { name := f.name, «namespace» := f.namespace }
  createOrUpdate failure { stored.getD empty with name := f.name, «namespace» := f.namespace }
    fun dep => do
      let ownerReferences ← setControllerReference f dep.ownerReferences
      return { dep with
        labels
        replicas := some (replicas f)
        selector := some labels
        templateLabels := labels
        containers := [{
          name := "feature"
          image := f.spec.image
          ports := [⟨protocolText (protocolOrDefault f), f.spec.port⟩]
          resources := withAccelerator f.spec.runtime }]
        ownerReferences }

-----------------------------------------------------------------------------------------
-- Reconcile
-----------------------------------------------------------------------------------------

/-- Which of a reconcile's API calls fail, with the errors. -/
structure Faults where
  service : Option String := none
  deployment : Option String := none
  status : Option String := none

/-- `r.Status().Update`: replaces the stored status, or fails without effect. -/
def updateStatus (cluster : Cluster) (status : FeatureStatus) (failure : Option String)
    : Cluster :=
  match failure with
  | some _ => cluster
  | none => { cluster with feature := cluster.feature.map fun f => { f with status } }

/-- The status that `fail` writes. -/
def failedStatus (f : Feature) (reason cause : String) (now : Time) : FeatureStatus :=
  { f.status with
    phase := some .failed
    conditions := setCondition f.status.conditions {
      type := "Available"
      status := .false
      reason
      message := cause
      lastTransitionTime := now } }

/-- The status update is best-effort; the original error is surfaced for requeue. -/
def fail (cluster : Cluster) (f : Feature) (reason cause : String) (failure : Option String)
    (now : Time)
    : Cluster × Option String :=
  (updateStatus cluster (failedStatus f reason cause now) failure, some cause)

/-- The in-cluster address of a Service. -/
def serviceEndpoint (name «namespace» : String) (port : Int) : String :=
  name ++ "." ++ «namespace» ++ ".svc.cluster.local:" ++ toString port

/-- The status of a Feature whose objects are in place. -/
def observedStatus (f : Feature) (svc : Service) (dep : Deployment) (now : Time)
    : FeatureStatus :=
  let phase : Phase := if dep.availableReplicas > 0 then .ready else .provisioning
  { phase := some phase
    endpoint := serviceEndpoint svc.name svc.namespace f.spec.port
    observedGeneration := f.generation
    conditions := setCondition f.status.conditions {
      type := "Available"
      status := boolToStatus (phase = .ready)
      reason := phaseText phase
      message := s!"{dep.availableReplicas}/{replicas f} replicas available"
      lastTransitionTime := now } }

/-- Drives a Feature toward its desired state; the result is the cluster and the error. -/
def reconcile (cluster : Cluster) (faults : Faults) (now : Time) : Cluster × Option String :=
  match cluster.feature with
  | none => (cluster, none)
  | some f =>
      match reconcileService setControllerReference f faults.service cluster.service with
      | .error err => fail cluster f "ServiceError" err faults.status now
      | .ok svc =>
          let cluster := { cluster with service := some svc }
          match reconcileDeployment setControllerReference f faults.deployment
              cluster.deployment with
          | .error err => fail cluster f "DeploymentError" err faults.status now
          | .ok dep =>
              let cluster := { cluster with deployment := some dep }
              (updateStatus cluster (observedStatus f svc dep now) faults.status, faults.status)

end Operator

end AgentFeatures
