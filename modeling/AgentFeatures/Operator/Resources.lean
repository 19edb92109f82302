import AgentFeatures.Models

/-! The operator's resources: the Feature custom resource and the objects it owns. -/

namespace AgentFeatures

open Library (Dict)

namespace Operator

/-- `metav1.Time`. -/
abbrev Time := Nat

/-- `corev1.ResourceList`: quantities by resource name. -/
abbrev ResourceList := Dict String String

/-- `corev1.ResourceRequirements`; `none` is a nil map. -/
structure ResourceRequirements where
  limits : Option ResourceList := none
  requests : Option ResourceList := none

/-- How the feature workload is scheduled and scaled. -/
structure RuntimeSpec where
  minReplicas : Option Int := none
  resources : ResourceRequirements := {}
  accelerator : String := ""

/-- The desired state of a Feature, as far as the operator reads it. -/
structure FeatureSpec where
  image : String
  protocol : Option Protocol := none
  port : Int := 9090
  runtime : RuntimeSpec := {}

/-- `metav1.ConditionStatus`, a string. -/
structure ConditionStatus where
  text : String
deriving DecidableEq

/-- `metav1.ConditionTrue`. -/
protected def ConditionStatus.true : ConditionStatus := ⟨"True"⟩

/-- `metav1.ConditionFalse`. -/
protected def ConditionStatus.false : ConditionStatus := ⟨"False"⟩

@[simp] theorem ConditionStatus.false_ne_true : ConditionStatus.false ≠ .true := by decide

/-- `metav1.Condition`. -/
structure Condition where
  type : String
  status : ConditionStatus
  reason : String
  message : String
  lastTransitionTime : Time

/-- The observed state of a Feature; no phase is the empty phase. -/
structure FeatureStatus where
  phase : Option Phase := none
  endpoint : String := ""
  observedGeneration : Nat := 0
  conditions : List Condition := []

/-- A capability published to the agent marketplace. -/
structure Feature where
  name : String
  «namespace» : String
  generation : Nat
  spec : FeatureSpec
  status : FeatureStatus := {}

structure OwnerReference where
  kind : String
  name : String
  uid : String
  controller : Bool

structure ServicePort where
  name : String
  port : Int
  targetPort : Int

/-- `corev1.Service`; `other` is all the operator leaves alone. -/
structure Service where
  name : String
  «namespace» : String
  labels : Dict String String := ∅
  ownerReferences : List OwnerReference := []
  selector : Dict String String := ∅
  ports : List ServicePort := []
  other : Json := .null

structure ContainerPort where
  name : String
  containerPort : Int

structure Container where
  name : String
  image : String
  ports : List ContainerPort
  resources : ResourceRequirements

/-- `appsv1.Deployment`; `other` is all the operator neither sets nor reads. -/
structure Deployment where
  name : String
  «namespace» : String
  labels : Dict String String := ∅
  ownerReferences : List OwnerReference := []
  replicas : Option Int := none
  selector : Option (Dict String String) := none
  templateLabels : Dict String String := ∅
  containers : List Container := []
  availableReplicas : Int := 0
  other : Json := .null

/-- What the API server stores for one Feature's name. -/
structure Cluster where
  feature : Option Feature
  service : Option Service := none
  deployment : Option Deployment := none

end Operator

end AgentFeatures
