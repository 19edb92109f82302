import AgentFeatures.Gateway.GrpcInvoker
import AgentFeatures.Gateway.ReadyProviders

/-! The Features of a cluster, the pods of their Deployments and the gateway that calls them over
gRPC.
-/

namespace AgentFeatures

open Library

namespace Operator

/-- `types.NamespacedName`. -/
structure NamespacedName where
  «namespace» : String
  name : String
deriving DecidableEq

/-- A pod, as the template of its Deployment was when it was made. -/
structure Pod where
  deployment : NamespacedName
  labels : Dict String String
  containers : List Container

/-- What happens to a Feature and the objects of its name: its spec is applied, it is deleted,
others write or remove the objects, or a reconcile runs.
-/
inductive Change where
  | apply (spec : FeatureSpec)
  | delete
  | objects (service : Option Service) (deployment : Option Deployment)
  | reconcile (faults : Faults) (now : Time)

variable (setControllerReference : SetControllerReference)

def change (key : NamespacedName) (cluster : Cluster) : Change → Cluster
  | .apply spec =>
      let applied : Feature :=
        match cluster.feature with
        | none => { name := key.name, «namespace» := key.namespace, generation := 1, spec }
        | some f => { f with spec, generation := f.generation + 1 }
      { cluster with feature := some applied }
  | .delete => { cluster with feature := none }
  | .objects service deployment => { cluster with service, deployment }
  | .reconcile faults now => (reconcile setControllerReference cluster faults now).1

-----------------------------------------------------------------------------------------
-- The gateway's calls
-----------------------------------------------------------------------------------------

/-- The endpoint of a Feature that the gateway resolves, if it has one. -/
def Feature.endpoint (f : Feature) : Option String := given (Gateway.crStatus f.status).endpoint

/-- The Service sends what comes in at the port to a container port of the pod. -/
def Service.RoutesTo (svc : Service) (port : Int) (pod : Pod) : Prop :=
  svc.selector.entries ≠ []
  ∧ (∀ label ∈ svc.selector.entries, pod.labels.get? label.1 = some label.2)
  ∧ ∃ servicePort ∈ svc.ports,
      servicePort.port = port
      ∧ ∃ container ∈ pod.containers,
          ∃ containerPort ∈ container.ports,
            containerPort.containerPort = servicePort.targetPort

instance (svc : Service) (port : Int) (pod : Pod) : Decidable (svc.RoutesTo port pod) :=
  inferInstanceAs (Decidable (_ ∧ _ ∧ _))

/-- A name without the dots that separate the parts of a host. -/
def DnsLabel (name : String) : Prop := '.' ∉ name.toList

instance (name : String) : Decidable (DnsLabel name) := inferInstanceAs (Decidable (¬ _))

/-- All that calls depend on: what the API server stores, the templates that Deployments have had,
the pods, the endpoints that calls of features hold, the connections of the channels, and the pods
that calls have reached.
-/
structure Fleet where
  clusters : NamespacedName → Cluster
  templates : List Pod := []
  pods : List Pod := []
  held : List (String × String) := []
  connections : List (String × Pod) := []
  reached : List (String × Pod) := []

namespace Fleet

/-- What happens in the cluster and at the gateway: a change, a pod of some template, the end of a
pod, a call of a feature that resolves its endpoint, a channel that connects to a pod, or a call
that goes over a connection of its channel.
-/
inductive Event where
  | change (key : NamespacedName) (change : Change)
  | rollout (template : Nat)
  | evict (pod : Nat)
  | resolve (feature : String)
  | connect (endpoint : String) (key : NamespacedName) (port : Int) (pod : Nat)
  | deliver (feature endpoint : String) (connection : Nat)

/-- The host of an endpoint is the Service of a name. -/
def Dials (endpoint : String) (key : NamespacedName) (port : Int) : Prop :=
  DnsLabel key.name
  ∧ DnsLabel key.namespace
  ∧ endpoint = serviceEndpoint key.name key.namespace port

instance (endpoint : String) (key : NamespacedName) (port : Int)
    : Decidable (Dials endpoint key port) :=
  inferInstanceAs (Decidable (_ ∧ _ ∧ _))

/-- The template of a name's Deployment. -/
def template? (key : NamespacedName) (cluster : Cluster) : Option Pod :=
  cluster.deployment.map fun dep => ⟨key, dep.templateLabels, dep.containers⟩

/-- The gateway's calls are of the features in one namespace. Nothing happens where an event is
not possible.
-/
def step (featuresNamespace : String) (fleet : Fleet) : Event → Fleet
  | .change key made =>
      let cluster := change setControllerReference key (fleet.clusters key) made
      { fleet with
        clusters := Function.update fleet.clusters key cluster
        templates := fleet.templates ++ (template? key cluster).toList }
  | .rollout template => { fleet with pods := fleet.pods ++ fleet.templates[template]?.toList }
  | .evict pod => { fleet with pods := fleet.pods.eraseIdx pod }
  | .resolve feature =>
      match (fleet.clusters ⟨featuresNamespace, feature⟩).feature.bind Feature.endpoint with
      | some endpoint => { fleet with held := fleet.held ++ [(feature, endpoint)] }
      | none => fleet
  | .connect endpoint key port pod =>
      match (fleet.clusters key).service, fleet.pods[pod]? with
      | some svc, some pod =>
          if endpoint ∈ fleet.held.map Prod.snd ∧ Dials endpoint key port
              ∧ pod.deployment.namespace = key.namespace ∧ svc.RoutesTo port pod then
            { fleet with connections := fleet.connections ++ [(endpoint, pod)] }
          else fleet
      | _, _ => fleet
  | .deliver feature endpoint connection =>
      match fleet.connections[connection]? with
      | some (dialed, pod) =>
          if (feature, endpoint) ∈ fleet.held ∧ dialed = endpoint then
            { fleet with reached := fleet.reached ++ [(feature, pod)] }
          else fleet
      | none => fleet

end Fleet

end Operator

namespace Gateway

/-- In a catalog that maps the Feature's resource, the gateway resolves the Feature's endpoint. -/
theorem resolveEndpoint_of_mapped {loads : String → Option Json} {f : Operator.Feature}
    {spec : Option CrSpec} {catalog : Catalog} {feature : Feature}
    (mapped
      : KubernetesCatalog.featureFromCr loads
          { name := f.name, spec, status := some (crStatus f.status) }
        = some feature)
    (found : catalog.get f.name = some feature) (endpoint : String)
    : resolveEndpoint catalog f.name = .ok endpoint ↔ f.endpoint = some endpoint := by
  have endpoints : feature.endpoint = (crStatus f.status).endpoint := by
    simp only [KubernetesCatalog.featureFromCr, Option.bind_eq_bind,
      Option.bind_eq_some_iff] at mapped
    obtain ⟨input, -, output, -, protocol, -, same⟩ := mapped
    cases same
    rfl
  simp only [resolveEndpoint, found, Option.bind_some, endpoints, Operator.Feature.endpoint]
  cases given (crStatus f.status).endpoint <;> simp

end Gateway

end AgentFeatures
