import AgentFeatures.Library.Text
import AgentFeatures.Library.Transitions
import AgentFeatures.Operator.Fleet
import AgentFeatures.Operator.Idempotence

/-! Calls of a feature reach the pods of its own Deployment, whatever happens meanwhile. -/

namespace AgentFeatures

open Library

namespace Operator

-----------------------------------------------------------------------------------------
-- What a reconcile does to the objects
-----------------------------------------------------------------------------------------

/-- The label that names the Feature of an object. -/
def featureLabel : String := "agentfeatures.io/feature"

theorem get?_labelsFor (f : Feature) : (labelsFor f).get? featureLabel = some f.name := by
  refine Dict.get?_eq_some_iff.mpr ?_
  rw [labelsFor, Dict.entries_ofList (by simp)]
  simp [featureLabel]

variable {setControllerReference : SetControllerReference}

/-- A reconcile keeps the names of its Feature; it stores the Service and the Deployment under the
Feature's labels or leaves them, and it publishes an endpoint only with the Service in place.
-/
structure Reconciled (f : Feature) (faults : Faults) (before after : Cluster) : Prop where
  feature
    : ∃ f',
        after.feature = some f'
        ∧ f'.name = f.name
        ∧ f'.namespace = f.namespace
        ∧ (f'.status.endpoint = f.status.endpoint
          ∨ (∃ svc ∈ after.service, svc.selector = labelsFor f)
            ∧ faults.service = none
            ∧ f'.status.endpoint = serviceEndpoint f.name f.namespace f.spec.port)
  service
    : after.service = before.service
      ∨ ∃ svc, after.service = some svc ∧ svc.selector = labelsFor f
  deployment
    : after.deployment = before.deployment
      ∨ ∃ dep, after.deployment = some dep ∧ dep.templateLabels = labelsFor f

theorem selector_of_reconcileService {f : Feature} {failure : Option String}
    {stored : Option Service} {svc : Service}
    (h : reconcileService setControllerReference f failure stored = .ok svc)
    : failure = none ∧ svc.name = f.name ∧ svc.namespace = f.namespace
      ∧ svc.selector = labelsFor f := by
  cases failure with
  | some err => cases h
  | none =>
      simp only [reconcileService] at h
      obtain ⟨refs, -, rfl⟩ := owned_of_createOrUpdate h
      exact ⟨rfl, rfl, rfl, rfl⟩

theorem labels_of_reconcileDeployment {f : Feature} {failure : Option String}
    {stored : Option Deployment} {dep : Deployment}
    (h : reconcileDeployment setControllerReference f failure stored = .ok dep)
    : dep.templateLabels = labelsFor f := by
  cases failure with
  | some err => cases h
  | none =>
      simp only [reconcileDeployment] at h
      obtain ⟨refs, -, rfl⟩ := owned_of_createOrUpdate h
      rfl

theorem reconciled {cluster : Cluster} {f : Feature} (stored : cluster.feature = some f)
    (faults : Faults) (now : Time)
    : Reconciled f faults cluster (reconcile setControllerReference cluster faults now).1 := by
  simp only [reconcile, stored]
  cases service : reconcileService setControllerReference f faults.service cluster.service with
  | error err =>
      cases status : faults.status <;>
        exact ⟨by simp [fail, updateStatus, stored, failedStatus],
          .inl (by simp [fail, updateStatus]), .inl (by simp [fail, updateStatus])⟩
  | ok svc =>
      obtain ⟨healthy, name, ns, selector⟩ := selector_of_reconcileService service
      cases deployment : reconcileDeployment setControllerReference f faults.deployment
          cluster.deployment with
      | error err =>
          cases status : faults.status <;>
            exact ⟨by simp [fail, updateStatus, failedStatus],
              .inr ⟨svc, by simp [fail, updateStatus], selector⟩,
              .inl (by simp [fail, updateStatus])⟩
      | ok dep =>
          have labels := labels_of_reconcileDeployment deployment
          cases status : faults.status with
          | some err =>
              exact ⟨by simp [updateStatus], .inr ⟨svc, by simp [updateStatus], selector⟩,
                .inr ⟨dep, by simp [updateStatus], labels⟩⟩
          | none =>
              have published : (observedStatus f svc dep now).endpoint
                  = serviceEndpoint f.name f.namespace f.spec.port := by
                rw [observedStatus, name, ns]
              exact ⟨⟨{ f with status := observedStatus f svc dep now }, by simp [updateStatus],
                  rfl, rfl, .inr ⟨⟨svc, by simp [updateStatus], selector⟩, healthy, published⟩⟩,
                .inr ⟨svc, by simp [updateStatus], selector⟩,
                .inr ⟨dep, by simp [updateStatus], labels⟩⟩

-----------------------------------------------------------------------------------------
-- Whom an endpoint names
-----------------------------------------------------------------------------------------

/-- Texts up to their first dot are the same when the texts are. -/
theorem eq_of_dotted {left right : String} {rest rest' : List Char} (leftLabel : DnsLabel left)
    (rightLabel : DnsLabel right) (same : left.toList ++ '.' :: rest = right.toList ++ '.' :: rest')
    : left = right ∧ rest = rest' := by
  rcases Text.append_cons_eq_append_cons_iff.mp same with
    ⟨names, -, rests⟩ | ⟨gap, names, -⟩ | ⟨gap, names, -⟩
  · exact ⟨String.toList_inj.mp names, rests⟩
  · exact absurd (names ▸ by simp) rightLabel
  · exact absurd (names ▸ by simp) leftLabel

theorem toList_serviceEndpoint (name «namespace» : String) (port : Int)
    : (serviceEndpoint name «namespace» port).toList
      = name.toList
        ++ '.' :: («namespace».toList
          ++ '.' :: ("svc.cluster.local:".toList ++ (toString port).toList)) := by
  simp [serviceEndpoint]

/-- An endpoint dials the Service of one name. -/
theorem Fleet.Dials.unique {endpoint : String} {key other : NamespacedName} {port port' : Int}
    (dials : Fleet.Dials endpoint key port) (dials' : Fleet.Dials endpoint other port')
    : key = other := by
  obtain ⟨name, ns, rfl⟩ := dials
  obtain ⟨name', ns', same⟩ := dials'
  have texts := congrArg String.toList same
  rw [toList_serviceEndpoint, toList_serviceEndpoint] at texts
  obtain ⟨names, rest⟩ := eq_of_dotted name name' texts
  obtain ⟨namespaces, -⟩ := eq_of_dotted ns ns' rest
  cases key
  cases other
  exact congrArg₂ _ namespaces names

-----------------------------------------------------------------------------------------
-- The invariant
-----------------------------------------------------------------------------------------

/-- Whatever Feature the labels name, it is that of the name. -/
def Marks (labels : Dict String String) (name : String) : Prop :=
  ∀ value, labels.get? featureLabel = some value → value = name

/-- The Service selects the pods that are labelled with a Feature's name. -/
def Service.Selects (svc : Service) (name : String) : Prop :=
  svc.selector.get? featureLabel = some name

namespace Fleet

/-- What is admitted of everyone: Features only use names of theirs, in namespaces that are labels
of DNS; others make Services of these names select the Features' pods, and label no Deployment's
pods as those of another Feature; and Services are stored only under labels of DNS.
-/
def Admitted (inUse : NamespacedName → Prop) : Event → Prop
  | .change key (.apply _) => inUse key ∧ DnsLabel key.namespace
  | .change key (.objects service deployment) =>
      (inUse key → ∀ svc ∈ service, svc.Selects key.name)
      ∧ ∀ dep ∈ deployment, Marks dep.templateLabels key.name
  | .change key (.reconcile faults _) => DnsLabel key.name ∨ faults.service.isSome
  | _ => True

/-- A Feature is stored under its name, in use. -/
structure Named (inUse : NamespacedName → Prop) (key : NamespacedName) (f : Feature) : Prop where
  inUse : inUse key
  label : DnsLabel key.namespace
  name : f.name = key.name
  «namespace» : f.namespace = key.namespace

/-- A cluster before any reconcile and any call: no Feature has a status, and no Deployment,
template or pod is labelled as that of another Feature.
-/
structure Starts (inUse : NamespacedName → Prop) (fleet : Fleet) : Prop where
  features : ∀ key, ∀ f ∈ (fleet.clusters key).feature, Named inUse key f ∧ f.status = {}
  deployments
    : ∀ key, ∀ dep ∈ (fleet.clusters key).deployment, Marks dep.templateLabels key.name
  templates : ∀ pod ∈ fleet.templates, Marks pod.labels pod.deployment.name
  pods : ∀ pod ∈ fleet.pods, Marks pod.labels pod.deployment.name
  quiet : fleet.held = [] ∧ fleet.connections = [] ∧ fleet.reached = []

variable {inUse : NamespacedName → Prop} {featuresNamespace : String}

/-- What holds of the objects of one name at any time. Once an endpoint of the name is published, or
a call of the name has one, its Service selects the pods of the name.
-/
structure Intact (inUse : NamespacedName → Prop) (key : NamespacedName) (called : Prop)
    (cluster : Cluster)
    : Prop where
  feature
    : ∀ f ∈ cluster.feature,
        Named inUse key f ∧ ∀ endpoint ∈ f.endpoint, ∃ port, Dials endpoint key port
  service
    : (∃ f ∈ cluster.feature, f.endpoint.isSome) ∨ called
      → ∀ svc ∈ cluster.service, svc.Selects key.name
  deployment : ∀ dep ∈ cluster.deployment, Marks dep.templateLabels key.name

theorem mem_endpoint {f : Feature} {endpoint : String} (published : endpoint ∈ f.endpoint)
    : endpoint = f.status.endpoint := by
  simp only [Feature.endpoint, Gateway.crStatus, given, Option.mem_def] at published
  split at published
  · next text known =>
      split at known
      · cases known
      · cases known
        split at published
        · cases published
        · exact (Option.some.inj published).symm
  · cases published

theorem endpoint_congr {f f' : Feature} (same : f'.status.endpoint = f.status.endpoint)
    : f'.endpoint = f.endpoint := by
  simp only [Feature.endpoint, Gateway.crStatus, same]

/-- A reconcile keeps the objects of its name intact. -/
theorem Intact.reconciled {key : NamespacedName} {called : Prop} {cluster after : Cluster}
    {f : Feature} {faults : Faults} (intact : Intact inUse key called cluster)
    (stored : cluster.feature = some f) (made : Reconciled f faults cluster after)
    (stores : DnsLabel key.name ∨ faults.service.isSome)
    : Intact inUse key called after := by
  obtain ⟨named, published⟩ := intact.feature f stored
  obtain ⟨f', stored', name, ns, endpoint⟩ := made.feature
  have labelled {svc : Service} (labels : svc.selector = labelsFor f) : svc.Selects key.name := by
    rw [Service.Selects, labels, get?_labelsFor, named.name]
  have only {g : Feature} (member : g ∈ after.feature) : g = f' :=
    Option.some.inj (member.symm.trans stored')
  refine ⟨fun g member => ?_, fun known svc member => ?_, fun dep member => ?_⟩
  · rw [only member]
    refine ⟨⟨named.inUse, named.label, name.trans named.name, ns.trans named.namespace⟩,
      fun published' inFeature => ?_⟩
    rcases endpoint with same | ⟨-, healthy, written⟩
    · rw [endpoint_congr same] at inFeature
      exact published _ inFeature
    · have label : DnsLabel key.name := stores.resolve_right (by simp [healthy])
      refine ⟨f.spec.port, label, named.label, ?_⟩
      rw [mem_endpoint inFeature, written, named.name, named.namespace]
  · rcases made.service with same | ⟨stored, isStored, labels⟩
    · rcases endpoint with unchanged | ⟨⟨other, isOther, labels⟩, -, -⟩
      · refine intact.service ?_ svc (same ▸ member)
        refine known.imp_left fun ⟨g, inAfter, shown⟩ => ⟨f, stored, ?_⟩
        rwa [only inAfter, endpoint_congr unchanged] at shown
      · cases Option.some.inj (member.symm.trans isOther)
        exact labelled labels
    · cases Option.some.inj (member.symm.trans isStored)
      exact labelled labels
  · rcases made.deployment with same | ⟨stored, isStored, labels⟩
    · exact intact.deployment dep (same ▸ member)
    · cases Option.some.inj (member.symm.trans isStored)
      intro value found
      rw [labels, get?_labelsFor] at found
      exact (Option.some.inj found).symm.trans named.name

variable (setControllerReference) in
/-- What is admitted of a change keeps the objects of its name intact. -/
theorem Intact.change {key : NamespacedName} {called : Prop} {cluster : Cluster} {made : Change}
    (intact : Intact inUse key called cluster) (used : called → inUse key)
    (admitted : Admitted inUse (.change key made))
    : Intact inUse key called (Operator.change setControllerReference key cluster made) := by
  cases made with
  | apply spec =>
      cases stored : cluster.feature with
      | none =>
          let applied : Feature :=
            { name := key.name, «namespace» := key.namespace, generation := 1, spec }
          have fresh : applied.endpoint = none := rfl
          simp only [Operator.change, stored]
          refine ⟨fun f member => ?_, fun known => intact.service (.inr (known.resolve_left ?_)),
            intact.deployment⟩
          · cases member
            refine ⟨⟨admitted.1, admitted.2, rfl, rfl⟩, fun endpoint published => ?_⟩
            rw [fresh] at published
            cases published
          · rintro ⟨f, member, published⟩
            cases member
            rw [fresh] at published
            cases published
      | some f =>
          obtain ⟨named, published⟩ := intact.feature f stored
          simp only [Operator.change, stored]
          refine ⟨fun f' member => ?_, fun known => intact.service (known.imp_left ?_),
            intact.deployment⟩
          · cases member
            exact ⟨⟨named.inUse, named.label, named.name, named.namespace⟩, published⟩
          · rintro ⟨f', member, shown⟩
            cases member
            exact ⟨f, stored, shown⟩
  | delete =>
      refine ⟨fun f member => absurd member (by simp [Operator.change]),
        fun known => intact.service (.inr (known.resolve_left (by simp [Operator.change]))),
        intact.deployment⟩
  | objects service deployment =>
      refine ⟨intact.feature, fun known => admitted.1 ?_, admitted.2⟩
      rcases known with ⟨f, member, -⟩ | call
      · exact (intact.feature f member).1.inUse
      · exact used call
  | reconcile faults now =>
      cases stored : cluster.feature with
      | none =>
          simp only [Operator.change, reconcile, stored]
          exact intact
      | some f => exact intact.reconciled stored (Operator.reconciled stored faults now) admitted

/-- A call of the name's Feature holds an endpoint. -/
def Called (featuresNamespace : String) (fleet : Fleet) (key : NamespacedName) : Prop :=
  key.namespace = featuresNamespace ∧ key.name ∈ fleet.held.map Prod.fst

/-- What holds of the cluster and its calls at any time: calls hold endpoints of their own features,
and connections lead to the pods of the name that their endpoint dials.
-/
structure Safe (inUse : NamespacedName → Prop) (featuresNamespace : String) (fleet : Fleet)
    : Prop where
  clusters : ∀ key, Intact inUse key (fleet.Called featuresNamespace key) (fleet.clusters key)
  templates : ∀ pod ∈ fleet.templates, Marks pod.labels pod.deployment.name
  pods : ∀ pod ∈ fleet.pods, Marks pod.labels pod.deployment.name
  held
    : ∀ call ∈ fleet.held,
        inUse ⟨featuresNamespace, call.1⟩
        ∧ ∃ port, Dials call.2 ⟨featuresNamespace, call.1⟩ port
  connections
    : ∀ connection ∈ fleet.connections,
        ∀ key port, Dials connection.1 key port → connection.2.deployment = key
  reached : ∀ call ∈ fleet.reached, call.2.deployment = ⟨featuresNamespace, call.1⟩

theorem Starts.safe {fleet : Fleet} (starts : fleet.Starts inUse)
    : fleet.Safe inUse featuresNamespace := by
  obtain ⟨held, connections, reached⟩ := starts.quiet
  have unpublished {key : NamespacedName} {f : Feature}
      (stored : f ∈ (fleet.clusters key).feature) : f.endpoint = none := by
    rw [Feature.endpoint, (starts.features key f stored).2]
    rfl
  refine {
    clusters := fun key => {
      feature := fun f stored => ⟨(starts.features key f stored).1, ?_⟩
      service := fun known => ?_
      deployment := starts.deployments key }
    templates := starts.templates
    pods := starts.pods
    held := by simp [held]
    connections := by simp [connections]
    reached := by simp [reached] }
  · intro endpoint published
    rw [unpublished stored] at published
    cases published
  · rcases known with ⟨f, stored, published⟩ | ⟨-, called⟩
    · simp [unpublished stored] at published
    · simp [held] at called

/-- A called name is in use. -/
theorem Safe.used {fleet : Fleet} (safe : fleet.Safe inUse featuresNamespace)
    {key : NamespacedName} (called : fleet.Called featuresNamespace key)
    : inUse key := by
  obtain ⟨ns, member⟩ := called
  obtain ⟨call, inHeld, name⟩ := List.mem_map.mp member
  cases key
  cases ns
  cases name
  exact (safe.held call inHeld).1

/-- A channel connects to pods of the name that its endpoint dials only. Witness: the endpoint is
that of a call, whose Service selects the pods of its name.
-/
theorem Safe.routed {fleet : Fleet} (safe : fleet.Safe inUse featuresNamespace)
    {endpoint : String} {key : NamespacedName} {port : Int} {svc : Service} {pod : Pod}
    (held : endpoint ∈ fleet.held.map Prod.snd) (dials : Dials endpoint key port)
    (stored : (fleet.clusters key).service = some svc) (member : pod ∈ fleet.pods)
    (local' : pod.deployment.namespace = key.namespace) (routes : svc.RoutesTo port pod)
    : pod.deployment = key := by
  obtain ⟨call, inHeld, rfl⟩ := List.mem_map.mp held
  obtain ⟨-, port', own⟩ := safe.held call inHeld
  cases own.unique dials
  have called : fleet.Called featuresNamespace ⟨featuresNamespace, call.1⟩ :=
    ⟨rfl, List.mem_map_of_mem inHeld⟩
  have selects := (safe.clusters _).service (.inr called) svc stored
  have labelled := routes.2.1 _ (Dict.get?_eq_some_iff.mp selects)
  have name := safe.pods pod member _ labelled
  cases pod with
  | mk deployment labels containers =>
      cases deployment
      exact congrArg₂ _ local' name.symm

/-- A call that resolved the endpoint of its Feature keeps the fleet safe. Witness: the endpoint was
published, so the Service already selects the pods of the name.
-/
theorem Safe.resolve {fleet : Fleet} (safe : fleet.Safe inUse featuresNamespace)
    {feature endpoint : String} {f : Feature}
    (stored : f ∈ (fleet.clusters ⟨featuresNamespace, feature⟩).feature)
    (published : endpoint ∈ f.endpoint)
    : Safe inUse featuresNamespace { fleet with held := fleet.held ++ [(feature, endpoint)] } := by
  obtain ⟨named, endpoints⟩ := (safe.clusters _).feature f stored
  refine {
    clusters := fun key => {
      feature := (safe.clusters key).feature
      service := fun known => (safe.clusters key).service ?_
      deployment := (safe.clusters key).deployment }
    templates := safe.templates
    pods := safe.pods
    held := fun call member => ?_
    connections := safe.connections
    reached := safe.reached }
  · rcases known with shown | ⟨ns, called⟩
    · exact .inl shown
    · rw [List.map_append, List.mem_append] at called
      rcases called with earlier | now
      · exact .inr ⟨ns, earlier⟩
      · cases key
        cases ns
        cases List.mem_singleton.mp now
        exact .inl ⟨f, stored, Option.isSome_iff_exists.mpr ⟨endpoint, published⟩⟩
  · rcases List.mem_append.mp member with earlier | now
    · exact safe.held call earlier
    · cases List.mem_singleton.mp now
      exact ⟨named.inUse, endpoints endpoint published⟩

variable (setControllerReference) in
/-- Every admitted event keeps the fleet safe. -/
theorem Safe.step {fleet : Fleet} (safe : fleet.Safe inUse featuresNamespace) {event : Event}
    (admitted : Admitted inUse event)
    : (Fleet.step setControllerReference featuresNamespace fleet event).Safe inUse
        featuresNamespace := by
  cases event with
  | change key made =>
      have changed := (safe.clusters key).change setControllerReference safe.used admitted
      refine {
        clusters := fun other => ?_
        templates := fun pod member => ?_
        pods := safe.pods
        held := safe.held
        connections := safe.connections
        reached := safe.reached }
      · change Intact inUse other (fleet.Called featuresNamespace other)
          (Function.update fleet.clusters key
            (Operator.change setControllerReference key (fleet.clusters key) made) other)
        by_cases same : other = key
        · subst same
          simpa only [Function.update_self] using changed
        · simpa only [Function.update_of_ne same] using safe.clusters other
      · rcases List.mem_append.mp member with earlier | now
        · exact safe.templates pod earlier
        · obtain ⟨dep, stored, rfl⟩ := Option.map_eq_some_iff.mp (Option.mem_toList.mp now)
          exact changed.deployment dep stored
  | rollout template =>
      refine { safe with pods := fun pod member => ?_ }
      rcases List.mem_append.mp member with earlier | now
      · exact safe.pods pod earlier
      · exact safe.templates pod (List.mem_of_getElem? (Option.mem_toList.mp now))
  | evict pod =>
      exact { safe with
        pods := fun other member => safe.pods other (List.mem_of_mem_eraseIdx member) }
  | resolve feature =>
      simp only [Fleet.step]
      split
      · next endpoint found =>
          obtain ⟨f, stored, published⟩ := Option.bind_eq_some_iff.mp found
          exact safe.resolve stored published
      · exact safe
  | connect endpoint key port index =>
      simp only [Fleet.step]
      split
      · next svc pod stored at' =>
          split
          · next possible =>
              obtain ⟨held, dials, local', routes⟩ := possible
              refine { safe with connections := fun connection member => ?_ }
              rcases List.mem_append.mp member with earlier | now
              · exact safe.connections connection earlier
              · cases List.mem_singleton.mp now
                intro other port' dials'
                cases dials'.unique dials
                exact safe.routed held dials stored (List.mem_of_getElem? at') local' routes
          · exact safe
      · exact safe
  | deliver feature endpoint index =>
      simp only [Fleet.step]
      split
      · next dialed pod at' =>
          split
          · next possible =>
              obtain ⟨held, rfl⟩ := possible
              refine { safe with reached := fun call member => ?_ }
              rcases List.mem_append.mp member with earlier | now
              · exact safe.reached call earlier
              · cases List.mem_singleton.mp now
                obtain ⟨-, port, dials⟩ := safe.held _ held
                exact safe.connections _ (List.mem_of_getElem? at') _ port dials
          · exact safe
      · exact safe

/-- In every run of applied and deleted Features, reconciles that may fail anywhere, changes that
others make within their bounds, pods that come and go, and calls whose endpoints and connections
may be out of date, a call of a feature reaches pods of that feature's own Deployment only.
-/
theorem calls_reachOwn (setControllerReference : SetControllerReference)
    {inUse : NamespacedName → Prop} (featuresNamespace : String) {fleet : Fleet}
    (starts : fleet.Starts inUse) {events : List Event}
    (admitted : ∀ event ∈ events, Admitted inUse event)
    : ∀ call ∈ (Transitions.run (Fleet.step setControllerReference featuresNamespace) fleet
          events).reached,
        call.2.deployment = ⟨featuresNamespace, call.1⟩ := by
  have safe : Safe inUse featuresNamespace
      (Transitions.run (Fleet.step setControllerReference featuresNamespace) fleet events) :=
    Transitions.run_invariant_of
      (fun _ _ admitted safe => safe.step setControllerReference admitted) starts.safe admitted
  exact safe.reached

/-- A cluster without Features. -/
def vacant : Fleet where
  clusters _ := { feature := none }

/-- A Feature is applied and reconciled, and a call reaches its pod after its port was edited. -/
def echoCall : List Event :=
  let key : NamespacedName := ⟨"features", "echo"⟩
  let endpoint := "echo.features.svc.cluster.local:9090"
  [.change key (.apply { image := "echo:1" }), .change key (.reconcile {} 0), .rollout 0,
    .resolve "echo", .connect endpoint key 9090 0,
    .change key (.apply { image := "echo:2", port := 80 }), .change key (.reconcile {} 1),
    .deliver "echo" endpoint 0]

/-- The call reaches the pod of its feature. -/
theorem calls_reachOwn_echo
    : ∃ call,
        (Transitions.run (Fleet.step setOwner "features") vacant echoCall).reached = [call]
        ∧ call.1 = "echo"
        ∧ call.2.deployment = ⟨"features", "echo"⟩ := by
  have features :
      (Transitions.run (Fleet.step setOwner "features") vacant echoCall).reached.map Prod.fst
        = ["echo"] := by
    decide
  obtain ⟨call, reached, name⟩ := List.map_eq_singleton_iff.mp features
  have starts : vacant.Starts fun key => key = ⟨"features", "echo"⟩ :=
    ⟨fun _ _ stored => (by cases stored), fun _ _ stored => (by cases stored),
      fun _ none => absurd none List.not_mem_nil, fun _ none => absurd none List.not_mem_nil,
      rfl, rfl, rfl⟩
  have admitted : ∀ event ∈ echoCall, Admitted (fun key => key = ⟨"features", "echo"⟩) event := by
    have named : DnsLabel "echo" := by decide
    have label : DnsLabel "features" := by decide
    simp [echoCall, Admitted, named, label]
  have own := calls_reachOwn setOwner "features" starts admitted call
    (reached ▸ List.mem_singleton_self call)
  exact ⟨call, reached, name, own.trans (by rw [name])⟩

end Fleet

end Operator

end AgentFeatures
