import AgentFeatures.Catalog.Listing
import AgentFeatures.Library.Selection

/-! The catalog of a cluster: Feature custom resources mapped to features. -/

namespace AgentFeatures

open Library

/-- The fields of a resource's spec that the gateway reads. -/
structure CrSpec where
  description : Option String := none
  tags : Option (List String) := none
  inputSchema : Option String := none
  outputSchema : Option String := none
  visibility : Option String := none
  protocol : Option String := none
  vendor : Option String := none
  capability : Option String := none
  trust : Option String := none

structure CrStatus where
  phase : Option String := none
  endpoint : Option String := none

/-- A Feature custom resource as the API returns it. -/
structure FeatureCr where
  name : String
  spec : Option CrSpec := none
  status : Option CrStatus := none

/-- The resource passes the CRD's schema: its enumerated fields have listed values. -/
structure FeatureCr.Accepted (cr : FeatureCr) : Prop where
  visibility
    : ∀ spec ∈ cr.spec, ∀ value ∈ spec.visibility, value ∈ ["Public", "Internal", "Private"]
  protocol : ∀ spec ∈ cr.spec, ∀ value ∈ spec.protocol, value ∈ ["grpc", "http"]
  trust : ∀ spec ∈ cr.spec, ∀ value ∈ spec.trust, value ∈ ["Official", "Verified", "Community"]
  phase
    : ∀ status ∈ cr.status, ∀ value ∈ status.phase,
        value ∈ ["Pending", "Provisioning", "Ready", "Failed"]

/-- `_VISIBILITY.get(text, Visibility.PUBLIC)`. -/
def visibilityOf : String → Visibility
  | "Internal" => .internal
  | "Private" => .private
  | _ => .public

/-- `_TRUST.get(text, TrustTier.COMMUNITY)`. -/
def trustOf : String → TrustTier
  | "Official" => .official
  | "Verified" => .verified
  | _ => .community

/-- `_PHASE.get(text, Phase.PENDING)`. -/
def phaseOf : String → Phase
  | "Provisioning" => .provisioning
  | "Ready" => .ready
  | "Failed" => .failed
  | _ => .pending

/-- `FeatureProtocol(text)`; `none` where it raises. -/
def protocolOf : String → Option Protocol
  | "grpc" => some .grpc
  | "http" => some .http
  | _ => none

/-- A value for a field of type `dict[str, Any]`; `none` where its validation raises. -/
def Json.dict? : Json → Option (Dict String Json)
  | obj fields => some (.ofList fields)
  | _ => none

namespace KubernetesCatalog

variable (loads : String → Option Json)

/-- `json.loads(text) if text else {}`, as a schema of a manifest. -/
def schemaOf (text : Option String) : Option (Dict String Json) :=
  match given text with
  | some text => (loads text).bind Json.dict?
  | none => some ∅

/-- A capability that defaults to the name is empty only with an empty name. -/
theorem eq_empty_of_capability {capability : Option String} {name : String}
    (empty : (given capability).getD name = "")
    : name = "" := by
  cases capability with
  | none => exact empty
  | some text =>
      by_cases blank : text = ""
      · simpa [given, blank] using empty
      · simp [given, blank] at empty

/-- `feature_from_cr`; `none` where it raises. -/
def featureFromCr (cr : FeatureCr) : Option Feature := do
  let spec := cr.spec.getD {}
  let status := cr.status.getD {}
  let inputSchema ← schemaOf loads spec.inputSchema
  let outputSchema ← schemaOf loads spec.outputSchema
  let protocol ← protocolOf (spec.protocol.getD "grpc")
  return {
    manifest := {
      name := cr.name
      description := spec.description.getD ""
      tags := spec.tags.getD []
      inputSchema
      outputSchema
      visibility := visibilityOf (spec.visibility.getD "Public")
      protocol
      vendor := spec.vendor.getD "community"
      capability := (given spec.capability).getD cr.name
      trust := trustOf (spec.trust.getD "Community")
      defaultCapability := eq_empty_of_capability }
    phase := phaseOf (status.phase.getD "Pending")
    endpoint := status.endpoint }

/-- `list()`; `none` where it raises. -/
def list (items : List FeatureCr) : Option (List Feature) :=
  (items.mapM (featureFromCr loads)).map InMemoryCatalog.sortedByName

/-- A mapped resource is a feature of its name. -/
theorem name_of_featureFromCr {cr : FeatureCr} {feature : Feature}
    (mapped : featureFromCr loads cr = some feature)
    : feature.manifest.name = cr.name := by
  simp only [featureFromCr, Option.bind_eq_bind, Option.bind_eq_some_iff] at mapped
  obtain ⟨input, -, output, -, protocol, -, same⟩ := mapped
  cases same
  rfl

/-- Among resources with distinct names each is found under its own, by list induction. -/
theorem find?_name {items : List FeatureCr} (distinct : (items.map FeatureCr.name).Nodup)
    {cr : FeatureCr} (member : cr ∈ items)
    : items.find? (fun other => other.name = cr.name) = some cr := by
  induction items with
  | nil => cases member
  | cons first rest ih =>
      obtain ⟨fresh, distinct⟩ := List.nodup_cons.mp distinct
      rcases List.mem_cons.mp member with rfl | member
      · simp
      · have differs : first.name ≠ cr.name :=
          fun same => fresh (same ▸ List.mem_map_of_mem member)
        rw [List.find?_cons_of_neg (by simpa using differs), ih distinct member]

/-- The catalog over resources that all map: `get` fetches by name, and everything else goes
over `list()`.
-/
def publishedCatalog {items : List FeatureCr} {features : List Feature}
    (mapped : items.mapM (featureFromCr loads) = some features)
    (distinct : (items.map FeatureCr.name).Nodup)
    : PublishedCatalog where
  list := InMemoryCatalog.sortedByName features
  get name := (items.find? fun cr => cr.name = name).bind (featureFromCr loads)
  get_of_mem feature member := by
    rw [InMemoryCatalog.sortedByName, List.mem_insertionSort] at member
    obtain ⟨cr, inItems, known⟩ := exists_of_mapM mapped member
    rw [name_of_featureFromCr loads known, find?_name distinct inItems]
    exact known
  name_of_get name feature found := by
    obtain ⟨cr, fetched, known⟩ := Option.bind_eq_some_iff.mp found
    rw [name_of_featureFromCr loads known]
    simpa using List.find?_some fetched
  published := InMemoryCatalog.sortedByName features
  list_eq := (InMemoryCatalog.sortedByName_sortedByName features).symm

/-- Listing does not raise, and contains every resource whose own mapping succeeds. -/
def ListsMapped (items : List FeatureCr) : Prop :=
  ∃ features,
    list loads items = some features
    ∧ ∀ cr ∈ items, ∀ feature, featureFromCr loads cr = some feature → feature ∈ features

/-- A schema text is empty or the JSON text of an object. -/
def Readable (text : Option String) : Prop :=
  ∀ written ∈ given text, ∃ fields, loads written = some (.obj fields)

/-- Both schema texts of the resource are readable. -/
def ReadableSchemas (cr : FeatureCr) : Prop :=
  ∀ spec ∈ cr.spec, Readable loads spec.inputSchema ∧ Readable loads spec.outputSchema

variable {loads}

/-- A schema is read exactly from a readable text. -/
theorem schemaOf_isSome_iff {text : Option String}
    : (schemaOf loads text).isSome ↔ Readable loads text := by
  unfold schemaOf Readable
  cases given text with
  | none => simp
  | some written =>
      cases loaded : loads written with
      | none => simp [loaded]
      | some value => cases value <;> simp [loaded, Json.dict?]

/-- An accepted protocol converts. -/
theorem protocolOf_isSome {cr : FeatureCr} (accepted : cr.Accepted)
    : (protocolOf ((cr.spec.getD {}).protocol.getD "grpc")).isSome := by
  cases present : cr.spec with
  | none => rfl
  | some spec =>
      cases chosen : spec.protocol with
      | none => simp [chosen, protocolOf]
      | some value =>
          have listed := accepted.protocol spec present value chosen
          rcases List.mem_pair.mp listed with rfl | rfl <;> simp [chosen, protocolOf]

/-- An accepted resource maps exactly when its schema texts are readable. -/
theorem featureFromCr_isSome_iff {cr : FeatureCr} (accepted : cr.Accepted)
    : (featureFromCr loads cr).isSome ↔ ReadableSchemas loads cr := by
  obtain ⟨protocol, converted⟩ := Option.isSome_iff_exists.mp (protocolOf_isSome accepted)
  have readable
      : ReadableSchemas loads cr
        ↔ (schemaOf loads (cr.spec.getD {}).inputSchema).isSome
          ∧ (schemaOf loads (cr.spec.getD {}).outputSchema).isSome := by
    rw [schemaOf_isSome_iff, schemaOf_isSome_iff, ReadableSchemas]
    cases cr.spec with
    | none => simp [Readable, given]
    | some spec => simp
  rw [readable, featureFromCr]
  cases schemaOf loads (cr.spec.getD {}).inputSchema with
  | none => simp
  | some input =>
      cases schemaOf loads (cr.spec.getD {}).outputSchema with
      | none => simp
      | some output => simp [converted]

/-- Listing accepted resources keeps every one that maps iff all their schema texts are readable:
one that is not makes the listing raise. Witness: the mapping of a list fails with any item.
-/
theorem listsMapped_iff {items : List FeatureCr} (accepted : ∀ cr ∈ items, cr.Accepted)
    : ListsMapped loads items ↔ ∀ cr ∈ items, ReadableSchemas loads cr := by
  constructor
  · intro lists cr member
    obtain ⟨features, listed, -⟩ := lists
    obtain ⟨mapped, each, -⟩ := Option.map_eq_some_iff.mp listed
    have all := mapM_isSome_iff.mp (Option.isSome_iff_exists.mpr ⟨mapped, each⟩)
    exact (featureFromCr_isSome_iff (accepted cr member)).mp (all cr member)
  · intro readable
    obtain ⟨mapped, each⟩ := Option.isSome_iff_exists.mp (mapM_isSome_iff.mpr
      fun cr member => (featureFromCr_isSome_iff (accepted cr member)).mpr (readable cr member))
    refine ⟨_, by rw [list, each, Option.map_some], ?_⟩
    intro cr member feature known
    rw [InMemoryCatalog.sortedByName, List.mem_insertionSort]
    exact mem_of_mapM each member known

/-- One resource whose input schema is the empty object is listed. -/
theorem listsMapped_echo
    : let loads : String → Option Json :=
        fun text => if text = "{}" then some (.obj []) else none
      let echo : FeatureCr := ⟨"echo", some { inputSchema := some "{}" }, none⟩
      ListsMapped loads [echo] ↔ ∀ cr ∈ [echo], ReadableSchemas loads cr := by
  intro loads echo
  refine listsMapped_iff fun cr member => ?_
  rw [List.mem_singleton.mp member]
  exact ⟨by simp [echo], by simp [echo], by simp [echo], by simp [echo]⟩

/-- A resource with a schema that is no JSON text hides the good one beside it. -/
theorem brokenSchema_breaks_list
    : ¬ ∀ (loads : String → Option Json) (items : List FeatureCr),
        (∀ cr ∈ items, cr.Accepted) → ListsMapped loads items := by
  intro all
  have accepted
      : ∀ cr ∈ [(⟨"echo", none, none⟩ : FeatureCr),
            ⟨"broken", some { inputSchema := some "type: object" }, none⟩],
          cr.Accepted := by
    intro cr member
    rcases List.mem_pair.mp member with rfl | rfl
    all_goals constructor <;> simp
  obtain ⟨features, listed, -⟩ := all (fun _ => none) _ accepted
  cases listed

end KubernetesCatalog

end AgentFeatures
