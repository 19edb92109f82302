import AgentFeatures.AgentDsl.Composites
import AgentFeatures.Catalog.Kubernetes
import AgentFeatures.Console.JavaScript
import AgentFeatures.Gateway.Handlers

/-! The console's flow builder: opening a composite, and publishing what the builder shows. -/

namespace AgentFeatures

open Library

/-- The references of a step or an output as a JSON object. -/
def Json.ofRefs (refs : Dict String String) : Json :=
  obj (refs.entries.map fun entry => (entry.1, str entry.2))

/-- A value for a field of type `str`; `none` where its validation raises. -/
def Json.str? : Json → Option String
  | str text => some text
  | _ => none

/-- A value for a field of type `dict[str, str]`; `none` where its validation raises. -/
def Json.refs? : Json → Option (Dict String String)
  | obj fields =>
      (fields.mapM fun (field : String × Json) =>
        field.2.str?.map fun text => (field.1, text)).map Dict.ofList
  | _ => none

namespace Console

/-- An entry of `FLOW_STEPS`. -/
structure FlowStep where
  name : String
  capability : String
  vendor : Option String
  version : Option String
  inputs : String

/-- What the flow builder's elements show, and `FLOW_STEPS`. -/
structure FlowBuilder where
  flowName : String
  flowDesc : String
  flowInput : String
  flowOutput : String
  flowSteps : List FlowStep

/-- A step of the spec that `buildSpec` returns. -/
structure SpecStep where
  name : String
  capability : String
  inputs : Json

/-- The spec that `buildSpec` returns. -/
structure Spec where
  name : String
  description : String
  inputSchema : Json
  steps : List SpecStep
  output : Json

/-- The value of a one-line text field after it is set: without line breaks. -/
def fieldValue (text : String) : String :=
  .ofList (text.toList.filter fun c => c != '\n' && c != '\r')

variable (numbers : Numbers)

/-- `loadComposite`, on the composite that `GET /composites/{name}` returns. -/
def loadComposite (c : Composite) : FlowBuilder where
  flowName := fieldValue c.name
  flowDesc := fieldValue c.description
  flowInput := stringify numbers 2 (.ofDict c.inputSchema)
  flowOutput := stringify numbers 2 (.ofRefs c.output)
  flowSteps := c.steps.map fun s => {
    name := s.name
    capability := s.capability
    vendor := s.vendor
    version := s.version
    inputs := stringify numbers 0 (.ofRefs s.inputs) }

/-- `buildSpec`; `none` where it throws. -/
def buildSpec (builder : FlowBuilder) : Option Spec := do
  let steps ← builder.flowSteps.mapM fun s =>
    (parseOrEmpty numbers s.inputs).map fun inputs =>
      ({ name := s.name, capability := s.capability, inputs } : SpecStep)
  let inputSchema ← parseOrEmpty numbers builder.flowInput
  let output ← parseOrEmpty numbers builder.flowOutput
  return {
    name := trim builder.flowName
    description := trim builder.flowDesc
    inputSchema
    steps
    output }

/-- A posted step as a `Step`; `none` where its validation raises. -/
def SpecStep.validate (step : SpecStep) : Option Step :=
  step.inputs.refs?.map fun inputs => { name := step.name, capability := step.capability, inputs }

/-- A posted spec as a `Composite`, whose capability is left to default to its name; `none` where
its validation raises.
-/
def Spec.validate (spec : Spec) : Option Composite := do
  let inputSchema ← spec.inputSchema.dict?
  let steps ← spec.steps.mapM SpecStep.validate
  let output ← spec.output.refs?
  return {
    name := spec.name
    capability := spec.name
    description := spec.description
    inputSchema
    steps
    output
    defaultCapability := id }

/-- `publishComposite`: what `POST /compose` writes; `none` where nothing is published. -/
def publishComposite (builder : FlowBuilder) : Option Write := do
  let spec ← buildSpec numbers builder
  if spec.name = "" then none
  else
    let composite ← spec.validate
    return .publish composite

/-- Opening a composite of the registry and publishing it unchanged. -/
def republish (state : AppState) (name : String) : Option AppState := do
  let composite ← state.composites.get? name
  let change ← publishComposite numbers (loadComposite numbers composite)
  return change.apply state

-----------------------------------------------------------------------------------------
-- What is published again
-----------------------------------------------------------------------------------------

/-- The references of an object of references are the same. -/
theorem refs?_ofRefs (refs : Dict String String) : (Json.ofRefs refs).refs? = some refs := by
  have each : (refs.entries.map fun entry => (entry.1, Json.str entry.2)).mapM
      (fun field => field.2.str?.map fun text => (field.1, text))
      = some (refs.entries.map id) := by
    rw [List.mapM_map]
    exact mapM_of_eq_some fun _ _ => rfl
  rw [Json.ofRefs, Json.refs?, each, List.map_id, Option.map_some]
  exact congrArg some (Dict.ext (Dict.entries_ofList refs.nodup))

/-- Objects of references read back in every style. -/
theorem readsBack_ofRefs (style : JsonStyle) (number : Text → Option Json)
    (refs : Dict String String)
    : Json.ReadsBack style number (.ofRefs refs) := by
  refine .obj ?_ ?_
  · simpa [Function.comp_def] using refs.nodup
  · exact List.forall_mem_map.mpr fun entry _ => .str entry.2

/-- The entry that publishing an opened composite writes: the pins of its steps are gone. -/
@[simps]
def rebuilt (c : Composite) : Composite where
  name := trim (fieldValue c.name)
  capability := trim (fieldValue c.name)
  description := trim (fieldValue c.description)
  inputSchema := c.inputSchema
  steps := c.steps.map fun s => { s with vendor := none, version := none }
  output := c.output
  defaultCapability := id

variable {numbers}

/-- Opening a composite and building its spec. -/
theorem buildSpec_loadComposite {c : Composite}
    (schema : Json.ReadsBack (style numbers 2) numbers.read (.ofDict c.inputSchema))
    : buildSpec numbers (loadComposite numbers c)
      = some {
          name := trim (fieldValue c.name)
          description := trim (fieldValue c.description)
          inputSchema := .ofDict c.inputSchema
          steps := c.steps.map fun s =>
            { name := s.name, capability := s.capability, inputs := .ofRefs s.inputs }
          output := .ofRefs c.output } := by
  have refs (gap : Nat) (refs : Dict String String)
      : parseOrEmpty numbers (stringify numbers gap (.ofRefs refs)) = some (.ofRefs refs) :=
    parseOrEmpty_stringify (readsBack_ofRefs _ _ refs)
  have steps : (loadComposite numbers c).flowSteps.mapM (fun s =>
        (parseOrEmpty numbers s.inputs).map fun inputs =>
          ({ name := s.name, capability := s.capability, inputs } : SpecStep))
      = some (c.steps.map fun s =>
          { name := s.name, capability := s.capability, inputs := .ofRefs s.inputs }) := by
    rw [loadComposite, List.mapM_map]
    refine mapM_of_eq_some fun s _ => ?_
    simp [refs]
  rw [buildSpec, steps]
  simp [loadComposite, refs, parseOrEmpty_stringify schema]

/-- The spec of an opened composite passes its validation as the rebuilt entry. -/
theorem validate_spec (c : Composite)
    : Spec.validate {
          name := trim (fieldValue c.name)
          description := trim (fieldValue c.description)
          inputSchema := .ofDict c.inputSchema
          steps := c.steps.map fun s =>
            { name := s.name, capability := s.capability, inputs := .ofRefs s.inputs }
          output := .ofRefs c.output }
      = some (rebuilt c) := by
  have schema : (Json.ofDict c.inputSchema).dict? = some c.inputSchema :=
    congrArg some (Dict.ext (Dict.entries_ofList c.inputSchema.nodup))
  have steps : (c.steps.map fun s =>
        ({ name := s.name, capability := s.capability, inputs := .ofRefs s.inputs }
          : SpecStep)).mapM SpecStep.validate
      = some (c.steps.map fun s => { s with vendor := none, version := none }) := by
    rw [List.mapM_map]
    refine mapM_of_eq_some fun s _ => ?_
    simp [SpecStep.validate, refs?_ofRefs]
  simp only [Spec.validate, schema, steps, refs?_ofRefs]
  rfl

/-- Opening a registered composite with a name and publishing it writes the rebuilt entry. -/
theorem republish_eq {state : AppState} {c : Composite}
    (stored : state.composites.get? c.name = some c)
    (schema : Json.ReadsBack (style numbers 2) numbers.read (.ofDict c.inputSchema))
    (named : trim (fieldValue c.name) ≠ "")
    : republish numbers state c.name = some ((Write.publish (rebuilt c)).apply state) := by
  simp [republish, stored, publishComposite, buildSpec_loadComposite schema, named, validate_spec]

-----------------------------------------------------------------------------------------
-- Composites compiled from the agent DSL
-----------------------------------------------------------------------------------------

/-- Names have neither white space nor line breaks. -/
theorem plain_of_mem_name {name : AgentDsl.Name} {c : Char} (member : c ∈ name.string.toList)
    : isWhite c = false ∧ Text.isLineBreak c = false := by
  have inRef : AgentDsl.isRefChar c := by
    rw [AgentDsl.Word.string, String.toList_ofList, AgentDsl.Word.text, List.mem_cons] at member
    rcases member with rfl | later
    · exact AgentDsl.isRefChar_of_isNameChar (AgentDsl.isNameChar_of_isNameStart name.starts)
    · exact AgentDsl.isRefChar_of_isNameChar (name.continues c later)
  have ascii := AgentDsl.ascii_of_isRefChar inRef
  constructor
  · simp only [isWhite, Bool.or_eq_false_iff, Bool.and_eq_false_iff, decide_eq_false_iff_not,
      beq_eq_false_iff_ne]
    omega
  · simp only [Text.isLineBreak, Bool.or_eq_false_iff, Bool.and_eq_false_iff,
      decide_eq_false_iff_not, beq_eq_false_iff_ne]
    omega

/-- A text without line breaks stays as it is in a text field. -/
theorem fieldValue_eq {text : String} (unbroken : ∀ c ∈ text.toList, Text.isLineBreak c = false)
    : fieldValue text = text := by
  have all : text.toList.filter (fun c => c != '\n' && c != '\r') = text.toList := by
    refine List.filter_eq_self.mpr fun c member => ?_
    have ends := unbroken c member
    by_contra excluded
    simp only [Bool.and_eq_true, bne_iff_ne, not_and_or, not_not] at excluded
    rcases excluded with rfl | rfl <;> cases ends
  rw [fieldValue, all, String.ofList_toList]

/-- A name stays as it is. -/
theorem trim_fieldValue_name (name : AgentDsl.Name)
    : trim (fieldValue name.string) = name.string := by
  rw [fieldValue_eq fun c member => (plain_of_mem_name member).2, trim_eq_self_iff]
  exact ⟨fun c first => (plain_of_mem_name (List.mem_of_mem_head? first)).1,
    fun c last => (plain_of_mem_name (List.mem_of_getLast? last)).1⟩

section Schema

variable {style : JsonStyle} {number : Text → Option Json}

/-- An entry that reads back may be set. -/
theorem readsBack_set {dict : Dict String Json} {key : String} {value : Json}
    (old : ∀ field ∈ dict.entries, Json.ReadsBack style number field.2)
    (new : Json.ReadsBack style number value)
    : ∀ field ∈ (dict.set key value).entries, Json.ReadsBack style number field.2 := by
  intro field member
  rcases Dict.mem_entries_set member with inDict | rfl
  · exact old field inDict
  · exact new

/-- The schema of declared fields reads back in every style. -/
theorem readsBack_inputSchema {props : Dict String Json}
    (typed : ∀ field ∈ props.entries, ∃ type, field.2 = .obj [("type", .str type)])
    (required : List String)
    : Json.ReadsBack style number (.ofDict (AgentDsl.inputSchema props required)) := by
  have fields : ∀ field ∈ props.entries, Json.ReadsBack style number field.2 := by
    intro field member
    obtain ⟨type, same⟩ := typed field member
    simpa only [same] using Json.ReadsBack.obj (by simp) (by simpa using .str type)
  have initial : ∀ field ∈ (Dict.empty : Dict String Json).entries,
      Json.ReadsBack style number field.2 := by
    simp [Dict.empty]
  have started := @readsBack_set style number _ "type" _ initial (.str "object")
  have schema := @readsBack_set style number _ "properties" _ started (.obj props.nodup fields)
  refine .obj (Dict.nodup _) ?_
  unfold AgentDsl.inputSchema
  split
  · exact schema
  · exact readsBack_set schema (.arr (List.forall_mem_map.mpr fun name _ => .str name))

end Schema

/-- What the builder carries without loss: it keeps the name, the description has no line
breaks, the schema reads back, and no step has a version to drop.
-/
structure Carried (numbers : Numbers) (c : Composite) : Prop where
  named : c.name ≠ ""
  name : trim (fieldValue c.name) = c.name
  description : fieldValue c.description = c.description
  schema : Json.ReadsBack (style numbers 2) numbers.read (.ofDict c.inputSchema)
  unversioned : ∀ s ∈ c.steps, s.version = none

/-- Composites compiled from the agent DSL are carried. -/
theorem carried_of_compiled {text : String} {composite : Composite}
    (compiled : (AgentDsl.parse text).1 = some composite)
    : Carried numbers composite := by
  obtain ⟨declared, regular, ⟨name, named⟩, same⟩ := AgentDsl.exists_regular compiled
  have isName : composite.name = name.string := by
    rw [same, ← named]
    rfl
  exact {
    named := isName ▸ name.string_ne_empty
    name := by simpa only [isName] using trim_fieldValue_name name
    description := fieldValue_eq (same ▸ regular.description)
    schema := same ▸ readsBack_inputSchema regular.props _
    unversioned := same ▸ regular.steps }

/-- Publishing sets the entry under its name. -/
theorem composites_publish (state : AppState) (composite : Composite)
    : ((Write.publish composite).apply state).composites
      = state.composites.set composite.name composite := rfl

/-- After an opened composite was published, its name holds the rebuilt entry. -/
theorem Carried.exists_republished_iff {c : Composite} (carried : Carried numbers c)
    {state : AppState} (stored : state.composites.get? c.name = some c) (Good : Composite → Prop)
    : (∃ after entry,
        republish numbers state c.name = some after
        ∧ after.composites.get? c.name = some entry
        ∧ Good entry)
      ↔ Good (rebuilt c) := by
  have run := republish_eq stored carried.schema (by simpa only [carried.name] using carried.named)
  have key : (rebuilt c).name = c.name := carried.name
  have found : ((Write.publish (rebuilt c)).apply state).composites.get? c.name
      = some (rebuilt c) := by
    rw [composites_publish, key, Dict.get?_set_self]
  constructor
  · intro republished
    obtain ⟨after, entry, ran, held, good⟩ := republished
    rw [← Option.some.inj (run.symm.trans ran), found] at held
    rwa [Option.some.inj held]
  · intro good
    exact ⟨_, _, run, found, good⟩

/-- The entry says and runs the same as the composite. -/
structure Unaltered (composite entry : Composite) : Prop where
  name : entry.name = composite.name
  description : entry.description = composite.description
  inputSchema : entry.inputSchema = composite.inputSchema
  steps : entry.steps = composite.steps
  output : entry.output = composite.output

/-- Dropping the pins of steps without versions leaves them iff they have no vendors. -/
theorem map_unpinned_eq_self_iff {steps : List Step} (unversioned : ∀ s ∈ steps, s.version = none)
    : (steps.map fun s => { s with vendor := none, version := none }) = steps
      ↔ ∀ s ∈ steps, s.vendor = none := by
  have each (s : Step) (member : s ∈ steps)
      : ({ s with vendor := none, version := none } : Step) = id s ↔ s.vendor = none := by
    have version := unversioned s member
    cases s
    simp_all [eq_comm]
  nth_rewrite 2 [← List.map_id steps]
  rw [List.map_inj_left]
  exact forall₂_congr each

/-- The rebuilt entry is unaltered iff there was no vendor to drop and nothing to trim. -/
theorem Carried.unaltered_rebuilt_iff {c : Composite} (carried : Carried numbers c)
    : Unaltered c (rebuilt c) ↔ (∀ s ∈ c.steps, s.vendor = none) ∧ Trimmed c.description := by
  rw [← map_unpinned_eq_self_iff carried.unversioned, ← trim_eq_self_iff]
  constructor
  · intro same
    have description := same.description
    rw [rebuilt_description, carried.description] at description
    exact ⟨same.steps, description⟩
  · intro kept
    obtain ⟨steps, description⟩ := kept
    refine ⟨carried.name, ?_, rebuilt_inputSchema c, steps, rebuilt_output c⟩
    rw [rebuilt_description, carried.description, description]

/-- Publishing an opened composite of the agent DSL leaves it unaltered iff no step pins a
vendor and no white space stands at the ends of its description. Witness: the spec has no pins,
its texts are trimmed, and everything else reads back.
-/
theorem republish_unaltered_iff (numbers : Numbers) {text : String} {composite : Composite}
    (compiled : (AgentDsl.parse text).1 = some composite) {state : AppState}
    (stored : state.composites.get? composite.name = some composite)
    : (∃ after entry,
        republish numbers state composite.name = some after
        ∧ after.composites.get? composite.name = some entry
        ∧ Unaltered composite entry)
      ↔ (∀ step ∈ composite.steps, step.vendor = none) ∧ Trimmed composite.description := by
  have carried := @carried_of_compiled numbers _ _ compiled
  rw [carried.exists_republished_iff stored, carried.unaltered_rebuilt_iff]

/-- Numbers that no text of these examples has. -/
def noNumbers : Numbers where
  int _ := []
  float _ := []
  read _ := none

/-- A registry with one composite. -/
def holding (composite : Composite) : AppState where
  store := ∅
  composites := Dict.empty.set composite.name composite

/-- An agent without pins. -/
def plainAgent : String := "agent a\nstep s = c()"

/-- Publishing the agent without pins again leaves it unaltered. -/
theorem plainAgent_unaltered
    : ∃ composite,
        (AgentDsl.parse plainAgent).1 = some composite
        ∧ ∃ after entry,
            republish noNumbers (holding composite) composite.name = some after
            ∧ after.composites.get? composite.name = some entry
            ∧ Unaltered composite entry := by
  have accepted : (AgentDsl.parse plainAgent).1.isSome := by decide +kernel
  obtain ⟨composite, compiled⟩ := Option.isSome_iff_exists.mp accepted
  have declared : (AgentDsl.parse plainAgent).1.map
      (fun c => (c.steps.map Step.vendor, c.description)) = some ([none], "") := by
    decide +kernel
  simp only [compiled, Option.map_some, Option.some.injEq, Prod.mk.injEq] at declared
  obtain ⟨vendors, blank⟩ := declared
  have stored := Dict.get?_set_self Dict.empty composite.name composite
  refine ⟨composite, compiled, (republish_unaltered_iff noNumbers compiled stored).mpr ⟨?_, ?_⟩⟩
  · intro step member
    have listed := List.mem_map_of_mem (f := Step.vendor) member
    rwa [vendors, List.mem_singleton] at listed
  · rw [blank]
    exact ⟨by simp, by simp⟩

/-- An agent that pins a vendor. -/
def pinnedAgent : String := "agent a\nstep s = c@acme()"

/-- Publishing the pinned agent again drops its pin. -/
theorem pinnedAgent_altered
    : ¬ ∀ (numbers : Numbers) (text : String) (composite : Composite) (state : AppState),
        (AgentDsl.parse text).1 = some composite
        → state.composites.get? composite.name = some composite
        → ∃ after entry,
            republish numbers state composite.name = some after
            ∧ after.composites.get? composite.name = some entry
            ∧ Unaltered composite entry := by
  intro all
  have accepted : (AgentDsl.parse pinnedAgent).1.isSome := by decide +kernel
  obtain ⟨composite, compiled⟩ := Option.isSome_iff_exists.mp accepted
  have declared : (AgentDsl.parse pinnedAgent).1.map (fun c => c.steps.map Step.vendor)
      = some [some "acme"] := by
    decide +kernel
  simp only [compiled, Option.map_some, Option.some.injEq] at declared
  have stored := Dict.get?_set_self Dict.empty composite.name composite
  have carried := @carried_of_compiled noNumbers _ _ compiled
  have republished := all noNumbers pinnedAgent composite (holding composite) compiled stored
  rw [carried.exists_republished_iff stored, carried.unaltered_rebuilt_iff] at republished
  obtain ⟨step, member, pinned⟩ := List.mem_map.mp (declared ▸ List.mem_singleton_self _)
  simp [republished.1 step member] at pinned

end Console

end AgentFeatures
