import AgentFeatures.AgentDsl.Composites
import AgentFeatures.Composer.Progress

/-! References of accepted agents: what the parser leaves to the run. -/

namespace AgentFeatures

open Library

namespace AgentDsl

/-- Some line of the text declares the input. -/
def DeclaresInput (text : String) (field : String) : Prop :=
  ∃ entry ∈ statementLines text,
    ∃ name optional type, Writes (.input name optional type) entry.1 ∧ field = name.string

/-- The fields of an input schema. -/
def schemaFields (schema : Dict String Json) : List String :=
  match schema.get? "properties" with
  | some (.obj fields) => fields.map Prod.fst
  | _ => []

theorem schemaFields_inputSchema (props : Dict String Json) (required : List String)
    : schemaFields (inputSchema props required) = props.keys := by
  rw [schemaFields, get?_properties_inputSchema]
  rfl

/-- The properties are those of the input statements. Witness: induction on the statements. -/
theorem mem_props_foldl_apply {statements : List Statement} (known : ∀ s ∈ statements, s.Known)
    {state : ParseState} {field : String}
    : field ∈ (statements.foldl Statement.apply state).props.keys
      ↔ field ∈ state.props.keys
        ∨ ∃ name optional type, .input name optional type ∈ statements ∧ field = name.string := by
  induction statements generalizing state with
  | nil => simp
  | cons statement rest ih =>
      obtain ⟨here, later⟩ := List.forall_mem_cons.mp known
      rw [List.foldl_cons, ih later]
      cases statement with
      | input name optional type =>
          obtain ⟨knownType, found⟩ := Option.isSome_iff_exists.mp here
          have keys : (Statement.apply state (.input name optional type)).props.keys
              = (state.props.set name.string (.obj [("type", .str knownType)])).keys := by
            rw [Statement.apply, found]
            rfl
          rw [keys, Dict.mem_keys_set, or_assoc]
          refine or_congr_right ⟨?_, ?_⟩
          · intro either
            rcases either with same | ⟨other, optional, type, member, same⟩
            · exact ⟨name, optional, type, List.mem_cons_self, same⟩
            · exact ⟨other, optional, type, List.mem_cons_of_mem _ member, same⟩
          · intro found
            rcases found with ⟨other, optional, type, member, same⟩
            rcases List.mem_cons.mp member with isFirst | later
            · cases isFirst
              exact .inl same
            · exact .inr ⟨other, optional, type, later, same⟩
      | _ => simp [Statement.apply, parseDescription]

/-- The schema of an accepted text has exactly the declared inputs, wherever they are declared. -/
theorem mem_schemaFields_iff {text : String} {composite : Composite}
    (accepted : (parse text).1 = some composite) {field : String}
    : field ∈ schemaFields composite.inputSchema ↔ DeclaresInput text field := by
  obtain ⟨statements, spells, -, -, rfl⟩ := parse_eq_some_iff.mp accepted
  have known : ∀ s ∈ statements, s.Known := by
    intro statement member
    obtain ⟨entry, -, spelled⟩ := exists_of_forall₂ spells member
    exact spelled.2
  rw [ParseState.composite, schemaFields_inputSchema, mem_props_foldl_apply known]
  constructor
  · intro either
    rcases either with absurdly | ⟨name, optional, type, member, same⟩
    · simp at absurdly
    · obtain ⟨entry, inLines, written, -⟩ := exists_of_forall₂ spells member
      exact ⟨entry, inLines, name, optional, type, written, same⟩
  · intro declared
    rcases declared with ⟨entry, inLines, name, optional, type, written, same⟩
    obtain ⟨statement, member, again, -⟩ := exists_of_forall₂ spells.flip inLines
    cases again.unique written
    exact .inr ⟨name, optional, type, member, same⟩

/-- The reference reads a declared input or the output of one of the steps. -/
def ReadsDeclared (text : String) (steps : List String) (ref : String) : Prop :=
  (refHead ref = "input" ∧ ∃ field ∈ (refPath ref).head?, DeclaresInput text field)
  ∨ refHead ref ∈ steps

/-- Every reference reads a declared input or an earlier step. -/
structure ClosedProgram (text : String) (composite : Composite) : Prop where
  steps
    : ∀ i step,
        composite.steps[i]? = some step
        → ∀ entry ∈ step.inputs.entries,
            ReadsDeclared text ((composite.steps.take i).map Step.name) entry.2
  output
    : ∀ entry ∈ composite.output.entries,
        ReadsDeclared text (composite.steps.map Step.name) entry.2

/-- No reference to `input` stands after a step of that name. -/
structure InputUnshadowed (composite : Composite) : Prop where
  steps
    : ∀ i step,
        composite.steps[i]? = some step
        → "input" ∈ (composite.steps.take i).map Step.name
        → ∀ entry ∈ step.inputs.entries, refHead entry.2 ≠ "input"
  output
    : "input" ∈ composite.steps.map Step.name
      → ∀ entry ∈ composite.output.entries, refHead entry.2 ≠ "input"

/-- No run on an input with all fields of the schema comes to a reference that fails at its
step name or input field, and runs fail at no other references.
-/
def NeverFailsAtStart (composite : Composite) : Prop :=
  ∀ (σ : Type) (invoke : CapabilityInvoke (StateM σ)) (callerInput : Dict String Json)
    (world : σ),
    (∀ field ∈ schemaFields composite.inputSchema, field ∈ callerInput.keys)
    → let observed := Composer.run (logged invoke) composite callerInput (world, [])
      (∀ ctx ref, Reads composite callerInput observed.1.trace ctx ref → PastStart ctx ref)
      ∧ (observed.1.error ≠ none
          → observed.2.2.length = observed.1.trace.length + 1
            ∨ ∃ ctx ref,
                Reads composite callerInput observed.1.trace ctx ref
                ∧ ∀ value, resolveRef ctx ref ≠ .ok value)

/-- A declared reference gets past its start once the steps it may read are completed. -/
theorem pastStart_of_readsDeclared {text : String} {callerInput : Dict String Json}
    {completed : List TraceEntry} {ref : String}
    (declared : ReadsDeclared text (completed.map TraceEntry.step) ref)
    (supplied : ∀ field, DeclaresInput text field → field ∈ callerInput.keys)
    (unshadowed : "input" ∈ completed.map TraceEntry.step → refHead ref ≠ "input")
    : PastStart (contextAfter callerInput completed) ref := by
  refine ⟨?_, ?_⟩
  · rw [mem_keys_contextAfter]
    exact declared.imp And.left id
  · intro isInput field first
    have fresh : "input" ∉ completed.map TraceEntry.step :=
      fun shadowing => unshadowed shadowing isInput
    rcases declared with ⟨-, other, atHead, declared⟩ | isStep
    · cases Option.mem_unique first atHead
      obtain ⟨value, found⟩ :=
        Option.isSome_iff_exists.mp (Dict.isSome_get?_iff.mpr (supplied field declared))
      have input
          : (contextAfter callerInput completed).get? "input" = some (.ofDict callerInput) := by
        rw [contextAfter, get?_extendContext_of_not_mem fresh, Dict.get?_set_self]
      change (((contextAfter callerInput completed).get? "input").bind (walk [field])).isSome
      rw [input]
      change ((callerInput.get? field).bind some).isSome
      rw [found]
      rfl
    · exact absurd (isInput ▸ isStep) fresh

/-- The parser does not look at references; runs of an accepted agent whose references read
declared inputs and earlier steps never fail at a step name or an input field. Witness: the
completed steps are the first ones, so what an earlier step or the caller supplies is there.
-/
theorem neverFailsAtStart_of_closed {text : String} {composite : Composite}
    (accepted : (parse text).1 = some composite) (closed : ClosedProgram text composite)
    (unshadowed : InputUnshadowed composite)
    : NeverFailsAtStart composite := by
  intro σ invoke callerInput world supplied observed
  obtain ⟨segment, -⟩ := run_segment invoke composite callerInput world
  have supplied : ∀ field, DeclaresInput text field → field ∈ callerInput.keys :=
    fun field declared => supplied field ((mem_schemaFields_iff accepted).mpr declared)
  have names (i : Nat) (reached : i ≤ observed.1.trace.length)
      : (observed.1.trace.take i).map TraceEntry.step = (composite.steps.take i).map Step.name := by
    rw [List.map_take, segment.names, ← List.map_take, List.take_take, Nat.min_eq_left reached]
  refine ⟨?_, run_failure invoke composite callerInput world⟩
  intro ctx ref read
  cases read with
  | @step i step entry atStep reached member =>
      refine pastStart_of_readsDeclared ?_ supplied ?_
      · rw [names i reached]
        exact closed.steps i step atStep entry member
      · rw [names i reached]
        exact fun shadowing => unshadowed.steps i step atStep shadowing entry member
  | @output entry all member =>
      have whole : observed.1.trace.map TraceEntry.step = composite.steps.map Step.name := by
        have taken := names observed.1.trace.length (Nat.le_refl _)
        rwa [List.take_length, all, List.take_length] at taken
      refine pastStart_of_readsDeclared ?_ supplied ?_
      · rw [whole]
        exact closed.output entry member
      · rw [whole]
        exact fun shadowing => unshadowed.output shadowing entry member

/-- What a text declares when it is accepted: its inputs, steps and outputs. -/
theorem exists_accepted {text : String} {fields : List String} {steps : List Step}
    {output : Dict String String}
    (parsed : ((parse text).1.map fun composite =>
        (schemaFields composite.inputSchema, composite.steps, composite.output))
      = some (fields, steps, output))
    : ∃ composite,
        (parse text).1 = some composite
        ∧ schemaFields composite.inputSchema = fields
        ∧ composite.steps = steps
        ∧ composite.output = output := by
  obtain ⟨composite, accepted, same⟩ := Option.map_eq_some_iff.mp parsed
  simp only [Prod.mk.injEq] at same
  exact ⟨composite, accepted, same⟩

/-- A line `input c: string` declares the input `c`. -/
theorem declaresInput_of_mem {text : String} {c : Char} (starts : isNameStart c) {i : Nat}
    (member : ("input ".toList ++ c :: ": string".toList, i) ∈ statementLines text)
    : DeclaresInput text (String.ofList [c]) := by
  refine ⟨_, member, ⟨c, [], starts, by simp⟩, false,
    ⟨'s', "tring".toList, rfl, List.all_eq_true.mp rfl⟩, ?_, rfl⟩
  exact .input .empty _ false .empty .space _

/-- An agent whose input is declared after the step and the output that depend on it. -/
def greetAgent : String :=
  "agent a\noutput o = g.greeting\nstep g = greet(name: input.n)\ninput n: string"

theorem greetAgent_neverFails
    : ∃ composite, (parse greetAgent).1 = some composite ∧ NeverFailsAtStart composite := by
  let greet : Step :=
    { name := "g", capability := "greet", inputs := Dict.ofList [("name", "input.n")] }
  obtain ⟨composite, accepted, -, steps, output⟩ :=
    @exists_accepted greetAgent ["n"] [greet] (Dict.ofList [("o", "g.greeting")])
      (by decide +kernel)
  have declared : DeclaresInput greetAgent "n" :=
    @declaresInput_of_mem greetAgent 'n' rfl 4 (by decide +kernel)
  refine ⟨composite, accepted, neverFailsAtStart_of_closed accepted ⟨?_, ?_⟩ ⟨?_, ?_⟩⟩
  · rw [steps]
    intro i step atStep entry member
    obtain ⟨rfl, rfl⟩ : i = 0 ∧ greet = step := by simpa [List.getElem?_singleton] using atStep
    cases List.mem_singleton.mp (member : entry ∈ [("name", "input.n")])
    exact .inl ⟨by decide +kernel, "n", by decide +kernel, declared⟩
  · rw [output, steps]
    intro entry member
    cases List.mem_singleton.mp (member : entry ∈ [("o", "g.greeting")])
    exact .inr (by decide +kernel)
  · rw [steps]
    intro i step atStep shadowing
    obtain ⟨rfl, rfl⟩ : i = 0 ∧ greet = step := by simpa [List.getElem?_singleton] using atStep
    simp at shadowing
  · rw [steps]
    exact fun shadowing => absurd shadowing (by decide)

/-- A step that reads an input no line declares. -/
def openAgent : String := "agent a\nstep s = c(x: input.missing)"

/-- A step named like the caller's input, and an output that reads a declared input. -/
def shadowingAgent : String :=
  "agent a\ninput f: string\nstep input = c()\noutput o = input.f"

/-- The agent with the undeclared input is accepted. -/
theorem openAgent_not_closed
    : ∃ composite, (parse openAgent).1 = some composite ∧ ¬ ClosedProgram openAgent composite := by
  let read : Step :=
    { name := "s", capability := "c", inputs := Dict.ofList [("x", "input.missing")] }
  obtain ⟨composite, accepted, -, steps, -⟩ :=
    @exists_accepted openAgent [] [read] ∅ (by decide +kernel)
  refine ⟨composite, accepted, fun closed => ?_⟩
  have undeclared : ∀ entry ∈ statementLines openAgent, entry.1.head? ≠ some 'i' := by
    decide +kernel
  rcases closed.steps 0 read (by rw [steps]; rfl) ("x", "input.missing") (by decide)
    with ⟨-, field, -, entry, member, name, optional, type, written, -⟩ | earlier
  · exact undeclared entry member written.readFrom.1
  · simp at earlier

/-- The closed agent whose step shadows the caller's input fails at an input field. -/
theorem shadowingAgent_fails
    : ∃ composite,
        (parse shadowingAgent).1 = some composite
        ∧ ClosedProgram shadowingAgent composite
        ∧ ¬ NeverFailsAtStart composite := by
  let shadowing : Step := { name := "input", capability := "c" }
  obtain ⟨composite, accepted, fields, steps, output⟩ :=
    @exists_accepted shadowingAgent ["f"] [shadowing] (Dict.ofList [("o", "input.f")])
      (by decide +kernel)
  have declared : DeclaresInput shadowingAgent "f" :=
    @declaresInput_of_mem shadowingAgent 'f' rfl 2 (by decide +kernel)
  refine ⟨composite, accepted, ⟨?_, ?_⟩, fun never => ?_⟩
  · rw [steps]
    intro i step atStep entry member
    obtain ⟨rfl, rfl⟩ : i = 0 ∧ shadowing = step := by
      simpa [List.getElem?_singleton] using atStep
    exact absurd member List.not_mem_nil
  · rw [output, steps]
    intro entry member
    cases List.mem_singleton.mp (member : entry ∈ [("o", "input.f")])
    exact .inl ⟨by decide +kernel, "f", by decide +kernel, declared⟩
  · let invoke : CapabilityInvoke (StateM Unit) := fun _ _ _ _ => pure (some ∅, none)
    let callerInput : Dict String Json := Dict.empty.set "f" (.int 1)
    have supplied : ∀ field ∈ schemaFields composite.inputSchema, field ∈ callerInput.keys := by
      rw [fields]
      simp [callerInput, Dict.mem_keys_set]
    have resolved (ctx : Dict String Json) : resolveRefs ctx shadowing.inputs = .ok ∅ := rfl
    have ran : (Composer.run (logged invoke) composite callerInput ((), [])).1.trace
        = [⟨"input", "c", ∅⟩] := by
      rw [Composer.run, steps, Composer.runSteps_resolved _ _ _ _ (resolved _)]
      change (Composer.runSteps (logged invoke) composite [] _ _ _).1.trace = _
      rw [Composer.runSteps_nil]
      cases resolveRefs _ composite.output <;> rfl
    have member : ("o", "input.f") ∈ composite.output.entries := by
      rw [output]
      decide
    have read : Reads composite callerInput [⟨"input", "c", ∅⟩]
        (contextAfter callerInput [⟨"input", "c", ∅⟩]) "input.f" :=
      .output (by rw [steps]; rfl) member
    obtain ⟨paths, -⟩ := never Unit invoke callerInput () supplied
    rw [ran] at paths
    have past := (paths _ _ read).2 (by decide +kernel) "f" (by decide +kernel)
    exact absurd past (by decide +kernel)

/-- Accepted agents need not be closed, and closed ones can fail at an input field. -/
theorem accepted_not_closed
    : ¬ (∀ text composite,
          (parse text).1 = some composite
          → ClosedProgram text composite ∧ NeverFailsAtStart composite)
      ∧ ¬ (∀ text composite,
          (parse text).1 = some composite
          → ClosedProgram text composite
          → NeverFailsAtStart composite) := by
  obtain ⟨unclosed, accepted, notClosed⟩ := openAgent_not_closed
  obtain ⟨shadowed, acceptedToo, closed, fails⟩ := shadowingAgent_fails
  exact ⟨fun all => notClosed (all _ _ accepted).1,
    fun all => fails (all _ _ acceptedToo closed)⟩

end AgentDsl

end AgentFeatures
