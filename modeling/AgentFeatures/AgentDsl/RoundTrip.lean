import AgentFeatures.AgentDsl.Acceptance

/-! Agents printed in the documented syntax are parsed back unchanged. -/

namespace AgentFeatures

open Library
open Library.Text (isLineBreak isSpace lstrip rstrip splitlines strip)

namespace AgentDsl

/-- The types of inputs. -/
inductive InputType where
  | string
  | number
  | integer
  | boolean

/-- The word a type is written with. -/
def InputType.word : InputType → Name
  | .string => ⟨'s', "tring".toList, rfl, List.all_eq_true.mp rfl⟩
  | .number => ⟨'n', "umber".toList, rfl, List.all_eq_true.mp rfl⟩
  | .integer => ⟨'i', "nteger".toList, rfl, List.all_eq_true.mp rfl⟩
  | .boolean => ⟨'b', "oolean".toList, rfl, List.all_eq_true.mp rfl⟩

structure InputField where
  name : Name
  type : InputType
  optional : Bool

/-- A step of an agent; its arguments have distinct names. -/
structure AgentStep where
  name : Name
  capability : Name
  vendor : Option Name
  arguments : List (Name × Ref)
  distinct : (arguments.map Prod.fst).Nodup

/-- An agent that the documented syntax can express. -/
structure Agent where
  name : Name
  description : Text
  plain : ∀ c ∈ description, c ≠ '"' ∧ c ≠ '#' ∧ isLineBreak c = false
  inputs : List InputField
  distinctInputs : (inputs.map InputField.name).Nodup
  steps : List AgentStep
  stepped : steps ≠ []
  outputs : List (Name × Ref)
  distinctOutputs : (outputs.map Prod.fst).Nodup

/-- References under distinct names, as a dictionary. -/
def references {pairs : List (Name × Ref)} (distinct : (pairs.map Prod.fst).Nodup)
    : Dict String String :=
  ⟨pairs.map fun pair => (pair.1.string, pair.2.string), by
    simpa [Function.comp_def] using distinct.map Word.string_injective⟩

/-- The schema of an input. -/
def InputField.property (field : InputField) : String × Json :=
  (field.name.string, .obj [("type", .str field.type.word.string)])

/-- The names of the inputs that are not optional. -/
def requiredInputs (inputs : List InputField) : List String :=
  (inputs.filter fun field => !field.optional).map fun field => field.name.string

/-- The inputs as the properties of a schema, in order. -/
def properties {inputs : List InputField} (distinct : (inputs.map InputField.name).Nodup)
    : Dict String Json :=
  ⟨inputs.map InputField.property, by
    simpa [Function.comp_def, InputField.property] using distinct.map Word.string_injective⟩

/-- The input schema of an agent: an object with the inputs as its properties. -/
def Agent.inputSchema (agent : Agent) : Dict String Json :=
  let object := [("type", .str "object"), ("properties", .ofDict (properties agent.distinctInputs))]
  match requiredInputs agent.inputs with
  | [] => ⟨object, by simp [object]⟩
  | required =>
      ⟨object ++ [("required", .arr (required.map .str))], by simp [object]⟩

/-- The pipeline step of an agent's step. -/
def AgentStep.step (agentStep : AgentStep) : Step where
  name := agentStep.name.string
  capability := agentStep.capability.string
  vendor := agentStep.vendor.map Word.string
  version := none
  inputs := references agentStep.distinct

/-- The composite an agent stands for. -/
def Agent.composite (agent : Agent) : Composite where
  name := agent.name.string
  capability := agent.name.string
  description := .ofList agent.description
  inputSchema := agent.inputSchema
  steps := agent.steps.map AgentStep.step
  output := references agent.distinctOutputs
  defaultCapability := id

-----------------------------------------------------------------------------------------
-- The documented syntax
-----------------------------------------------------------------------------------------

/-- `NAME: REF`. -/
def argumentText (pair : Name × Ref) : Text := pair.1.text ++ (": ".toList ++ pair.2.text)

/-- Arguments joined by commas. -/
def argumentsText (pairs : List (Name × Ref)) : Text :=
  ", ".toList.intercalate (pairs.map argumentText)

theorem argumentsText_singleton (pair : Name × Ref) : argumentsText [pair] = argumentText pair :=
  List.intercalate_singleton

theorem argumentsText_cons_cons (pair other : Name × Ref) (pairs : List (Name × Ref))
    : argumentsText (pair :: other :: pairs)
      = argumentText pair ++ (", ".toList ++ argumentsText (other :: pairs)) :=
  List.intercalate_cons_cons.trans (List.append_assoc ..)

def agentLine (name : Name) : Text := "agent ".toList ++ name.text

def descriptionLine (description : Text) : Text :=
  "description \"".toList ++ (description ++ ['"'])

def InputField.line (field : InputField) : Text :=
  "input ".toList ++ (field.name.text ++ (optionalMark field.optional
    ++ (": ".toList ++ field.type.word.text)))

def AgentStep.line (agentStep : AgentStep) : Text :=
  "step ".toList ++ (agentStep.name.text ++ (" = ".toList ++ (agentStep.capability.text
    ++ (vendorPin agentStep.vendor
      ++ ('(' :: (argumentsText agentStep.arguments ++ [')']))))))

def outputLine (pair : Name × Ref) : Text :=
  "output ".toList ++ (pair.1.text ++ (" = ".toList ++ pair.2.text))

/-- The statements of an agent, one a line. -/
def Agent.lines (agent : Agent) : List Text :=
  [agentLine agent.name, descriptionLine agent.description]
    ++ agent.inputs.map InputField.line
    ++ agent.steps.map AgentStep.line
    ++ agent.outputs.map outputLine

/-- An agent in the documented syntax. -/
def Agent.print (agent : Agent) : String := .ofList (agent.lines.flatMap (· ++ ['\n']))

def InputField.statement (field : InputField) : Statement :=
  .input field.name field.optional field.type.word

def AgentStep.statement (agentStep : AgentStep) : Statement :=
  .step agentStep.name agentStep.capability agentStep.vendor (argumentsText agentStep.arguments)

/-- The statements of an agent. -/
def Agent.statements (agent : Agent) : List Statement :=
  [.agent agent.name, .description (" \"".toList ++ (agent.description ++ ['"']))]
    ++ agent.inputs.map InputField.statement
    ++ agent.steps.map AgentStep.statement
    ++ agent.outputs.map fun pair => .output pair.1 pair.2

/-- Printed arguments are a list of arguments. Witness: induction on the arguments; each but
the first stands after a space.
-/
theorem writesArguments_intercalate (pair : Name × Ref) (pairs : List (Name × Ref)) (gap : Gap)
    : WritesArguments (gap.text ++ argumentsText (pair :: pairs)) (pair :: pairs) := by
  induction pairs generalizing pair gap with
  | nil =>
      have spelled := WritesArguments.last gap pair.1 .empty .space pair.2 .empty
      rw [argumentsText_singleton]
      simpa [argumentText, Gap.empty, Gap.space] using spelled
  | cons other pairs ih =>
      have spelled := WritesArguments.more gap pair.1 .empty .space pair.2 .empty (ih other .space)
      rw [argumentsText_cons_cons]
      simpa [argumentText, Gap.empty, Gap.space] using spelled

/-- The printed arguments are the arguments. -/
theorem arguments_argumentsText (pairs : List (Name × Ref))
    : Arguments (argumentsText pairs) pairs := by
  cases pairs with
  | nil => exact .inl ⟨rfl, by simp [argumentsText]⟩
  | cons pair pairs => exact .inr (writesArguments_intercalate pair pairs .empty)

-----------------------------------------------------------------------------------------
-- Printed lines are read as they stand
-----------------------------------------------------------------------------------------

/-- The character neither starts a comment nor ends a line. -/
def isPlain (c : Char) : Bool := c != '#' && !isLineBreak c

theorem isPlain_of_isRefChar {c : Char} (inRef : isRefChar c) : isPlain c := by
  have noComment : (c == '#') = false := beq_of_outside inRef rfl
  have visible := isSpace_of_isRefChar inRef
  have unbroken : isLineBreak c = false := by
    by_contra broken
    simp only [isLineBreak, Bool.not_eq_false, Bool.or_eq_true, Bool.and_eq_true,
      decide_eq_true_eq, beq_iff_eq] at broken
    simp only [isSpace, Bool.or_eq_false_iff, Bool.and_eq_false_iff, decide_eq_false_iff_not,
      beq_eq_false_iff_ne] at visible
    omega
  simp [isPlain, bne, noComment, unbroken]

/-- No character of the text starts a comment or ends a line. -/
def Plain (text : Text) : Prop := text.all isPlain

theorem Plain.append {front rest : Text} (plain : Plain front) (others : Plain rest)
    : Plain (front ++ rest) := by
  rw [Plain, List.all_append, Bool.and_eq_true]
  exact ⟨plain, others⟩

theorem isRefChar_of_mem_name {name : Name} {c : Char} (member : c ∈ name.text)
    : isRefChar c :=
  isRefChar_of_isNameChar (isNameChar_of_mem name member)

theorem isRefChar_of_mem_ref {ref : Ref} {c : Char} (member : c ∈ ref.text) : isRefChar c := by
  rcases List.mem_cons.mp member with rfl | later
  · exact isRefChar_of_isNameChar (isNameChar_of_isNameStart ref.starts)
  · exact ref.continues c later

/-- The text ends visibly. -/
def Ends (text : Text) : Prop := text ≠ [] ∧ rstrip text = text

theorem Ends.append {rest : Text} (ends : Ends rest) (front : Text) : Ends (front ++ rest) :=
  ⟨by simp [ends.1], Text.rstrip_append ends.1 ends.2 front⟩

theorem ends_char {c : Char} (visible : isSpace c = false) : Ends [c] :=
  ⟨by simp, Text.rstrip_eq (by simpa using visible)⟩

theorem ends_name (name : Name) : Ends name.text :=
  ⟨by simp [Word.text],
    Text.rstrip_eq fun _ member => isSpace_of_isRefChar (isRefChar_of_mem_name member)⟩

theorem ends_ref (ref : Ref) : Ends ref.text :=
  ⟨by simp [Word.text],
    Text.rstrip_eq fun _ member => isSpace_of_isRefChar (isRefChar_of_mem_ref member)⟩

/-- A line that spells a known statement and is read as it stands. -/
structure Prints (statement : Statement) (line : Text) : Prop where
  written : Writes statement line
  known : statement.Known
  plain : Plain line
  starts : lstrip line = line
  ends : Ends line

/-- Nothing is cut off a printed line. -/
theorem Prints.lineText {statement : Statement} {line : Text} (prints : Prints statement line)
    : lineText line = line := by
  have uncommented : line.takeWhile (· != '#') = line := by
    refine List.takeWhile_eq_self_iff.mpr fun c member => ?_
    have plain := List.all_eq_true.mp prints.plain c member
    simp only [isPlain, Bool.and_eq_true] at plain
    exact plain.1
  rw [AgentDsl.lineText, uncommented, strip, prints.starts, prints.ends.2]

theorem name_plain (name : Name) : Plain name.text :=
  List.all_eq_true.mpr fun _ member => isPlain_of_isRefChar (isRefChar_of_mem_name member)

theorem ref_plain (ref : Ref) : Plain ref.text :=
  List.all_eq_true.mpr fun _ member => isPlain_of_isRefChar (isRefChar_of_mem_ref member)

theorem prints_agentLine (name : Name) : Prints (.agent name) (agentLine name) where
  written := .agent .empty name
  known := trivial
  plain := Plain.append rfl (name_plain name)
  starts := Text.lstrip_cons rfl _
  ends := (ends_name name).append _

theorem prints_descriptionLine {description : Text}
    (plain : ∀ c ∈ description, c ≠ '"' ∧ c ≠ '#' ∧ isLineBreak c = false)
    : Prints (.description (" \"".toList ++ (description ++ ['"']))) (descriptionLine description)
    where
  written := .description _
  known := trivial
  plain := by
    refine Plain.append rfl (Plain.append (List.all_eq_true.mpr fun c member => ?_) rfl)
    obtain ⟨-, noComment, unbroken⟩ := plain c member
    simp [isPlain, noComment, unbroken]
  starts := Text.lstrip_cons rfl _
  ends := ((ends_char rfl).append description).append _

/-- Types are known under their own names. -/
theorem types_word (type : InputType) : types.get? type.word.string = some type.word.string := by
  cases type <;> rfl

theorem prints_inputLine (field : InputField) : Prints field.statement field.line where
  written := .input .empty field.name field.optional .empty .space field.type.word
  known := by
    rw [InputField.statement, Statement.Known, types_word]
    rfl
  plain := by
    have mark : Plain (optionalMark field.optional) := by cases field.optional <;> rfl
    exact .append rfl ((name_plain _).append (mark.append (.append rfl (name_plain _))))
  starts := Text.lstrip_cons rfl _
  ends := ((((ends_name field.type.word).append _).append _).append _).append _

/-- Printed arguments are plain. Witness: induction on the arguments. -/
theorem argumentsText_plain (pairs : List (Name × Ref)) : Plain (argumentsText pairs) := by
  have argument (pair : Name × Ref) : Plain (argumentText pair) :=
    (name_plain _).append (.append rfl (ref_plain _))
  induction pairs with
  | nil => rfl
  | cons pair pairs ih =>
      cases pairs with
      | nil =>
          rw [argumentsText_singleton]
          exact argument pair
      | cons other pairs =>
          rw [argumentsText_cons_cons]
          exact (argument pair).append (.append rfl ih)

theorem prints_stepLine (agentStep : AgentStep) : Prints agentStep.statement agentStep.line where
  written := by
    refine .step .empty agentStep.name .space .space agentStep.capability agentStep.vendor .empty
      (argumentsText agentStep.arguments) fun broken => ?_
    exact absurd (List.all_eq_true.mp (argumentsText_plain _) _ broken) (by decide)
  known := trivial
  plain := by
    have pin : Plain (vendorPin agentStep.vendor) := by
      cases agentStep.vendor with
      | none => rfl
      | some vendor => exact @Plain.append ['@'] _ rfl (name_plain vendor)
    have list : Plain ('(' :: (argumentsText agentStep.arguments ++ [')'])) :=
      @Plain.append ['('] _ rfl ((argumentsText_plain _).append rfl)
    exact .append rfl ((name_plain _).append (.append rfl ((name_plain _).append
      (pin.append list))))
  starts := Text.lstrip_cons rfl _
  ends := (((((((ends_char rfl).append _).append ['(']).append _).append _).append _).append
    _).append _

theorem prints_outputLine (pair : Name × Ref)
    : Prints (.output pair.1 pair.2) (outputLine pair) where
  written := .output .empty pair.1 .space .space pair.2
  known := trivial
  plain := .append rfl ((name_plain _).append (.append rfl (ref_plain _)))
  starts := Text.lstrip_cons rfl _
  ends := (((ends_ref pair.2).append _).append _).append _

/-- Every line of a printed agent prints its statement. -/
theorem Agent.prints (agent : Agent) : List.Forall₂ Prints agent.statements agent.lines := by
  have each {α : Type} {statement : α → Statement} {line : α → Text}
      (prints : ∀ item, Prints (statement item) (line item)) (items : List α)
      : List.Forall₂ Prints (items.map statement) (items.map line) := by
    rw [List.forall₂_map_left_iff, List.forall₂_map_right_iff, List.forall₂_same]
    exact fun item _ => prints item
  have header : List.Forall₂ Prints
      [.agent agent.name, .description (" \"".toList ++ (agent.description ++ ['"']))]
      [agentLine agent.name, descriptionLine agent.description] :=
    .cons (prints_agentLine agent.name) (.cons (prints_descriptionLine agent.plain) .nil)
  have inputs := List.rel_append header (each prints_inputLine agent.inputs)
  have steps := List.rel_append inputs (each prints_stepLine agent.steps)
  exact List.rel_append steps (each prints_outputLine agent.outputs)

/-- The statement lines of a printed agent are its lines with their numbers. Witness: the lines
have no line breaks, no comments and no white space around them.
-/
theorem statementLines_print (agent : Agent)
    : statementLines agent.print = agent.lines.zipIdx 1 := by
  have printed : ∀ line ∈ agent.lines, ∃ statement, Prints statement line := by
    intro line member
    obtain ⟨statement, -, prints⟩ := exists_of_forall₂ agent.prints.flip member
    exact ⟨statement, prints⟩
  have lines : splitlines agent.print.toList = agent.lines := by
    rw [Agent.print, String.toList_ofList]
    refine Text.splitlines_flatMap fun line member c inLine => ?_
    obtain ⟨statement, prints⟩ := printed line member
    have plain := List.all_eq_true.mp prints.plain c inLine
    simp only [isPlain, Bool.and_eq_true, Bool.not_eq_true'] at plain
    exact plain.2
  have kept : ((agent.lines.zipIdx 1).map fun numbered => (lineText numbered.1, numbered.2))
      = agent.lines.zipIdx 1 := by
    refine (List.map_congr_left fun numbered member => ?_).trans (List.map_id _)
    obtain ⟨statement, prints⟩ := printed numbered.1 (List.fst_mem_of_mem_zipIdx member)
    rw [prints.lineText, id]
  rw [statementLines, lines, kept]
  refine List.filter_eq_self.mpr fun numbered member => ?_
  obtain ⟨statement, prints⟩ := printed numbered.1 (List.fst_mem_of_mem_zipIdx member)
  simpa using prints.ends.1

/-- The statements of an agent spell its numbered lines. -/
theorem Agent.spells (agent : Agent) : Spells agent.statements (agent.lines.zipIdx 1) := by
  have related : List.Forall₂ (fun statement line => Writes statement line ∧ statement.Known)
      agent.statements ((agent.lines.zipIdx 1).map Prod.fst) := by
    rw [List.zipIdx_map_fst]
    exact agent.prints.imp fun _ _ prints => ⟨prints.written, prints.known⟩
  exact List.forall₂_map_right_iff.mp related

-----------------------------------------------------------------------------------------
-- What the statements of an agent declare
-----------------------------------------------------------------------------------------

/-- Setting items of a dictionary one after the other. -/
def setAll {α : Type} (dict : Dict String α) (items : List (String × α)) : Dict String α :=
  items.foldl (fun dict item => dict.set item.1 item.2) dict

/-- Inputs declare their properties and, unless optional, required names. Witness: induction on
the inputs.
-/
theorem foldl_inputs (inputs : List InputField) (state : ParseState)
    : (inputs.map InputField.statement).foldl Statement.apply state
      = { state with
          props := setAll state.props (inputs.map InputField.property)
          required := state.required ++ requiredInputs inputs } := by
  induction inputs generalizing state with
  | nil => simp [setAll, requiredInputs]
  | cons field rest ih =>
      have applied : field.statement.apply state
          = state.addInput field.name.text (optionalMark field.optional)
              field.type.word.string := by
        rw [InputField.statement, Statement.apply, types_word]
      rw [List.map_cons, List.foldl_cons, ih, applied]
      cases optional : field.optional with
      | true => simp [ParseState.addInput, optionalMark, setAll, requiredInputs, optional,
          InputField.property]
      | false => simp [ParseState.addInput, optionalMark, setAll, requiredInputs, optional,
          InputField.property]

/-- Steps declare themselves in order. Witness: induction on the steps. -/
theorem foldl_steps (steps : List AgentStep) (state : ParseState)
    : (steps.map AgentStep.statement).foldl Statement.apply state
      = { state with steps := state.steps ++ steps.map AgentStep.step } := by
  induction steps generalizing state with
  | nil => simp
  | cons agentStep rest ih =>
      have inputs : parseArguments (argumentsText agentStep.arguments)
          = references agentStep.distinct := by
        rw [parseArguments_of_arguments (arguments_argumentsText _)]
        exact Dict.ext (Dict.entries_ofList (references agentStep.distinct).nodup)
      have applied : agentStep.statement.apply state
          = { state with steps := state.steps ++ [agentStep.step] } := by
        rw [AgentStep.statement, Statement.apply, inputs]
        rfl
      rw [List.map_cons, List.foldl_cons, ih, applied]
      simp

/-- Outputs declare themselves in order. Witness: induction on the outputs. -/
theorem foldl_outputs (outputs : List (Name × Ref)) (state : ParseState)
    : (outputs.map fun pair => Statement.output pair.1 pair.2).foldl Statement.apply state
      = { state with
          output :=
            setAll state.output (outputs.map fun pair => (pair.1.string, pair.2.string)) } := by
  induction outputs generalizing state with
  | nil => rfl
  | cons pair rest ih =>
      rw [List.map_cons, List.foldl_cons, ih]
      rfl

/-- Quotes around a text without quotes are stripped, and only they. -/
theorem stripQuotes_quoted {text : Text} (unquoted : ∀ c ∈ text, c ≠ '"')
    : stripQuotes ('"' :: (text ++ ['"'])) = text := by
  cases text with
  | nil => rfl
  | cons c rest =>
      obtain ⟨here, -⟩ := List.forall_mem_cons.mp unquoted
      have front : ('"' :: (c :: rest ++ ['"'])).dropWhile (· == '"') = c :: rest ++ ['"'] := by
        simp [here]
      rw [stripQuotes, front, List.rdropWhile_concat_pos _ _ _ (by rfl)]
      refine List.rdropWhile_eq_self_iff.mpr fun nonempty => ?_
      simpa using unquoted _ (List.getLast_mem nonempty)

/-- The description of an agent is what its quoted text says. -/
theorem parseDescription_quoted {description : Text}
    (plain : ∀ c ∈ description, c ≠ '"' ∧ c ≠ '#' ∧ isLineBreak c = false) (state : ParseState)
    : parseDescription state (" \"".toList ++ (description ++ ['"']))
      = { state with description := .ofList description } := by
  have stripped
      : strip (" \"".toList ++ (description ++ ['"'])) = '"' :: (description ++ ['"']) := by
    have front
        : lstrip (" \"".toList ++ (description ++ ['"'])) = '"' :: (description ++ ['"']) :=
      @Text.Stops.dropWhile_append isSpace [' '] _ (Text.stops_cons rfl _) Gap.space.blank
    rw [strip, front]
    exact ((ends_char rfl).append ('"' :: description)).2
  rw [parseDescription, stripped, stripQuotes_quoted fun c member => (plain c member).1]

/-- The statements of an agent declare its parts. -/
theorem foldl_statements (agent : Agent)
    : agent.statements.foldl Statement.apply {}
      = { name := agent.name.string
          description := .ofList agent.description
          props := properties agent.distinctInputs
          required := requiredInputs agent.inputs
          steps := agent.steps.map AgentStep.step
          output := references agent.distinctOutputs } := by
  have props : setAll ∅ (agent.inputs.map InputField.property)
      = properties agent.distinctInputs :=
    Dict.ext (Dict.entries_ofList (properties agent.distinctInputs).nodup)
  have output : setAll ∅ (agent.outputs.map fun pair => (pair.1.string, pair.2.string))
      = references agent.distinctOutputs :=
    Dict.ext (Dict.entries_ofList (references agent.distinctOutputs).nodup)
  simp only [Agent.statements, List.foldl_append, List.foldl_cons, List.foldl_nil, foldl_inputs,
    foldl_steps, foldl_outputs, Statement.apply, parseDescription_quoted agent.plain, props, output,
    List.nil_append]

/-- The parser builds the schema of the agent's inputs. -/
theorem inputSchema_properties (agent : Agent)
    : inputSchema (properties agent.distinctInputs) (requiredInputs agent.inputs)
      = agent.inputSchema := by
  rw [inputSchema, Agent.inputSchema]
  cases requiredInputs agent.inputs with
  | nil => rfl
  | cons name others => rfl

/-- Printing an agent and parsing the text gives exactly its composite and no errors. Witness:
the lines of the text spell the agent's statements, and these declare its parts.
-/
theorem parse_print (agent : Agent) : parse agent.print = (some agent.composite, []) := by
  rw [parse_eq, statementLines_print, readLines_of_spells agent.spells, foldl_statements]
  have named := agent.name.string_ne_empty
  have stepped : (agent.steps.map AgentStep.step).isEmpty = false := by
    simpa using agent.stepped
  simp only [finish, named, if_false, stepped, Bool.false_and, Bool.false_eq_true, List.isEmpty_nil,
    if_true]
  simp only [ParseState.composite, inputSchema_properties, Agent.composite]

end AgentDsl

end AgentFeatures
