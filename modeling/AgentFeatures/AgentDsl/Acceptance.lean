import AgentFeatures.AgentDsl.Statements

/-! Which texts the parser accepts, against the documented grammar. -/

namespace AgentFeatures

open Library
open Library.Text (isSpace rstrip splitlines)

namespace AgentDsl

/-- The lines without comments that are not blank, with their numbers. -/
def statementLines (text : String) : List (Text × Nat) :=
  (((splitlines text.toList).zipIdx 1).map fun numbered =>
    (lineText numbered.1, numbered.2)).filter fun entry => !entry.1.isEmpty

/-- The lines that start with the step keyword. -/
def stepLines (text : String) : List Text :=
  ((statementLines text).map Prod.fst).filter fun line => "step ".toList.isPrefixOf line

/-- The state after reading some lines. -/
def readLines (state : ParseState) (entries : List (Text × Nat)) : ParseState :=
  entries.foldl (fun state entry => parseLine state entry.2 entry.1) state

/-- The parser reads the lines that are not blank. -/
theorem parse_eq (text : String) : parse text = finish (readLines {} (statementLines text)) := by
  rw [parse, readLines, statementLines, List.foldl_filter, List.foldl_map]
  congr 2
  funext state numbered
  simp only [parseRaw]
  cases (lineText numbered.1).isEmpty <;> rfl

/-- Statement lines have no white space at their end. -/
theorem rstrip_of_mem_statementLines {text : String} {entry : Text × Nat}
    (member : entry ∈ statementLines text)
    : rstrip entry.1 = entry.1 := by
  obtain ⟨numbered, -, rfl⟩ := List.mem_map.mp (List.mem_filter.mp member).1
  exact Text.rstrip_strip _

/-- Statement lines with the same number are the same line. -/
theorem eq_of_mem_statementLines {text : String} {entry other : Text × Nat}
    (member : entry ∈ statementLines text) (inOther : other ∈ statementLines text)
    (same : entry.2 = other.2)
    : entry = other := by
  obtain ⟨numbered, inLines, rfl⟩ := List.mem_map.mp (List.mem_filter.mp member).1
  obtain ⟨again, inAgain, rfl⟩ := List.mem_map.mp (List.mem_filter.mp inOther).1
  have found := (List.mem_zipIdx_iff_le_and_getElem?_sub.mp inLines).2
  have foundAgain := (List.mem_zipIdx_iff_le_and_getElem?_sub.mp inAgain).2
  simp only at same
  rw [same, foundAgain] at found
  rw [same, Option.some.inj found]

-----------------------------------------------------------------------------------------
-- Errors
-----------------------------------------------------------------------------------------

/-- The line is a statement the parser knows. -/
def Read (line : Text) : Prop := ∃ statement, Writes statement line ∧ statement.Known

/-- Statements add no errors. -/
theorem errors_apply (state : ParseState) (statement : Statement)
    : (statement.apply state).errors = state.errors := by
  cases statement with
  | input field optional type =>
      rw [Statement.apply]
      split <;> rfl
  | _ => rfl

/-- A line that is read adds no error; any other line adds one error with its number. -/
theorem errors_parseLine (state : ParseState) (i : Nat) {line : Text}
    (trimmed : rstrip line = line)
    : (Read line ∧ (parseLine state i line).errors = state.errors)
      ∨ (¬ Read line
        ∧ ∃ message, (parseLine state i line).errors = state.errors ++ [lineError i message]) := by
  by_cases read : Read line
  · obtain ⟨statement, written, known⟩ := read
    rw [parseLine_of_writes state i written known]
    exact .inl ⟨⟨statement, written, known⟩, errors_apply state statement⟩
  · obtain ⟨name, message, failed⟩ := parseLine_of_unread state i trimmed
      fun statement written known => read ⟨statement, written, known⟩
    rw [failed]
    exact .inr ⟨read, message, rfl⟩

/-- The errors after reading some lines are the earlier ones and one for each line that is
not read. Witness: induction on the lines.
-/
theorem errors_readLines {state : ParseState} {entries : List (Text × Nat)}
    (trimmed : ∀ entry ∈ entries, rstrip entry.1 = entry.1)
    : (∀ error ∈ state.errors, error ∈ (readLines state entries).errors)
      ∧ (∀ entry ∈ entries,
          ¬ Read entry.1
          → ∃ message, lineError entry.2 message ∈ (readLines state entries).errors)
      ∧ ∀ error ∈ (readLines state entries).errors,
          error ∈ state.errors
          ∨ ∃ entry ∈ entries,
              ¬ Read entry.1 ∧ ∃ message, error = lineError entry.2 message := by
  induction entries generalizing state with
  | nil => exact ⟨fun _ => id, by simp, fun _ => .inl⟩
  | cons entry rest ih =>
      obtain ⟨kept, reported, only⟩ :=
        @ih (parseLine state entry.2 entry.1)
          fun other member => trimmed other (List.mem_cons_of_mem entry member)
      have first := errors_parseLine state entry.2 (trimmed entry List.mem_cons_self)
      rw [List.forall_mem_cons]
      refine ⟨?_, ⟨?_, reported⟩, ?_⟩
      · intro error member
        refine kept error ?_
        rcases first with ⟨-, same⟩ | ⟨-, message, more⟩
        · rwa [same]
        · rw [more]
          exact List.mem_append_left _ member
      · intro unread
        rcases first with ⟨read, -⟩ | ⟨-, message, more⟩
        · exact absurd read unread
        · exact ⟨message, kept _ (by simp [more])⟩
      · intro error member
        rcases only error member with here | ⟨other, inRest, unread⟩
        · rcases first with ⟨-, same⟩ | ⟨unread, message, more⟩
          · exact .inl (same ▸ here)
          · rw [more, List.mem_append, List.mem_singleton] at here
            exact here.imp_right fun isNew => ⟨entry, List.mem_cons_self, unread, message, isNew⟩
        · exact .inr ⟨other, List.mem_cons_of_mem entry inRest, unread⟩

/-- The characters of an error of a line. -/
theorem toList_lineError (i : Nat) (message : String)
    : (lineError i message).toList
      = "line ".toList ++ (Nat.toDigits 10 i ++ ':' :: ' ' :: message.toList) := by
  simp only [lineError, String.toList_append, Nat.toString_eq_repr, Nat.toList_repr,
    List.append_assoc]
  rfl

/-- An error carries the number of one line only: it ends at the colon. -/
theorem lineError_injective {i j : Nat} {message other : String}
    (same : lineError i message = lineError j other)
    : i = j := by
  have digits (n : Nat) : ∀ c ∈ Nat.toDigits 10 n, c.isDigit :=
    fun c => Nat.isDigit_of_mem_toDigits (by decide) (by decide)
  have stops (rest : Text) : Text.Stops Char.isDigit (':' :: rest) := Text.stops_cons rfl rest
  have lists := congrArg String.toList same
  rw [toList_lineError, toList_lineError] at lists
  have numbers := congrArg (List.takeWhile Char.isDigit) (List.append_cancel_left lists)
  rw [(stops _).takeWhile_append (digits i), (stops _).takeWhile_append (digits j)] at numbers
  simpa using congrArg (Nat.ofDigitChars 10 · 0) numbers

/-- Related lists relate each member of the left one. Witness: induction on the relation. -/
theorem exists_of_forall₂ {α β : Type} {R : α → β → Prop} {left : List α} {right : List β}
    (related : List.Forall₂ R left right) {a : α} (member : a ∈ left)
    : ∃ b ∈ right, R a b := by
  induction related with
  | nil => exact absurd member List.not_mem_nil
  | @cons first other left right here _ ih =>
      rcases List.mem_cons.mp member with rfl | later
      · exact ⟨other, List.mem_cons_self, here⟩
      · obtain ⟨b, inRight, found⟩ := ih later
        exact ⟨b, List.mem_cons_of_mem other inRight, found⟩

/-- The statements of some lines. -/
def Spells (statements : List Statement) (entries : List (Text × Nat)) : Prop :=
  List.Forall₂ (fun statement entry => Writes statement entry.1 ∧ statement.Known)
    statements entries

/-- Lines that are read have statements. Witness: induction on the lines. -/
theorem exists_spells {entries : List (Text × Nat)} (read : ∀ entry ∈ entries, Read entry.1)
    : ∃ statements, Spells statements entries := by
  induction entries with
  | nil => exact ⟨[], .nil⟩
  | cons entry rest ih =>
      obtain ⟨⟨statement, spelled⟩, later⟩ := List.forall_mem_cons.mp read
      obtain ⟨statements, others⟩ := ih later
      exact ⟨statement :: statements, .cons spelled others⟩

/-- Reading lines applies their statements. Witness: induction on the lines. -/
theorem readLines_of_spells {statements : List Statement} {entries : List (Text × Nat)}
    (spells : Spells statements entries) (state : ParseState)
    : readLines state entries = statements.foldl Statement.apply state := by
  induction spells generalizing state with
  | nil => rfl
  | @cons statement entry statements entries spelled _ ih =>
      rw [readLines, List.foldl_cons, parseLine_of_writes state entry.2 spelled.1 spelled.2,
        List.foldl_cons]
      exact ih _

/-- The step a statement declares. -/
def Statement.steps : Statement → List Step
  | .step name capability vendor arguments =>
      [{ name := name.string
         capability := capability.string
         vendor := vendor.map fun vendor => vendor.string
         inputs := parseArguments arguments }]
  | _ => []

/-- The line declares the step. -/
def Declares (line : Text) (step : Step) : Prop :=
  ∀ statement, Writes statement line → statement.steps = [step]

/-- Steps are declared in order. Witness: induction on the statements. -/
theorem steps_foldl_apply (statements : List Statement) (state : ParseState)
    : (statements.foldl Statement.apply state).steps
      = state.steps ++ statements.flatMap Statement.steps := by
  have step (state : ParseState) (statement : Statement)
      : (statement.apply state).steps = state.steps ++ statement.steps := by
    cases statement with
    | input field optional type =>
        rw [Statement.apply]
        split <;> exact (List.append_nil _).symm
    | step name capability vendor arguments => rfl
    | _ => exact (List.append_nil _).symm
  induction statements generalizing state with
  | nil => simp
  | cons statement rest ih => rw [List.foldl_cons, ih, step, List.flatMap_cons, List.append_assoc]

/-- The name is empty only without an agent statement. Witness: induction on the statements. -/
theorem name_foldl_apply {statements : List Statement} {state : ParseState}
    : (statements.foldl Statement.apply state).name = ""
      ↔ state.name = "" ∧ ∀ name, .agent name ∉ statements := by
  induction statements generalizing state with
  | nil => simp
  | cons statement rest ih =>
      rw [List.foldl_cons, ih]
      cases statement with
      | agent name =>
          refine iff_of_false ?_ fun absent => absent.2 name List.mem_cons_self
          simp [Statement.apply, Word.string_ne_empty]
      | input field optional type =>
          have same : (Statement.apply state (.input field optional type)).name = state.name := by
            rw [Statement.apply]
            split <;> rfl
          simp [same]
      | _ => simp [Statement.apply, parseDescription]

/-- Exactly the step statements are written with the step keyword. -/
theorem Writes.isPrefixOf_step {statement : Statement} {line : Text}
    (written : Writes statement line)
    : "step ".toList.isPrefixOf line = !statement.steps.isEmpty := by
  cases written <;> rfl

/-- The step lines of some lines declare the steps of their statements, one by one. Witness:
induction on the lines.
-/
theorem forall₂_steps {statements : List Statement} {entries : List (Text × Nat)}
    (spells : Spells statements entries)
    : List.Forall₂ Declares
        ((entries.map Prod.fst).filter fun line => "step ".toList.isPrefixOf line)
        (statements.flatMap Statement.steps) := by
  induction spells with
  | nil => exact .nil
  | @cons statement entry statements entries spelled _ ih =>
      have starts := spelled.1.isPrefixOf_step
      have unique (other : Statement) (written : Writes other entry.1) : other = statement :=
        written.unique spelled.1
      rw [List.map_cons, List.filter_cons, starts, List.flatMap_cons]
      cases steps : statement.steps with
      | nil => exact ih
      | cons step others =>
          cases statement with
          | step name capability vendor arguments =>
              cases steps
              exact .cons (fun other written => unique other written ▸ rfl) ih
          | _ => cases steps

/-- The result is a composite exactly when no error was found, the agent is named and has a
step.
-/
theorem finish_eq_some_iff {state : ParseState} {composite : Composite}
    : (finish state).1 = some composite
      ↔ state.errors = [] ∧ state.name ≠ "" ∧ state.steps ≠ [] ∧ composite = state.composite := by
  unfold finish
  by_cases named : state.name = ""
  · simp [named]
  · cases errors : state.errors with
    | cons error others => simp [named]
    | nil =>
        cases steps : state.steps with
        | nil => simp [named]
        | cons step others => simp [named, eq_comm]

/-- Errors found in lines are reported. -/
theorem mem_finish_of_mem {state : ParseState} {error : String} (member : error ∈ state.errors)
    : error ∈ (finish state).2 := by
  cases errors : state.errors with
  | nil => simp [errors] at member
  | cons first others =>
      rw [errors] at member
      unfold finish
      by_cases named : state.name = ""
      · simpa [named, errors] using
          List.mem_append_left ["missing \x60agent <name>\x60 declaration"] member
      · simpa [named, errors] using member

/-- Every reported error is one found in a line or one of the two about the whole text. -/
theorem mem_of_mem_finish {state : ParseState} {error : String}
    (member : error ∈ (finish state).2)
    : error ∈ state.errors
      ∨ error = "missing \x60agent <name>\x60 declaration"
      ∨ error = "an agent needs at least one \x60step\x60" := by
  unfold finish at member
  by_cases named : state.name = ""
  · simp [named] at member
    tauto
  · cases errors : state.errors with
    | cons first others =>
        simp [named, errors] at member
        simpa using .inl member
    | nil =>
        cases steps : state.steps with
        | nil =>
            simp [named, errors, steps] at member
            exact .inr (.inr member)
        | cons step others => simp [named, errors, steps] at member

-----------------------------------------------------------------------------------------
-- The documented grammar
-----------------------------------------------------------------------------------------

/-- The statement is one of the documented grammar: white space sets a description off from
its keyword, an input has a known type, and a step lists its arguments.
-/
def Statement.Documented : Statement → Prop
  | .description text => ∀ c ∈ text.head?, isSpace c
  | .input _ _ type => (types.get? type.string).isSome
  | .step _ _ _ arguments => ∃ pairs, Arguments arguments pairs
  | _ => True

theorem Statement.Documented.known {statement : Statement} (documented : statement.Documented)
    : statement.Known := by
  cases statement with
  | input field optional type => exact documented
  | _ => trivial

/-- The line is a statement of the grammar. -/
def WellFormed (line : Text) : Prop := ∃ statement, Writes statement line ∧ statement.Documented

/-- The text is an agent of the grammar. -/
structure Grammatical (text : String) : Prop where
  agent : ∃ entry ∈ statementLines text, ∃ name, Writes (.agent name) entry.1
  step
    : ∃ entry ∈ statementLines text,
        ∃ name capability vendor arguments,
          Writes (.step name capability vendor arguments) entry.1
  wellFormed : ∀ entry ∈ statementLines text, WellFormed entry.1

/-- The step has every argument written in its line as an input. -/
def KeepsArguments (line : Text) (step : Step) : Prop :=
  ∀ name capability vendor arguments pairs,
    Writes (.step name capability vendor arguments) line
    → Arguments arguments pairs
    → ∀ pair ∈ pairs,
        (pair.1.string, pair.2.string) ∈ step.inputs.entries

/-- The parser accepts exactly the grammar, keeps all arguments, and reports every malformed
line of any other text.
-/
structure AcceptsGrammar (text : String) : Prop where
  accepts : (parse text).1.isSome ↔ Grammatical text
  keepsArguments
    : ∀ composite,
        (parse text).1 = some composite
        → List.Forall₂ KeepsArguments (stepLines text) composite.steps
  rejects
    : ¬ Grammatical text
      → (parse text).1 = none
        ∧ ∀ entry ∈ statementLines text,
            ¬ WellFormed entry.1 → ∃ message, lineError entry.2 message ∈ (parse text).2

/-- Lines outside the grammar that no pattern turns down: a description glued to its keyword,
and a step with anything but a list of arguments between its parentheses.
-/
inductive Loose : Text → Prop
  | description {text : Text} (glued : ∃ c ∈ text.head?, isSpace c = false)
    : Loose ("description".toList ++ text)
  | step {name capability : Name} {vendor : Option Name} {arguments line : Text}
    (written : Writes (.step name capability vendor arguments) line)
    (unlisted : ∀ pairs, ¬ Arguments arguments pairs)
    : Loose line

/-- No line is loose, and no step of a grammatical text gives one argument two references. -/
structure Strict (text : String) : Prop where
  notLoose : ∀ entry ∈ statementLines text, ¬ Loose entry.1
  unambiguous
    : Grammatical text
      → ∀ entry ∈ statementLines text,
          ∀ name capability vendor arguments pairs,
            Writes (.step name capability vendor arguments) entry.1
            → Arguments arguments pairs
            → ∀ first ∈ pairs, ∀ second ∈ pairs, first.1 = second.1 → first.2 = second.2

/-- Loose lines are read, but they are no statements of the grammar. -/
theorem Loose.read {line : Text} (loose : Loose line) : Read line ∧ ¬ WellFormed line := by
  cases loose with
  | @description text glued =>
      refine ⟨⟨.description text, .description text, trivial⟩, ?_⟩
      intro wellFormed
      rcases wellFormed with ⟨statement, written, documented⟩
      cases written.unique (.description text)
      obtain ⟨c, first, visible⟩ := glued
      simp [documented c first] at visible
  | step written unlisted =>
      refine ⟨⟨_, written, trivial⟩, ?_⟩
      intro wellFormed
      rcases wellFormed with ⟨statement, again, documented⟩
      cases again.unique written
      obtain ⟨pairs, listed⟩ := documented
      exact unlisted pairs listed

/-- Among lines that are not loose, those that are read are the statements of the grammar. -/
theorem read_iff_wellFormed {line : Text} (notLoose : ¬ Loose line)
    : Read line ↔ WellFormed line := by
  constructor
  · intro read
    rcases read with ⟨statement, written, known⟩
    refine ⟨statement, written, ?_⟩
    cases statement with
    | agent name => trivial
    | description text =>
        intro c first
        by_contra glued
        cases written
        exact notLoose (.description ⟨c, first, by simpa using glued⟩)
    | input field optional type => exact known
    | step name capability vendor arguments =>
        by_contra unlisted
        exact notLoose (.step written (not_exists.mp unlisted))
    | output field ref => trivial
  · intro wellFormed
    rcases wellFormed with ⟨statement, written, documented⟩
    exact ⟨statement, written, documented.known⟩

/-- The state after reading the whole text. -/
def readText (text : String) : ParseState := readLines {} (statementLines text)

/-- A whole text adds errors for exactly the lines that are not read. -/
theorem errors_readText_eq_nil_iff {text : String}
    : (readText text).errors = [] ↔ ∀ entry ∈ statementLines text, Read entry.1 := by
  obtain ⟨-, reported, only⟩ :=
    @errors_readLines {} (statementLines text) fun _ => rstrip_of_mem_statementLines
  constructor
  · intro none entry member
    by_contra unread
    obtain ⟨message, found⟩ := reported entry member unread
    rw [readText] at none
    simp [none] at found
  · intro read
    refine List.eq_nil_iff_forall_not_mem.mpr fun error found => ?_
    rcases only error found with absurdly | ⟨entry, member, unread, -⟩
    · simp at absurdly
    · exact unread (read entry member)

/-- A text is accepted iff all its lines are read, among them an agent and a step. -/
theorem parse_eq_some_iff {text : String} {composite : Composite}
    : (parse text).1 = some composite
      ↔ ∃ statements,
          Spells statements (statementLines text)
          ∧ (∃ name, .agent name ∈ statements)
          ∧ statements.flatMap Statement.steps ≠ []
          ∧ composite = (statements.foldl Statement.apply {}).composite := by
  rw [parse_eq, finish_eq_some_iff]
  change (readText text).errors = [] ∧ (readText text).name ≠ "" ∧ (readText text).steps ≠ []
      ∧ composite = (readText text).composite ↔ _
  rw [errors_readText_eq_nil_iff]
  constructor
  · intro finished
    rcases finished with ⟨read, named, stepped, rfl⟩
    obtain ⟨statements, spells⟩ := exists_spells read
    have ran : readText text = statements.foldl Statement.apply {} := readLines_of_spells spells _
    rw [ran, Ne, name_foldl_apply] at named
    rw [ran, steps_foldl_apply] at stepped
    exact ⟨statements, spells, by simpa using named, stepped, by rw [ran]⟩
  · intro spelled
    rcases spelled with ⟨statements, spells, ⟨name, agent⟩, stepped, rfl⟩
    have ran : readText text = statements.foldl Statement.apply {} := readLines_of_spells spells _
    rw [ran, Ne, name_foldl_apply, steps_foldl_apply]
    refine ⟨?_, fun unnamed => unnamed.2 name agent, stepped, rfl⟩
    intro entry member
    obtain ⟨statement, -, spelled⟩ := exists_of_forall₂ spells.flip member
    exact ⟨statement, spelled⟩

/-- A text is accepted iff all its lines are read, among them an agent and a step. -/
theorem isSome_parse_iff {text : String}
    : (parse text).1.isSome
      ↔ (∀ entry ∈ statementLines text, Read entry.1)
        ∧ (∃ entry ∈ statementLines text, ∃ name, Writes (.agent name) entry.1)
        ∧ ∃ entry ∈ statementLines text,
            ∃ name capability vendor arguments,
              Writes (.step name capability vendor arguments) entry.1 := by
  rw [Option.isSome_iff_exists]
  constructor
  · intro some
    rcases some with ⟨composite, accepted⟩
    obtain ⟨statements, spells, ⟨name, agent⟩, stepped, -⟩ := parse_eq_some_iff.mp accepted
    refine ⟨?_, ?_, ?_⟩
    · intro entry member
      obtain ⟨statement, -, spelled⟩ := exists_of_forall₂ spells.flip member
      exact ⟨statement, spelled⟩
    · obtain ⟨entry, member, written, -⟩ := exists_of_forall₂ spells agent
      exact ⟨entry, member, name, written⟩
    · obtain ⟨step, declared⟩ := List.exists_mem_of_ne_nil _ stepped
      obtain ⟨statement, inStatements, declares⟩ := List.mem_flatMap.mp declared
      obtain ⟨entry, member, written, -⟩ := exists_of_forall₂ spells inStatements
      cases statement with
      | step name capability vendor arguments =>
          exact ⟨entry, member, name, capability, vendor, arguments, written⟩
      | _ => simp [Statement.steps] at declares
  · intro lines
    rcases lines with ⟨read, ⟨entry, inLines, name, agent⟩, other, inOther, stepName,
      capability, vendor, arguments, step⟩
    obtain ⟨statements, spells⟩ := exists_spells read
    obtain ⟨statement, inStatements, written, -⟩ := exists_of_forall₂ spells.flip inLines
    cases written.unique agent
    obtain ⟨statement, inSteps, written, -⟩ := exists_of_forall₂ spells.flip inOther
    cases written.unique step
    refine ⟨_, parse_eq_some_iff.mpr ⟨statements, spells, ⟨name, inStatements⟩, ?_, rfl⟩⟩
    exact List.ne_nil_of_mem (List.mem_flatMap.mpr ⟨_, inSteps, List.mem_singleton_self _⟩)

/-- The steps of an accepted text are those its step lines declare. -/
theorem steps_of_accepted {text : String} {composite : Composite}
    (accepted : (parse text).1 = some composite)
    : List.Forall₂ Declares (stepLines text) composite.steps := by
  obtain ⟨statements, spells, -, -, rfl⟩ := parse_eq_some_iff.mp accepted
  have steps : (statements.foldl Statement.apply {}).composite.steps
      = statements.flatMap Statement.steps := steps_foldl_apply statements {}
  rw [steps]
  exact forall₂_steps spells

/-- A step keeps its arguments iff none of them is written with two references. -/
theorem keepsArguments_iff {line : Text} {step : Step}
    (declared : Declares line step)
    : KeepsArguments line step
      ↔ ∀ name capability vendor arguments pairs,
          Writes (.step name capability vendor arguments) line
          → Arguments arguments pairs
          → ∀ first ∈ pairs, ∀ second ∈ pairs, first.1 = second.1 → first.2 = second.2 := by
  refine forall₅_congr fun name capability vendor arguments pairs => ?_
  refine forall_congr' fun written => forall_congr' fun listed => ?_
  have inputs : step.inputs
      = Dict.ofList (pairs.map fun pair => (pair.1.string, pair.2.string)) := by
    rw [← parseArguments_of_arguments listed]
    exact (congrArg Step.inputs (List.cons.inj (declared _ written)).1).symm
  have all := @Dict.forall_mem_ofList_iff String String _
    (pairs.map fun pair => (pair.1.string, pair.2.string))
  simp only [List.forall_mem_map, Word.string_injective.eq_iff] at all
  rw [inputs]
  exact all

/-- Without loose lines exactly the grammatical texts are accepted. -/
theorem isSome_parse_iff_grammatical {text : String}
    (notLoose : ∀ entry ∈ statementLines text, ¬ Loose entry.1)
    : (parse text).1.isSome ↔ Grammatical text := by
  have lines : (∀ entry ∈ statementLines text, Read entry.1)
      ↔ ∀ entry ∈ statementLines text, WellFormed entry.1 :=
    forall₂_congr fun entry member => read_iff_wellFormed (notLoose entry member)
  rw [isSome_parse_iff, lines]
  exact ⟨fun ⟨wellFormed, agent, step⟩ => ⟨agent, step, wellFormed⟩,
    fun ⟨agent, step, wellFormed⟩ => ⟨wellFormed, agent, step⟩⟩

/-- The error of a line is reported only when that line is not read. -/
theorem not_read_of_reported {text : String} {entry : Text × Nat}
    (member : entry ∈ statementLines text) {message : String}
    (reported : lineError entry.2 message ∈ (parse text).2)
    : ¬ Read entry.1 := by
  rw [parse_eq] at reported
  rcases mem_of_mem_finish reported with found | other | other
  · obtain ⟨-, -, only⟩ :=
      @errors_readLines {} (statementLines text) fun _ => rstrip_of_mem_statementLines
    rcases only _ found with absurdly | ⟨again, inLines, unread, text, same⟩
    · simp at absurdly
    · rwa [eq_of_mem_statementLines member inLines (lineError_injective same)]
  · have initials := congrArg (fun error => error.toList.head?) other
    simp [toList_lineError] at initials
  · have initials := congrArg (fun error => error.toList.head?) other
    simp [toList_lineError] at initials

/-- The parser does with a text what its documentation says iff the text is strict. Witness:
loose lines are read without an error, and a repeated argument overwrites the first one.
-/
theorem acceptsGrammar_iff_strict (text : String) : AcceptsGrammar text ↔ Strict text := by
  constructor
  · intro asClaimed
    refine ⟨?_, ?_⟩
    · intro entry member loose
      have notGrammatical : ¬ Grammatical text :=
        fun grammatical => loose.read.2 (grammatical.wellFormed entry member)
      obtain ⟨message, reported⟩ :=
        (asClaimed.rejects notGrammatical).2 entry member loose.read.2
      exact not_read_of_reported member reported loose.read.1
    · intro grammatical entry member name capability vendor arguments pairs written
      obtain ⟨composite, accepted⟩ :=
        Option.isSome_iff_exists.mp (asClaimed.accepts.mpr grammatical)
      have inSteps : entry.1 ∈ stepLines text := by
        refine List.mem_filter.mpr ⟨List.mem_map_of_mem member, ?_⟩
        rw [written.isPrefixOf_step]
        rfl
      have related := List.Forall₂.mp
        (fun line step declared kept => And.intro declared kept)
        (steps_of_accepted accepted) (asClaimed.keepsArguments composite accepted)
      obtain ⟨step, -, declared, kept⟩ := exists_of_forall₂ related inSteps
      exact (keepsArguments_iff declared).mp kept name capability vendor arguments pairs written
  · intro strict
    have accepts := isSome_parse_iff_grammatical strict.notLoose
    refine ⟨accepts, ?_, ?_⟩
    · intro composite accepted
      have grammatical := accepts.mp (Option.isSome_iff_exists.mpr ⟨composite, accepted⟩)
      have steps : List.Forall₂ (fun line step => line ∈ stepLines text ∧ Declares line step)
          (stepLines text) composite.steps :=
        (List.forall₂_and_left _ _).mpr ⟨fun _ => id, steps_of_accepted accepted⟩
      refine steps.imp fun line step => ?_
      intro both
      rcases both with ⟨member, declared⟩
      obtain ⟨entry, inLines, rfl⟩ := List.mem_map.mp (List.mem_filter.mp member).1
      exact (keepsArguments_iff declared).mpr (strict.unambiguous grammatical entry inLines)
    · intro notGrammatical
      refine ⟨?_, ?_⟩
      · exact Option.not_isSome_iff_eq_none.mp fun accepted => notGrammatical (accepts.mp accepted)
      · intro entry member malformed
        have unread : ¬ Read entry.1 :=
          fun read => malformed ((read_iff_wellFormed (strict.notLoose entry member)).mp read)
        obtain ⟨-, reported, -⟩ :=
          @errors_readLines {} (statementLines text) fun _ => rstrip_of_mem_statementLines
        obtain ⟨message, found⟩ := reported entry member unread
        rw [parse_eq]
        exact ⟨message, mem_finish_of_mem found⟩

/-- A step whose one argument is written with an equals sign. -/
def mistypedAgent : String := "agent a\nstep s = c(name = input.name)"

/-- Any argument is written with a colon. -/
theorem colon_mem_of_writesArguments {text : Text} {pairs : List (Name × Ref)}
    (written : WritesArguments text pairs)
    : ':' ∈ text := by
  cases written <;> simp

/-- The parser accepts the mistyped argument and drops it. -/
theorem mistypedAgent_accepted : ¬ ∀ text, AcceptsGrammar text := by
  intro all
  have accepted : (parse mistypedAgent).1.isSome := by decide +kernel
  have grammatical := (all mistypedAgent).accepts.mp accepted
  let line : Text := "step s = c(name = input.name)".toList
  have member : (line, 2) ∈ statementLines mistypedAgent := by decide +kernel
  obtain ⟨statement, written, documented⟩ := grammatical.wellFormed (line, 2) member
  have mistyped : Writes
      (.step ⟨'s', [], rfl, by simp⟩ ⟨'c', [], rfl, by simp⟩ none "name = input.name".toList)
      line :=
    .step .empty _ .space .space _ none .empty _ (by decide)
  cases written.unique mistyped
  obtain ⟨pairs, ⟨-, blank⟩ | listed⟩ := documented
  · exact absurd (blank 'n' (by decide)) (by decide)
  · exact absurd (colon_mem_of_writesArguments listed) (by decide)

end AgentDsl

end AgentFeatures
