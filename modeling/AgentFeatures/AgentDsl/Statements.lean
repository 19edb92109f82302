import AgentFeatures.AgentDsl.Lines

/-! What the parser does with a line of the grammar, and with any other line. -/

namespace AgentFeatures

open Library
open Library.Text (isSpace strip lstrip rstrip)

namespace AgentDsl

/-- The input type is one of the known ones. -/
def Statement.Known : Statement → Prop
  | .input _ _ type => (types.get? type.string).isSome
  | _ => True

/-- What a statement declares. -/
def Statement.apply (state : ParseState) : Statement → ParseState
  | .agent name => { state with name := name.string }
  | .description text => parseDescription state text
  | .input field optional type =>
      match types.get? type.string with
      | none => state
      | some type => state.addInput field.text (optionalMark optional) type
  | .step name capability vendor arguments =>
      let step : Step := {
        name := name.string
        capability := capability.string
        vendor := vendor.map fun vendor => vendor.string
        inputs := parseArguments arguments }
      { state with steps := state.steps ++ [step] }
  | .output field ref =>
      { state with output := state.output.set field.string ref.string }

section Keywords

variable (state : ParseState) (i : Nat) (rest : Text)

theorem parseLine_agent
    : parseLine state i ("agent ".toList ++ rest) = parseAgent state i rest := rfl

theorem parseLine_description
    : parseLine state i ("description".toList ++ rest) = parseDescription state rest := rfl

theorem parseLine_input
    : parseLine state i ("input ".toList ++ rest)
      = parseInput state i ("input ".toList ++ rest) := by
  have noAgent : "agent ".toList.isPrefixOf ("input ".toList ++ rest) = false := rfl
  have noDescription : "description".toList.isPrefixOf ("input ".toList ++ rest) = false := rfl
  have here : "input ".toList.isPrefixOf ("input ".toList ++ rest) = true := rfl
  simp only [parseLine, noAgent, noDescription, here, if_true, Bool.false_eq_true, if_false]

theorem parseLine_step
    : parseLine state i ("step ".toList ++ rest)
      = parseStep state i ("step ".toList ++ rest) := by
  have noAgent : "agent ".toList.isPrefixOf ("step ".toList ++ rest) = false := rfl
  have noDescription : "description".toList.isPrefixOf ("step ".toList ++ rest) = false := rfl
  have noInput : "input ".toList.isPrefixOf ("step ".toList ++ rest) = false := rfl
  have here : "step ".toList.isPrefixOf ("step ".toList ++ rest) = true := rfl
  simp only [parseLine, noAgent, noDescription, noInput, here, if_true, Bool.false_eq_true,
    if_false]

theorem parseLine_output
    : parseLine state i ("output ".toList ++ rest)
      = parseOutput state i ("output ".toList ++ rest) := by
  have noAgent : "agent ".toList.isPrefixOf ("output ".toList ++ rest) = false := rfl
  have noDescription : "description".toList.isPrefixOf ("output ".toList ++ rest) = false := rfl
  have noInput : "input ".toList.isPrefixOf ("output ".toList ++ rest) = false := rfl
  have noStep : "step ".toList.isPrefixOf ("output ".toList ++ rest) = false := rfl
  have here : "output ".toList.isPrefixOf ("output ".toList ++ rest) = true := rfl
  simp only [parseLine, noAgent, noDescription, noInput, noStep, here, if_true,
    Bool.false_eq_true, if_false]

end Keywords

/-- Around a name, stripping leaves the name. -/
theorem strip_name (gap : Gap) (name : Name) : strip (gap.text ++ name.text) = name.text := by
  have stops : Text.Stops isSpace name.text := by simpa using name.stops_space []
  have front : lstrip (gap.text ++ name.text) = name.text := stops.dropWhile_append gap.blank
  have unbroken : ∀ c ∈ name.text, isSpace c = false := by
    intro c member
    rcases List.mem_cons.mp member with rfl | later
    · exact visible _ (isNameChar_of_isNameStart name.starts)
    · exact visible _ (name.continues c later)
  rw [strip, front, Text.rstrip_eq unbroken]

/-- A known statement does what it declares. Witness: its line's pattern reads its parts. -/
theorem parseLine_of_writes (state : ParseState) (i : Nat) {statement : Statement}
    {line : Text} (written : Writes statement line) (known : statement.Known)
    : parseLine state i line = statement.apply state := by
  cases written with
  | agent gap name =>
      rw [parseLine_agent]
      simp [parseAgent, strip_name, fullmatch_name, Statement.apply]
  | description text => exact parseLine_description state i text
  | input gap field optional before after type =>
      obtain ⟨known, found⟩ := Option.isSome_iff_exists.mp known
      rw [parseLine_input, parseInput, inputRe_fullmatch]
      simp only [Word.ofList_text, found, Statement.apply]
  | step gap name before after capability vendor last arguments oneLine =>
      rw [parseLine_step, parseStep, stepRe_fullmatch _ _ _ _ _ _ _ oneLine]
      simp [Statement.apply, Function.comp_def]
  | output gap field before after ref =>
      rw [parseLine_output, parseOutput, outputRe_fullmatch]
      rfl

/-- A written agent line: what is left of it after stripping is its name. -/
theorem writes_agent {rest : Text}
    (trimmed : rstrip ("agent ".toList ++ rest) = "agent ".toList ++ rest)
    {name : Name} (named : strip rest = name.text)
    : Writes (.agent name) ("agent ".toList ++ rest) := by
  have split : rest.takeWhile isSpace ++ lstrip rest = rest := List.takeWhile_append_dropWhile
  have blank : ∀ c ∈ rest.takeWhile isSpace, isSpace c :=
    fun c member => List.mem_takeWhile_imp member
  rw [← split, ← List.append_assoc] at trimmed
  rw [strip, Text.rstrip_of_append trimmed] at named
  rw [← split, named]
  exact .agent ⟨_, blank⟩ name

/-- Any other line adds an error with its number and declares nothing but a name. Witness: what
the pattern of its keyword matches is written by the grammar.
-/
theorem parseLine_of_unread (state : ParseState) (i : Nat) {line : Text}
    (trimmed : rstrip line = line)
    (unread : ∀ statement, Writes statement line → ¬ statement.Known)
    : ∃ name message, parseLine state i line = { state with name }.fail i message := by
  unfold parseLine
  split
  · next starts =>
      obtain ⟨rest, rfl⟩ := List.isPrefixOf_iff_prefix.mp starts
      refine ⟨.ofList (strip rest), ?_⟩
      cases found : nameRe.fullmatch (strip rest) with
      | none =>
          exact ⟨s!"invalid agent name '{String.ofList (strip rest)}'", by simp [parseAgent, found]⟩
      | some captures =>
          obtain ⟨name, named, -⟩ := exists_name (Regex.matches_of_fullmatch found)
          exact absurd trivial (unread _ (writes_agent trimmed named))
  split
  · next starts =>
      obtain ⟨rest, rfl⟩ := List.isPrefixOf_iff_prefix.mp starts
      exact absurd trivial (unread _ (.description rest))
  split
  · next starts =>
      refine ⟨state.name, ?_⟩
      unfold parseInput
      cases found : inputRe.fullmatch line with
      | none => exact ⟨_, rfl⟩
      | some captures =>
          obtain ⟨field, optional, type, written, rfl⟩ :=
            exists_of_inputRe (Regex.matches_of_fullmatch found) starts
          have unknown : types.get? type.string = none := by
            simpa [Statement.Known] using unread _ written
          simp only [Word.ofList_text, unknown]
          exact ⟨_, rfl⟩
  split
  · next starts =>
      refine ⟨state.name, ?_⟩
      unfold parseStep
      cases found : stepRe.fullmatch line with
      | none => exact ⟨_, rfl⟩
      | some captures =>
          obtain ⟨name, capability, vendor, arguments, written, -⟩ :=
            exists_of_stepRe (Regex.matches_of_fullmatch found) starts
          exact absurd trivial (unread _ written)
  split
  · next starts =>
      refine ⟨state.name, ?_⟩
      unfold parseOutput
      cases found : outputRe.fullmatch line with
      | none => exact ⟨_, rfl⟩
      | some captures =>
          obtain ⟨field, ref, written, -⟩ :=
            exists_of_outputRe (Regex.matches_of_fullmatch found) starts
          exact absurd trivial (unread _ written)
  · exact ⟨state.name, _, rfl⟩

theorem optionalMark_injective {optional other : Bool}
    (same : optionalMark optional = optionalMark other)
    : optional = other := by
  cases optional <;> cases other <;> first | rfl | cases same

/-- The first letter of the keyword. -/
def Statement.initial : Statement → Char
  | .agent _ => 'a'
  | .description _ => 'd'
  | .input .. => 'i'
  | .step .. => 's'
  | .output .. => 'o'

/-- What the parser's pattern for the statement's keyword reads from the line. -/
def Statement.ReadFrom (line : Text) : Statement → Prop
  | .agent name => strip (line.drop 6) = name.text
  | .description text => line.drop 11 = text
  | .input field optional type =>
      inputRe.fullmatch line
        = some [some field.text, some (optionalMark optional), some type.text]
  | .step name capability vendor arguments =>
      stepRe.fullmatch line
        = some [some name.text, some capability.text, vendor.map Word.text, some arguments]
  | .output field ref => outputRe.fullmatch line = some [some field.text, some ref.text]

/-- A written line starts with its keyword, and its parts are read from it. -/
theorem Writes.readFrom {statement : Statement} {line : Text} (written : Writes statement line)
    : line.head? = some statement.initial ∧ statement.ReadFrom line := by
  cases written with
  | agent gap name => exact ⟨rfl, strip_name gap name⟩
  | description text => exact ⟨rfl, rfl⟩
  | input gap field optional before after type =>
      exact ⟨rfl, inputRe_fullmatch gap field optional before after type⟩
  | step gap name before after capability vendor last arguments oneLine =>
      exact ⟨rfl, stepRe_fullmatch gap name before after capability vendor last oneLine⟩
  | output gap field before after ref => exact ⟨rfl, outputRe_fullmatch gap field before after ref⟩

/-- A line is written by at most one statement. Witness: the pattern of its keyword captures
the statement's parts.
-/
theorem Writes.unique {statement other : Statement} {line : Text}
    (written : Writes statement line) (again : Writes other line)
    : statement = other := by
  obtain ⟨starts, read⟩ := written.readFrom
  obtain ⟨startsAgain, readAgain⟩ := again.readFrom
  have initials : statement.initial = other.initial :=
    Option.some.inj (starts.symm.trans startsAgain)
  cases statement with
  | agent name =>
      cases other with
      | agent other => rw [Word.text_injective (Eq.trans (Eq.symm read) readAgain)]
      | _ => simp [Statement.initial] at initials
  | description text =>
      cases other with
      | description other => rw [← Eq.trans (Eq.symm read) readAgain]
      | _ => simp [Statement.initial] at initials
  | input field optional type =>
      cases other with
      | input otherField otherOptional otherType =>
          have same := Eq.trans (Eq.symm read) readAgain
          simp only [Option.some.injEq, List.cons.injEq, and_true] at same
          rw [Word.text_injective same.1, optionalMark_injective same.2.1,
            Word.text_injective same.2.2]
      | _ => simp [Statement.initial] at initials
  | step name capability vendor arguments =>
      cases other with
      | step otherName otherCapability otherVendor otherArguments =>
          have same := Eq.trans (Eq.symm read) readAgain
          simp only [Option.some.injEq, List.cons.injEq, and_true] at same
          rw [Word.text_injective same.1, Word.text_injective same.2.1,
            Option.map_injective (fun _ _ => Word.text_injective) same.2.2.1, same.2.2.2]
      | _ => simp [Statement.initial] at initials
  | output field ref =>
      cases other with
      | output otherField otherRef =>
          have same := Eq.trans (Eq.symm read) readAgain
          simp only [Option.some.injEq, List.cons.injEq, and_true] at same
          rw [Word.text_injective same.1, Word.text_injective same.2]
      | _ => simp [Statement.initial] at initials

end AgentDsl

end AgentFeatures
