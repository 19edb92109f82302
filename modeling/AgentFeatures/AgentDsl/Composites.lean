import AgentFeatures.AgentDsl.Acceptance

/-! What every composite that the parser returns has in common. -/

namespace AgentFeatures

open Library
open Library.Text (isLineBreak strip)

namespace AgentDsl

/-- The declarations have the form that statements give them. -/
structure ParseState.Regular (state : ParseState) : Prop where
  name : state.name = "" ∨ ∃ name : Name, state.name = name.string
  description : ∀ c ∈ state.description.toList, isLineBreak c = false
  props : ∀ field ∈ state.props.entries, ∃ type, field.2 = .obj [("type", .str type)]
  steps : ∀ step ∈ state.steps, step.version = none

/-- The parser starts without declarations. -/
theorem ParseState.regular_initial : ParseState.Regular {} where
  name := .inl rfl
  description := by simp
  props := by simp
  steps := by simp

/-- What is left between two runs of a class is part of the text. -/
theorem mem_of_mem_rdropWhile_dropWhile {cls : Char → Bool} {text : Text} {c : Char}
    (member : c ∈ (text.dropWhile cls).rdropWhile cls)
    : c ∈ text :=
  (List.dropWhile_suffix cls).subset ((List.rdropWhile_prefix cls _).subset member)

/-- Each statement on a line of its own keeps the form. -/
theorem ParseState.Regular.apply {state : ParseState} (regular : state.Regular)
    {statement : Statement} {line : Text} (written : Writes statement line)
    (unbroken : ∀ c ∈ line, isLineBreak c = false)
    : (statement.apply state).Regular := by
  cases written with
  | agent gap name => exact { regular with name := .inr ⟨name, rfl⟩ }
  | description text =>
      refine { regular with description := ?_ }
      intro c member
      rw [Statement.apply, parseDescription, String.toList_ofList] at member
      have inText := mem_of_mem_rdropWhile_dropWhile (mem_of_mem_rdropWhile_dropWhile member)
      exact unbroken c (List.mem_append_right _ inText)
  | input gap field optional before after type =>
      rw [Statement.apply]
      split
      · exact regular
      · next type _ =>
          refine { regular with props := ?_ }
          intro field member
          rcases Dict.mem_entries_set member with old | rfl
          · exact regular.props field old
          · exact ⟨type, rfl⟩
  | step gap name before after capability vendor last arguments oneLine =>
      refine { regular with steps := ?_ }
      intro step member
      rcases List.mem_append.mp member with old | new
      · exact regular.steps step old
      · rw [List.mem_singleton.mp new]
  | output gap field before after ref => exact { regular with }

/-- Statements on lines of their own keep the form, by induction on the lines. -/
theorem ParseState.Regular.foldl {state : ParseState} (regular : state.Regular)
    {statements : List Statement} {entries : List (Text × Nat)}
    (spells : Spells statements entries)
    (unbroken : ∀ entry ∈ entries, ∀ c ∈ entry.1, isLineBreak c = false)
    : (statements.foldl Statement.apply state).Regular := by
  induction spells generalizing state with
  | nil => exact regular
  | cons spelled _ ih =>
      obtain ⟨here, later⟩ := List.forall_mem_cons.mp unbroken
      exact ih (regular.apply spelled.1 here) later

/-- Statement lines have no line breaks. -/
theorem isLineBreak_of_mem_statementLines {text : String} {entry : Text × Nat}
    (member : entry ∈ statementLines text)
    : ∀ c ∈ entry.1, isLineBreak c = false := by
  obtain ⟨numbered, inLines, rfl⟩ := List.mem_map.mp (List.mem_filter.mp member).1
  have split := List.fst_mem_of_mem_zipIdx inLines
  intro c inLine
  have inRaw := (List.takeWhile_prefix _).subset (mem_of_mem_rdropWhile_dropWhile inLine)
  exact Text.isLineBreak_of_mem_splitlinesFrom (by simp) split c inRaw

/-- Declared fields are written as names. -/
structure ParseState.Named (state : ParseState) : Prop where
  inputs : ∀ key ∈ state.props.keys, ∃ name : Name, key = name.string
  outputs : ∀ key ∈ state.output.keys, ∃ name : Name, key = name.string

theorem ParseState.named_initial : ParseState.Named {} where
  inputs := by simp
  outputs := by simp

/-- Each statement declares fields by names only. -/
theorem ParseState.Named.apply {state : ParseState} (named : state.Named) (statement : Statement)
    : (statement.apply state).Named := by
  cases statement with
  | agent name => exact { named with }
  | description text => exact { named with }
  | step name capability vendor arguments => exact { named with }
  | input field optional type =>
      rw [Statement.apply]
      split
      · exact named
      · refine { named with inputs := ?_ }
        intro key member
        rcases Dict.mem_keys_set.mp member with old | rfl
        · exact named.inputs key old
        · exact ⟨field, rfl⟩
  | output field ref =>
      refine { named with outputs := ?_ }
      intro key member
      rcases Dict.mem_keys_set.mp member with old | rfl
      · exact named.outputs key old
      · exact ⟨field, rfl⟩

/-- Statements declare fields by names only, by induction on them. -/
theorem ParseState.Named.foldl {state : ParseState} (named : state.Named)
    (statements : List Statement)
    : (statements.foldl Statement.apply state).Named := by
  induction statements generalizing state with
  | nil => exact named
  | cons statement rest ih => exact ih (named.apply statement)

/-- An accepted text compiles to the composite of declarations of this form, with names for its
agent and its fields.
-/
theorem exists_named {text : String} {composite : Composite}
    (accepted : (parse text).1 = some composite)
    : ∃ state : ParseState,
        state.Regular
        ∧ state.Named
        ∧ (∃ name : Name, state.name = name.string)
        ∧ composite = state.composite := by
  obtain ⟨statements, spells, ⟨name, agent⟩, -, rfl⟩ := parse_eq_some_iff.mp accepted
  have regular := ParseState.regular_initial.foldl spells
    fun entry => isLineBreak_of_mem_statementLines
  refine ⟨_, regular, ParseState.named_initial.foldl statements,
    regular.name.resolve_left ?_, rfl⟩
  rw [name_foldl_apply]
  exact fun unnamed => unnamed.2 name agent

/-- An accepted text compiles to the composite of declarations of this form, with a name. -/
theorem exists_regular {text : String} {composite : Composite}
    (accepted : (parse text).1 = some composite)
    : ∃ state : ParseState,
        state.Regular
        ∧ (∃ name : Name, state.name = name.string)
        ∧ composite = state.composite := by
  obtain ⟨state, regular, -, named, compiled⟩ := exists_named accepted
  exact ⟨state, regular, named, compiled⟩

/-- The input schema of declared fields holds them as its properties. -/
theorem get?_properties_inputSchema (props : Dict String Json) (required : List String)
    : (inputSchema props required).get? "properties" = some (.ofDict props) := by
  unfold inputSchema
  split
  · exact Dict.get?_set_self ..
  · exact (Dict.get?_set_ne _ _ (by decide)).trans (Dict.get?_set_self ..)

end AgentDsl

end AgentFeatures
