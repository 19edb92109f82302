import AgentFeatures.AgentDsl.Acceptance
import AgentFeatures.Library.Transitions

/-! The layout of an agent file: blank lines, comments, and the order of unlike statements. -/

namespace AgentFeatures

open Library
open Library.Text (splitlines)

namespace AgentDsl

-----------------------------------------------------------------------------------------
-- Kinds of statements
-----------------------------------------------------------------------------------------

/-- The kinds of statements. -/
inductive Kind
  | agent
  | description
  | input
  | step
  | output
deriving DecidableEq

/-- The kind of statement a line without comment is read as. -/
def lineKind? (line : Text) : Option Kind :=
  if "agent ".toList.isPrefixOf line then some .agent
  else if "description".toList.isPrefixOf line then some .description
  else if "input ".toList.isPrefixOf line then some .input
  else if "step ".toList.isPrefixOf line then some .step
  else if "output ".toList.isPrefixOf line then some .output
  else none

def Statement.kind : Statement → Kind
  | .agent _ => .agent
  | .description _ => .description
  | .input .. => .input
  | .step .. => .step
  | .output .. => .output

theorem lineKind?_of_writes {statement : Statement} {line : Text}
    (written : Writes statement line)
    : lineKind? line = some statement.kind := by
  cases written <;> rfl

/-- What the statements of a kind declare. -/
def Kind.Part : Kind → Type
  | .agent => String
  | .description => String
  | .input => Dict String Json × List String
  | .step => List Step
  | .output => Dict String String

/-- The part of the state that the statements of a kind declare. -/
def ParseState.part (state : ParseState) : (kind : Kind) → kind.Part
  | .agent => state.name
  | .description => state.description
  | .input => (state.props, state.required)
  | .step => state.steps
  | .output => state.output

/-- A statement changes the part of its kind only. -/
theorem part_apply_of_ne {state : ParseState} {statement : Statement} {kind : Kind}
    (other : statement.kind ≠ kind)
    : (statement.apply state).part kind = state.part kind := by
  cases statement with
  | input field optional type =>
      rw [Statement.apply]
      cases types.get? type.string with
      | none => rfl
      | some known =>
          cases kind with
          | input => exact absurd rfl other
          | _ => rfl
  | _ => cases kind <;> first | rfl | exact absurd rfl other

/-- What a statement makes of a part depends on this part only. -/
theorem part_apply_congr {state state' : ParseState} (statement : Statement) {kind : Kind}
    (agree : state.part kind = state'.part kind)
    : (statement.apply state).part kind = (statement.apply state').part kind := by
  by_cases own : statement.kind = kind
  · subst own
    cases statement with
    | agent name => rfl
    | description text => rfl
    | input field optional type =>
        obtain ⟨props, required⟩ := Prod.mk.inj agree
        rw [Statement.apply, Statement.apply]
        cases types.get? type.string with
        | none => exact agree
        | some known =>
            simp only [Statement.kind, ParseState.part, ParseState.addInput, props, required]
            rfl
    | step name capability vendor arguments => exact congrArg (· ++ _) agree
    | output field ref => exact congrArg (Dict.set · field.string ref.string) agree
  · rw [part_apply_of_ne own, part_apply_of_ne own, agree]

/-- The composite is made of the parts. -/
theorem composite_eq_of_parts {state state' : ParseState}
    (parts : ∀ kind, state.part kind = state'.part kind)
    : state.composite = state'.composite := by
  obtain ⟨props, required⟩ := Prod.mk.inj (parts .input)
  have name : state.name = state'.name := parts .agent
  have description : state.description = state'.description := parts .description
  have steps : state.steps = state'.steps := parts .step
  have output : state.output = state'.output := parts .output
  simp only [ParseState.composite, name, description, props, required, steps, output]

/-- Statements that are the same for each kind compile to the same composite. -/
theorem composite_foldl_congr {statements statements' : List Statement}
    (kinds : ∀ kind, statements.filter (·.kind = kind) = statements'.filter (·.kind = kind))
    : (statements.foldl Statement.apply {}).composite
      = (statements'.foldl Statement.apply {}).composite := by
  refine composite_eq_of_parts fun kind => ?_
  have untouched (state : ParseState) (statement : Statement)
      (other : decide (statement.kind = kind) = false)
      : (statement.apply state).part kind = state.part kind :=
    part_apply_of_ne (by simpa using other)
  have determined (state state' : ParseState) (statement : Statement)
      (agree : state.part kind = state'.part kind)
      : (statement.apply state).part kind = (statement.apply state').part kind :=
    part_apply_congr statement agree
  exact Transitions.part_run_congr untouched determined (kinds kind) {}

-----------------------------------------------------------------------------------------
-- Changes of the layout
-----------------------------------------------------------------------------------------

/-- One change of the layout of some lines: a blank or comment-only line is inserted, or the
lines are reordered without changing the order of the lines of any one kind.
-/
inductive Relaid : List Text → List Text → Prop
  | insert (before : List Text) {line : Text} (after : List Text) (blank : lineText line = [])
    : Relaid (before ++ after) (before ++ line :: after)
  | reorder {lines lines' : List Text} (permuted : lines.Perm lines')
    (kinds
      : ∀ kind,
          lines.filter (fun line => lineKind? (lineText line) = some kind)
            = lines'.filter (fun line => lineKind? (lineText line) = some kind))
    : Relaid lines lines'

/-- The lines without comments that are not blank. -/
def visibleLines (lines : List Text) : List Text :=
  (lines.map lineText).filter fun line => !line.isEmpty

theorem map_fst_statementLines (text : String)
    : (statementLines text).map Prod.fst = visibleLines (splitlines text.toList) := by
  have numbered : ((splitlines text.toList).zipIdx 1).map (fun entry => lineText entry.1)
      = (splitlines text.toList).map lineText := by
    rw [← Function.comp_def lineText Prod.fst, ← List.map_map, List.zipIdx_map_fst]
  rw [visibleLines, ← numbered, statementLines, List.filter_map, List.filter_map, List.map_map]
  rfl

/-- The second lines say nothing else than the first ones, and say it in the same order within
each kind.
-/
structure SameStatements (lines lines' : List Text) : Prop where
  subset : visibleLines lines' ⊆ visibleLines lines
  kinds
    : ∀ kind,
        (visibleLines lines).filter (fun line => lineKind? line = some kind)
          = (visibleLines lines').filter fun line => lineKind? line = some kind

/-- A change of the layout keeps the statements. -/
theorem Relaid.sameStatements {lines lines' : List Text} (relaid : Relaid lines lines')
    : SameStatements lines lines' := by
  cases relaid with
  | @insert before line after blank =>
      have same : visibleLines (before ++ line :: after) = visibleLines (before ++ after) := by
        simp [visibleLines, blank]
      exact ⟨same ▸ fun _ => id, fun kind => by rw [same]⟩
  | reorder permuted kinds =>
      refine ⟨?_, fun kind => ?_⟩
      · exact ((permuted.map lineText).filter _).symm.subset
      · have inOrder (lines : List Text)
            : (visibleLines lines).filter (fun line => lineKind? line = some kind)
              = visibleLines (lines.filter fun line => lineKind? (lineText line) = some kind) := by
          simp only [visibleLines, List.filter_map, List.filter_filter, Function.comp_def,
            Bool.and_comm]
        rw [inOrder, inOrder, kinds kind]

/-- Changes of the layout keep the statements, by induction on the changes. -/
theorem sameStatements_of_relaid {lines lines' : List Text}
    (relaid : Relation.ReflTransGen Relaid lines lines')
    : SameStatements lines lines' := by
  induction relaid with
  | refl => exact ⟨fun _ => id, fun _ => rfl⟩
  | tail _ next ih =>
      obtain ⟨subset, kinds⟩ := next.sameStatements
      refine ⟨fun line member => ih.subset (subset member), fun kind => ?_⟩
      exact (ih.kinds kind).trans (kinds kind)

/-- The statements of a kind are those of the lines of the kind, by induction on the lines. -/
theorem Spells.filter_kind {statements : List Statement} {entries : List (Text × Nat)}
    (spells : Spells statements entries) (kind : Kind)
    : List.Forall₂ Writes (statements.filter (·.kind = kind))
        ((entries.map Prod.fst).filter fun line => lineKind? line = some kind) := by
  induction spells with
  | nil => exact .nil
  | @cons statement entry _ _ spelled _ ih =>
      have same := lineKind?_of_writes spelled.1
      by_cases here : statement.kind = kind
      · rw [List.filter_cons_of_pos (by simp [here]), List.map_cons,
          List.filter_cons_of_pos (by simp [same, here])]
        exact .cons spelled.1 ih
      · rw [List.filter_cons_of_neg (by simp [here]), List.map_cons,
          List.filter_cons_of_neg (by simp [same, here])]
        exact ih

/-- An accepted text has no errors. -/
theorem parse_eq_of_accepted {text : String} {composite : Composite}
    (accepted : (parse text).1 = some composite)
    : parse text = (some composite, []) := by
  rw [parse_eq] at accepted ⊢
  obtain ⟨errors, named, stepped, rfl⟩ := finish_eq_some_iff.mp accepted
  simp [finish, errors, named, stepped]

/-- A text that lays out the lines of an accepted one differently is accepted with the same
composite. Witness: each part of the composite is declared by the statements of one kind, whose
lines are the same in both texts.
-/
theorem parse_relaid {text text' : String} {composite : Composite}
    (accepted : (parse text).1 = some composite)
    (relaid : Relation.ReflTransGen Relaid (splitlines text.toList) (splitlines text'.toList))
    : parse text' = (some composite, []) := by
  obtain ⟨subset, kinds⟩ := sameStatements_of_relaid relaid
  obtain ⟨statements, spells, ⟨name, agent⟩, stepped, rfl⟩ := parse_eq_some_iff.mp accepted
  have read : ∀ entry ∈ statementLines text', Read entry.1 := by
    intro entry member
    have inLines := List.mem_map_of_mem (f := Prod.fst) member
    rw [map_fst_statementLines] at inLines
    have before := subset inLines
    rw [← map_fst_statementLines] at before
    obtain ⟨other, inOther, same⟩ := List.mem_map.mp before
    obtain ⟨statement, -, spelled⟩ := exists_of_forall₂ spells.flip inOther
    exact ⟨statement, same ▸ spelled⟩
  obtain ⟨statements', spells'⟩ := exists_spells read
  have same (kind : Kind)
      : statements.filter (·.kind = kind) = statements'.filter (·.kind = kind) := by
    have first := spells.filter_kind kind
    have second := spells'.filter_kind kind
    rw [map_fst_statementLines] at first second
    rw [kinds kind] at first
    have unique : Relator.LeftUnique Writes := fun _ _ _ => Writes.unique
    exact List.left_unique_forall₂' unique first second
  have compiled := composite_foldl_congr same
  have steps : statements.flatMap Statement.steps = statements'.flatMap Statement.steps := by
    have fromSteps := congrArg Composite.steps compiled
    simpa [ParseState.composite, steps_foldl_apply] using fromSteps
  have agent' : .agent name ∈ statements' := by
    have inKind : .agent name ∈ statements.filter (·.kind = .agent) :=
      List.mem_filter.mpr ⟨agent, rfl⟩
    rw [same .agent] at inKind
    exact (List.mem_filter.mp inKind).1
  refine parse_eq_of_accepted (parse_eq_some_iff.mpr ?_)
  exact ⟨statements', spells', ⟨name, agent'⟩, steps ▸ stepped, compiled⟩

/-- An agent, and the same one with its lines in another order, a comment and a blank line. -/
def pinnedAgent : String :=
  "agent a\nstep g = greet@globex(name: input.n)\noutput o = g.greeting\ninput n: string"

def pinnedAgentRelaid : String :=
  "input n: string\n# greets\nagent a\n\n"
    ++ "output o = g.greeting\nstep g = greet@globex(name: input.n)"

theorem pinnedAgent_relaid
    : ∃ composite,
        parse pinnedAgent = (some composite, [])
        ∧ parse pinnedAgentRelaid = (some composite, []) := by
  have accepted : (parse pinnedAgent).1.isSome := by decide +kernel
  obtain ⟨composite, parsed⟩ := Option.isSome_iff_exists.mp accepted
  let step := "step g = greet@globex(name: input.n)".toList
  let output := "output o = g.greeting".toList
  let input := "input n: string".toList
  have lines : splitlines pinnedAgent.toList = ["agent a".toList] ++ [step, output, input] := by
    decide +kernel
  have relaidLines : splitlines pinnedAgentRelaid.toList
      = [input, "# greets".toList, "agent a".toList, [], output, step] := by
    decide +kernel
  refine ⟨composite, parse_eq_of_accepted parsed, parse_relaid parsed ?_⟩
  rw [lines, relaidLines]
  have blank : Relaid (["agent a".toList] ++ [step, output, input])
      (["agent a".toList] ++ [] :: [step, output, input]) :=
    .insert _ _ rfl
  have comment : Relaid ([] ++ "agent a".toList :: [] :: [step, output, input])
      ([] ++ "# greets".toList :: "agent a".toList :: [] :: [step, output, input]) :=
    .insert _ _ (by decide +kernel)
  have reordered : Relaid ("# greets".toList :: "agent a".toList :: [] :: [step, output, input])
      [input, "# greets".toList, "agent a".toList, [], output, step] := by
    refine .reorder (by decide +kernel) fun kind => ?_
    cases kind <;> decide +kernel
  exact .tail (.tail (.tail .refl blank) comment) reordered

end AgentDsl

end AgentFeatures
