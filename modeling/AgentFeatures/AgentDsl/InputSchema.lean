import AgentFeatures.AgentDsl.ClosedPrograms

/-! The compiled input schema against the input declarations, with any re-declarations. -/

namespace AgentFeatures

open Library

namespace AgentDsl

-----------------------------------------------------------------------------------------
-- Declarations
-----------------------------------------------------------------------------------------

/-- A declaration of an input: its field, whether it is marked optional, and the type that the
schema gives it.
-/
structure InputDecl where
  field : String
  optional : Bool
  type : String
deriving DecidableEq

/-- What a line declares as an input. -/
def lineInput? (line : Text) : Option InputDecl :=
  if "input ".toList.isPrefixOf line then
    match inputRe.fullmatch line with
    | some [some field, some optional, some typ] =>
        (types.get? (.ofList typ)).map fun type => ⟨.ofList field, optional = ['?'], type⟩
    | _ => none
  else none

/-- The input declarations of a text, in order. -/
def declaredInputs (text : String) : List InputDecl :=
  (statementLines text).filterMap fun entry => lineInput? entry.1

/-- The declaration is the last one of its field. -/
def InForce (decls : List InputDecl) (decl : InputDecl) : Prop :=
  ∃ before after, decls = before ++ decl :: after ∧ ∀ later ∈ after, later.field ≠ decl.field

theorem inForce_cons_iff {first decl : InputDecl} {rest : List InputDecl}
    : InForce (first :: rest) decl
      ↔ (decl = first ∧ ∀ later ∈ rest, later.field ≠ first.field) ∨ InForce rest decl := by
  constructor
  · intro inForce
    obtain ⟨before, after, split, isLast⟩ := inForce
    cases before with
    | nil =>
        obtain ⟨rfl, rfl⟩ := List.cons.inj split
        exact .inl ⟨rfl, isLast⟩
    | cons head before =>
        obtain ⟨rfl, rfl⟩ := List.cons.inj split
        exact .inr ⟨before, after, rfl, isLast⟩
  · intro either
    rcases either with ⟨rfl, isLast⟩ | ⟨before, after, rfl, isLast⟩
    · exact ⟨[], rest, rfl, isLast⟩
    · exact ⟨first :: before, after, rfl, isLast⟩

theorem InForce.mem {decls : List InputDecl} {decl : InputDecl} (inForce : InForce decls decl)
    : decl ∈ decls := by
  obtain ⟨before, after, rfl, -⟩ := inForce
  exact List.mem_append_right _ List.mem_cons_self

/-- Every declared field has a declaration in force, by induction on the declarations. -/
theorem exists_inForce {decls : List InputDecl} {decl : InputDecl} (member : decl ∈ decls)
    : ∃ last, InForce decls last ∧ last.field = decl.field := by
  induction decls generalizing decl with
  | nil => exact absurd member List.not_mem_nil
  | cons first rest ih =>
      by_cases later : ∃ other ∈ rest, other.field = decl.field
      · obtain ⟨other, inRest, same⟩ := later
        obtain ⟨last, inForce, field⟩ := ih inRest
        exact ⟨last, inForce_cons_iff.mpr (.inr inForce), field.trans same⟩
      · rcases List.mem_cons.mp member with rfl | inRest
        · refine ⟨decl, inForce_cons_iff.mpr (.inl ⟨rfl, ?_⟩), rfl⟩
          exact fun other inRest same => later ⟨other, inRest, same⟩
        · exact absurd ⟨decl, inRest, rfl⟩ later

/-- The fields of the declarations that are not optional. -/
def requiredFields (decls : List InputDecl) : List String :=
  (decls.filter fun decl => !decl.optional).map InputDecl.field

theorem mem_requiredFields_iff {decls : List InputDecl} {field : String}
    : field ∈ requiredFields decls
      ↔ ∃ decl ∈ decls, decl.optional = false ∧ decl.field = field := by
  simp [requiredFields, and_assoc]

/-- No declaration that is not optional is followed by another one of its field. -/
def RequiredOnce (decls : List InputDecl) : Prop :=
  decls.Pairwise fun first second => first.optional = false → second.field ≠ first.field

/-- The required fields are distinct and those of the declarations in force that are not
optional.
-/
def Consistent (decls : List InputDecl) : Prop :=
  (requiredFields decls).Nodup
  ∧ ∀ decl, InForce decls decl → (decl.field ∈ requiredFields decls ↔ decl.optional = false)

/-- An optional declaration in front changes nothing. -/
theorem consistent_cons_optional {first : InputDecl} {rest : List InputDecl}
    (optional : first.optional)
    : Consistent (first :: rest) ↔ Consistent rest := by
  have same : requiredFields (first :: rest) = requiredFields rest := by
    simp [requiredFields, optional]
  rw [Consistent, Consistent, same]
  refine and_congr_right fun _ => ⟨?_, ?_⟩
  · exact fun consistent decl inForce => consistent decl (inForce_cons_iff.mpr (.inr inForce))
  · intro consistent decl inForce
    rcases inForce_cons_iff.mp inForce with ⟨rfl, isLast⟩ | inRest
    · refine iff_of_false ?_ (by simp [optional])
      intro required
      obtain ⟨other, inRest, -, field⟩ := mem_requiredFields_iff.mp required
      exact isLast other inRest field
    · exact consistent decl inRest

/-- A required declaration in front must be the only one of its field. Witness: the declaration
that would be in force for the field repeats it or makes it optional.
-/
theorem consistent_cons_required {first : InputDecl} {rest : List InputDecl}
    (required : first.optional = false)
    : Consistent (first :: rest)
      ↔ (∀ later ∈ rest, later.field ≠ first.field) ∧ Consistent rest := by
  have fields : requiredFields (first :: rest) = first.field :: requiredFields rest := by
    simp [requiredFields, required]
  rw [Consistent, Consistent, fields, List.nodup_cons]
  constructor
  · intro consistent
    obtain ⟨⟨fresh, distinct⟩, inForce_iff⟩ := consistent
    have alone : ∀ later ∈ rest, later.field ≠ first.field := by
      intro later inRest same
      obtain ⟨last, inForce, field⟩ := exists_inForce inRest
      have again := field.trans same
      have lastRequired := (inForce_iff last (inForce_cons_iff.mpr (.inr inForce))).mp
        (again ▸ List.mem_cons_self)
      exact fresh (mem_requiredFields_iff.mpr ⟨last, inForce.mem, lastRequired, again⟩)
    refine ⟨alone, distinct, fun decl inForce => ?_⟩
    have here := inForce_iff decl (inForce_cons_iff.mpr (.inr inForce))
    rwa [List.mem_cons, or_iff_right (alone decl inForce.mem)] at here
  · intro consistent
    obtain ⟨alone, distinct, inForce_iff⟩ := consistent
    refine ⟨⟨?_, distinct⟩, fun decl inForce => ?_⟩
    · intro again
      obtain ⟨other, inRest, -, field⟩ := mem_requiredFields_iff.mp again
      exact alone other inRest field
    · rcases inForce_cons_iff.mp inForce with ⟨rfl, -⟩ | inRest
      · exact iff_of_true List.mem_cons_self required
      · rw [List.mem_cons, or_iff_right (alone decl inRest.mem)]
        exact inForce_iff decl inRest

/-- The required fields are consistent exactly when no required field is declared again, by
induction on the declarations.
-/
theorem consistent_iff_requiredOnce (decls : List InputDecl)
    : Consistent decls ↔ RequiredOnce decls := by
  induction decls with
  | nil =>
      refine iff_of_true ⟨List.nodup_nil, fun decl inForce => ?_⟩ List.Pairwise.nil
      exact absurd inForce.mem List.not_mem_nil
  | cons first rest ih =>
      rw [RequiredOnce, List.pairwise_cons]
      cases optional : first.optional with
      | true =>
          rw [consistent_cons_optional optional, ih]
          simp [RequiredOnce]
      | false =>
          rw [consistent_cons_required optional, ih]
          simp [RequiredOnce]

-----------------------------------------------------------------------------------------
-- What the statements of a text declare
-----------------------------------------------------------------------------------------

/-- The input declaration of a statement. -/
def Statement.inputDecl? : Statement → Option InputDecl
  | .input field optional type =>
      (types.get? type.string).map fun type => ⟨field.string, optional, type⟩
  | _ => none

/-- The declaration read from a line is that of its statement. -/
theorem lineInput?_of_writes {statement : Statement} {line : Text}
    (written : Writes statement line)
    : lineInput? line = statement.inputDecl? := by
  cases written with
  | input gap field optional before after type =>
      have starts : "input ".toList.isPrefixOf ("input ".toList ++ (gap.text ++ (field.text
          ++ (optionalMark optional ++ (before.text ++ ':' :: (after.text ++ type.text))))))
          = true := rfl
      rw [lineInput?, if_pos starts, inputRe_fullmatch]
      cases optional <;> rfl
  | _ => rfl

/-- The declarations of a text are those of its statements, by induction on the lines. -/
theorem filterMap_lineInput? {statements : List Statement} {entries : List (Text × Nat)}
    (spells : Spells statements entries)
    : entries.filterMap (fun entry => lineInput? entry.1)
      = statements.filterMap Statement.inputDecl? := by
  induction spells with
  | nil => rfl
  | cons spelled _ ih =>
      rw [List.filterMap_cons, List.filterMap_cons, lineInput?_of_writes spelled.1, ih]

/-- Adds the declared property. -/
def InputDecl.declare (props : Dict String Json) (decl : InputDecl) : Dict String Json :=
  props.set decl.field (.obj [("type", .str decl.type)])

/-- The properties change with the declared inputs only. -/
theorem props_apply (state : ParseState) (statement : Statement)
    : (statement.apply state).props
      = statement.inputDecl?.toList.foldl InputDecl.declare state.props := by
  cases statement with
  | input field optional type =>
      rw [Statement.apply, Statement.inputDecl?]
      cases types.get? type.string <;> rfl
  | _ => rfl

/-- The properties after some statements, by induction on them. -/
theorem props_foldl_apply (statements : List Statement) (state : ParseState)
    : (statements.foldl Statement.apply state).props
      = (statements.filterMap Statement.inputDecl?).foldl InputDecl.declare state.props := by
  induction statements generalizing state with
  | nil => rfl
  | cons statement rest ih =>
      rw [List.foldl_cons, ih, props_apply, List.filterMap_cons]
      cases statement.inputDecl? <;> rfl

/-- The required fields change with the declared inputs only. -/
theorem required_apply (state : ParseState) (statement : Statement)
    : (statement.apply state).required
      = state.required ++ requiredFields statement.inputDecl?.toList := by
  cases statement with
  | input field optional type =>
      rw [Statement.apply, Statement.inputDecl?]
      cases types.get? type.string with
      | none => exact (List.append_nil _).symm
      | some known =>
          cases optional with
          | true => exact (List.append_nil _).symm
          | false => rfl
  | _ => exact (List.append_nil _).symm

/-- The required fields after some statements, by induction on them. -/
theorem required_foldl_apply (statements : List Statement) (state : ParseState)
    : (statements.foldl Statement.apply state).required
      = state.required ++ requiredFields (statements.filterMap Statement.inputDecl?) := by
  induction statements generalizing state with
  | nil => exact (List.append_nil _).symm
  | cons statement rest ih =>
      rw [List.foldl_cons, ih, required_apply, List.append_assoc, List.filterMap_cons]
      cases found : statement.inputDecl? with
      | none => simp [requiredFields]
      | some decl => simp [requiredFields, List.filter_cons]; split <;> rfl

/-- Other declarations leave a property alone. Witness: induction on the declarations. -/
theorem get?_foldl_declare_of_ne {decls : List InputDecl} {field : String}
    (others : ∀ decl ∈ decls, decl.field ≠ field) (props : Dict String Json)
    : (decls.foldl InputDecl.declare props).get? field = props.get? field := by
  induction decls generalizing props with
  | nil => rfl
  | cons decl rest ih =>
      obtain ⟨here, later⟩ := List.forall_mem_cons.mp others
      exact (ih later _).trans (Dict.get?_set_ne _ _ here.symm)

/-- A property has the type of its declaration in force. -/
theorem get?_foldl_declare {decls : List InputDecl} {decl : InputDecl}
    (inForce : InForce decls decl) (props : Dict String Json)
    : (decls.foldl InputDecl.declare props).get? decl.field
      = some (.obj [("type", .str decl.type)]) := by
  obtain ⟨before, after, rfl, isLast⟩ := inForce
  rw [List.foldl_append, List.foldl_cons, get?_foldl_declare_of_ne isLast]
  exact Dict.get?_set_self ..

-----------------------------------------------------------------------------------------
-- The compiled schema
-----------------------------------------------------------------------------------------

/-- The schema of a property of an input schema. -/
def schemaProperty? (schema : Dict String Json) (field : String) : Option Json :=
  match schema.get? "properties" with
  | some (.obj fields) => fields.lookup field
  | _ => none

/-- The required fields of an input schema. -/
def schemaRequired (schema : Dict String Json) : List String :=
  match schema.get? "required" with
  | some (.arr items) =>
      items.filterMap fun item =>
        match item with
        | .str field => some field
        | _ => none
  | _ => []

theorem schemaProperty?_inputSchema (props : Dict String Json) (required : List String)
    (field : String)
    : schemaProperty? (inputSchema props required) field = props.get? field := by
  rw [schemaProperty?, get?_properties_inputSchema]
  rfl

theorem schemaRequired_inputSchema (props : Dict String Json) (required : List String)
    : schemaRequired (inputSchema props required) = required := by
  unfold schemaRequired inputSchema
  cases required with
  | nil => rfl
  | cons field rest =>
      simp [Dict.get?_set_self, List.filterMap_map]

/-- The schema of an accepted text holds its declarations. -/
theorem schema_of_accepted {text : String} {composite : Composite}
    (accepted : (parse text).1 = some composite)
    : schemaRequired composite.inputSchema = requiredFields (declaredInputs text)
      ∧ (∀ field, schemaProperty? composite.inputSchema field
          = ((declaredInputs text).foldl InputDecl.declare ∅).get? field) := by
  obtain ⟨statements, spells, -, -, rfl⟩ := parse_eq_some_iff.mp accepted
  have declared := filterMap_lineInput? spells
  have required := required_foldl_apply statements {}
  have props := props_foldl_apply statements {}
  refine ⟨?_, fun field => ?_⟩
  · rw [ParseState.composite, schemaRequired_inputSchema, required, declaredInputs, declared]
    rfl
  · rw [ParseState.composite, schemaProperty?_inputSchema, props, declaredInputs, declared]

/-- The required fields are distinct, they have properties, and each property has the type of the
declaration in force for its field and is required unless that is optional.
-/
structure MatchesDeclarations (text : String) (composite : Composite) : Prop where
  distinct : (schemaRequired composite.inputSchema).Nodup
  declared
    : ∀ field ∈ schemaRequired composite.inputSchema,
        (schemaProperty? composite.inputSchema field).isSome
  typed
    : ∀ decl,
        InForce (declaredInputs text) decl
        → schemaProperty? composite.inputSchema decl.field
          = some (.obj [("type", .str decl.type)])
  required
    : ∀ decl,
        InForce (declaredInputs text) decl
        → (decl.field ∈ schemaRequired composite.inputSchema ↔ decl.optional = false)
  undeclared
    : ∀ field,
        (∀ decl ∈ declaredInputs text, decl.field ≠ field)
        → schemaProperty? composite.inputSchema field = none

/-- An accepted text's schema matches its declarations exactly when no required input is declared
again. Witness: the properties are overwritten, the required fields only grow.
-/
theorem matchesDeclarations_iff {text : String} {composite : Composite}
    (accepted : (parse text).1 = some composite)
    : MatchesDeclarations text composite ↔ RequiredOnce (declaredInputs text) := by
  obtain ⟨required, property⟩ := schema_of_accepted accepted
  have typed (decl : InputDecl) (inForce : InForce (declaredInputs text) decl)
      : schemaProperty? composite.inputSchema decl.field
        = some (.obj [("type", .str decl.type)]) :=
    (property _).trans (get?_foldl_declare inForce _)
  rw [← consistent_iff_requiredOnce]
  constructor
  · intro asDeclared
    refine ⟨required ▸ asDeclared.distinct, fun decl inForce => ?_⟩
    exact required ▸ asDeclared.required decl inForce
  · intro consistent
    obtain ⟨distinct, inForce_iff⟩ := consistent
    refine ⟨required ▸ distinct, ?_, typed, ?_, ?_⟩
    · intro field member
      rw [required] at member
      obtain ⟨decl, inDecls, -, rfl⟩ := mem_requiredFields_iff.mp member
      obtain ⟨last, inForce, same⟩ := exists_inForce inDecls
      rw [← same, typed last inForce]
      rfl
    · rw [required]
      exact inForce_iff
    · intro field others
      rw [property, get?_foldl_declare_of_ne others]
      rfl

/-- An input declared as optional, and then as required. -/
def tightenedAgent : String := "agent a\ninput x?: string\ninput x: integer\nstep s = c()"

theorem tightenedAgent_matches
    : ∃ composite,
        (parse tightenedAgent).1 = some composite
        ∧ MatchesDeclarations tightenedAgent composite := by
  have accepted : (parse tightenedAgent).1.isSome := by decide +kernel
  obtain ⟨composite, parsed⟩ := Option.isSome_iff_exists.mp accepted
  have declared : declaredInputs tightenedAgent
      = [⟨"x", true, "string"⟩, ⟨"x", false, "integer"⟩] := by decide +kernel
  refine ⟨composite, parsed, (matchesDeclarations_iff parsed).mpr ?_⟩
  rw [declared]
  simp [RequiredOnce]

/-- An input declared as required, and then as optional. -/
def redeclaringAgent : String := "agent a\ninput x: string\ninput x?: integer\nstep s = c()"

/-- The optional declaration is in force, and the field stays required. -/
theorem redeclaringAgent_mismatch
    : ¬ ∀ text composite,
        (parse text).1 = some composite → MatchesDeclarations text composite := by
  intro all
  have accepted : (parse redeclaringAgent).1.isSome := by decide +kernel
  obtain ⟨composite, parsed⟩ := Option.isSome_iff_exists.mp accepted
  have asDeclared := all redeclaringAgent composite parsed
  have declared : declaredInputs redeclaringAgent
      = [⟨"x", false, "string"⟩, ⟨"x", true, "integer"⟩] := by decide +kernel
  have inForce : InForce (declaredInputs redeclaringAgent) ⟨"x", true, "integer"⟩ :=
    ⟨[⟨"x", false, "string"⟩], [], declared, by simp⟩
  have notRequired := (asDeclared.required _ inForce).not.mpr (by simp)
  rw [(schema_of_accepted parsed).1, declared] at notRequired
  exact notRequired (by decide)

end AgentDsl

end AgentFeatures
