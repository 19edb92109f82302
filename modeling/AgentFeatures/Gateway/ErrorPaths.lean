import AgentFeatures.Gateway.Validation
import AgentFeatures.Library.FallibleSort

/-! The order of validation errors by paths that mix field names and indices. -/

namespace AgentFeatures

open Library

/-- Python's `<` on the keys of a path: between a string and an integer it raises. -/
def PathKey.less? (left right : PathKey) : Option Bool :=
  match ofLex left, ofLex right with
  | .inl name, .inl other => some (name < other)
  | .inr index, .inr other => some (index < other)
  | _, _ => none

/-- Where the comparison answers, it answers like the order of the keys. -/
theorem PathKey.eq_of_less? {left right : PathKey} {less : Bool}
    (known : left.less? right = some less)
    : less = decide (left < right) := by
  cases left with
  | inl name =>
      cases right with
      | inl other =>
          exact (Option.some.inj known).symm.trans
            (decide_eq_decide.mpr Sum.Lex.inl_lt_inl_iff.symm)
      | inr index => cases known
  | inr index =>
      cases right with
      | inl name => cases known
      | inr other =>
          exact (Option.some.inj known).symm.trans
            (decide_eq_decide.mpr Sum.Lex.inr_lt_inr_iff.symm)

/-- `value[key]`: a name is that of an object's field, an index that of an array's item. -/
def Json.child? (value : Json) (key : PathKey) : Option Json :=
  match value, ofLex key with
  | obj fields, .inl name => fields.lookup name
  | arr items, .inr index => items[index]?
  | _, _ => none

/-- The value at a path. -/
def Json.at? (value : Json) : List PathKey → Option Json
  | [] => some value
  | key :: rest => (value.child? key).bind fun child => child.at? rest

/-- Two keys of one container are compared without raising. -/
theorem isSome_less? {value : Json} {left right : PathKey} (isLeft : (value.child? left).isSome)
    (isRight : (value.child? right).isSome)
    : (left.less? right).isSome := by
  unfold Json.child? at isLeft isRight
  unfold PathKey.less?
  cases value with
  | obj fields =>
      cases left with
      | inr index => cases isLeft
      | inl name =>
          cases right with
          | inr index => cases isRight
          | inl other => rfl
  | arr items =>
      cases left with
      | inl name => cases isLeft
      | inr index =>
          cases right with
          | inl name => cases isRight
          | inr other => rfl
  | _ => cases left <;> cases isLeft

/-- The path leads to a place in the payload. -/
def IsPath (payload : Json) (path : List PathKey) : Prop := (payload.at? path).isSome

theorem isPath_cons_iff {payload : Json} {key : PathKey} {rest : List PathKey}
    : IsPath payload (key :: rest)
      ↔ ∃ child, payload.child? key = some child ∧ IsPath child rest := by
  rw [IsPath, Json.at?]
  cases payload.child? key <;> simp [IsPath]

/-- Two paths into one payload are compared without raising. Witness: induction on the paths;
where they differ first, both keys belong to one container.
-/
theorem isSome_lexLess? {payload : Json} {left right : List PathKey}
    (isLeft : IsPath payload left) (isRight : IsPath payload right)
    : (lexLess? PathKey.less? left right).isSome := by
  induction left generalizing payload right with
  | nil => cases right <;> rfl
  | cons key left ih =>
      cases right with
      | nil => rfl
      | cons other right =>
          obtain ⟨child, found, inChild⟩ := isPath_cons_iff.mp isLeft
          obtain ⟨child', found', inChild'⟩ := isPath_cons_iff.mp isRight
          rw [lexLess?]
          split
          · next same =>
              subst same
              cases found.symm.trans found'
              exact ih inChild inChild'
          · exact isSome_less? (Option.isSome_of_eq_some found) (Option.isSome_of_eq_some found')

/-- `a.path < b.path` for two errors. -/
def pathLess? (a b : SchemaViolation) : Option Bool := lexLess? PathKey.less? a.path b.path

/-- The errors that a check collects: none are looked for under an empty schema. -/
def foundErrors (validator : Validator) (payload : Json) (schema : Dict String Json)
    : List SchemaViolation :=
  if schema.entries.isEmpty then [] else validator.iterErrors schema payload

/-- `collect_errors`, raising where the comparison of two paths does. -/
def collectErrors? (validator : Validator) (payload : Json) (schema : Dict String Json)
    : Option (List String) :=
  if schema.entries.isEmpty then some []
  else (sorted? pathLess? (validator.iterErrors schema payload)).map (List.map formatViolation)

/-- Errors at places of one payload are compared as their paths are ordered. -/
theorem pathLess?_eq {payload : Json} {a b : SchemaViolation} (isLeft : IsPath payload a.path)
    (isRight : IsPath payload b.path)
    : pathLess? a b = some (decide (¬ b.path ≤ a.path)) := by
  obtain ⟨less, known⟩ := Option.isSome_iff_exists.mp (isSome_lexLess? isLeft isRight)
  have order := eq_of_lexLess? (fun _ _ _ => PathKey.eq_of_less?) known
  rw [pathLess?, known, order]
  exact congrArg some (decide_eq_decide.mpr not_le.symm)

/-- Errors at places of the payload are collected without raising. -/
theorem collectErrors?_eq {validator : Validator} {payload : Json} {schema : Dict String Json}
    (paths : ∀ violation ∈ validator.iterErrors schema payload, IsPath payload violation.path)
    : collectErrors? validator payload schema = some (collectErrors validator payload schema) := by
  unfold collectErrors? collectErrors
  split
  · rfl
  · have defined : ∀ a ∈ validator.iterErrors schema payload,
        ∀ b ∈ validator.iterErrors schema payload,
          pathLess? a b = some (decide (¬ b.path ≤ a.path)) :=
      fun a member b member' => pathLess?_eq (paths a member) (paths b member')
    have sorted :=
      sorted?_eq_insertionSort (r := fun a b : SchemaViolation => a.path ≤ b.path) defined
    rw [sorted]
    rfl

/-- Of errors whose paths are places of the payload any two are compared, and the check returns
the messages of all of them, none before one with a smaller path.
-/
theorem collectErrors_total (validator : Validator) (payload : Json) (schema : Dict String Json)
    (paths : ∀ violation ∈ validator.iterErrors schema payload, IsPath payload violation.path)
    : (∀ a ∈ validator.iterErrors schema payload,
        ∀ b ∈ validator.iterErrors schema payload, (pathLess? a b).isSome)
      ∧ ∃ sorted : List SchemaViolation,
          sorted.Perm (foundErrors validator payload schema)
          ∧ sorted.Pairwise (fun a b => pathLess? b a = some false)
          ∧ collectErrors? validator payload schema = some (sorted.map formatViolation) := by
  refine ⟨?_, ?_⟩
  · intro a member b member'
    exact isSome_lexLess? (paths a member) (paths b member')
  · let le (a b : SchemaViolation) : Prop := a.path ≤ b.path
    have total : Std.Total le := ⟨fun a b => le_total a.path b.path⟩
    have transitive : IsTrans SchemaViolation le := ⟨fun _ _ _ => le_trans⟩
    have inPayload : ∀ violation ∈ foundErrors validator payload schema,
        IsPath payload violation.path := by
      unfold foundErrors
      split
      · exact fun violation absurdly => absurd absurdly List.not_mem_nil
      · exact paths
    have perm := List.perm_insertionSort le (foundErrors validator payload schema)
    refine ⟨_, perm, ?_, ?_⟩
    · refine (List.pairwise_insertionSort le _).imp_of_mem fun {a b} member member' ordered => ?_
      have isLeft := inPayload a (perm.mem_iff.mp member)
      have isRight := inPayload b (perm.mem_iff.mp member')
      rw [pathLess?_eq isRight isLeft]
      simpa using ordered
    · rw [collectErrors?_eq paths, collectErrors, foundErrors]
      split <;> rfl

/-- A string name and an array of strings. -/
def namedLabels : Dict String Json :=
  let string : Json := .obj [("type", .str "string")]
  Dict.ofList [("properties", .obj [("name", string), ("labels", .obj [("items", string)])])]

/-- A payload with a wrong name and two wrong labels. -/
def numberedLabels : Json :=
  .obj [("name", .int 3), ("labels", .arr [.int 1, .str "a", .int 2])]

/-- What the validator finds there, property by property. -/
def labelValidator : Validator where
  iterErrors _ _ :=
    [⟨[toLex (.inl "name")], "3 is not of type 'string'"⟩,
      ⟨[toLex (.inl "labels"), toLex (.inr 0)], "1 is not of type 'string'"⟩,
      ⟨[toLex (.inl "labels"), toLex (.inr 2)], "2 is not of type 'string'"⟩]

/-- The errors of names and of indices are all collected. -/
theorem collectErrors_total_labels
    : ∃ sorted : List SchemaViolation,
        sorted.Perm (foundErrors labelValidator numberedLabels namedLabels)
        ∧ sorted.Pairwise (fun a b => pathLess? b a = some false)
        ∧ collectErrors? labelValidator numberedLabels namedLabels
          = some (sorted.map formatViolation) := by
  refine (collectErrors_total labelValidator numberedLabels namedLabels ?_).2
  exact List.forall_mem_cons.mpr
    ⟨rfl, List.forall_mem_cons.mpr ⟨rfl, List.forall_mem_singleton.mpr rfl⟩⟩

end AgentFeatures
