import AgentFeatures.Json

/-! Input validation against a feature's JSON Schema. -/

namespace AgentFeatures

open Library (Dict)

/-- One step into a payload: a field name or an array index. Keys that meet at one position
belong to one container, so the order between the two kinds is never used.
-/
abbrev PathKey := String ⊕ₗ Nat

/-- One error of the validator. -/
structure SchemaViolation where
  path : List PathKey
  message : String

/-- The JSON Schema validator: `Draft202012Validator(schema).iter_errors(payload)`. -/
structure Validator where
  iterErrors : Dict String Json → Json → List SchemaViolation

/-- The validator implements JSON Schema: it reports nothing exactly for valid payloads,
and the empty schema accepts every payload.
-/
structure Validator.Implements (validator : Validator) (Valid : Dict String Json → Json → Prop)
    : Prop where
  sound : ∀ schema payload, validator.iterErrors schema payload = [] ↔ Valid schema payload
  empty : ∀ payload, Valid ∅ payload

def PathKey.text (key : PathKey) : String :=
  match ofLex key with
  | .inl name => name
  | .inr index => toString index

/-- `location: message`, with `<root>` for the empty location. -/
def formatViolation (violation : SchemaViolation) : String :=
  let location := String.intercalate "/" (violation.path.map PathKey.text)
  (if location = "" then "<root>" else location) ++ ": " ++ violation.message

/-- Every schema violation as a message list, empty when valid. -/
def collectErrors (validator : Validator) (payload : Json) (schema : Dict String Json)
    : List String :=
  if schema.entries.isEmpty then []
  else
    ((validator.iterErrors schema payload).insertionSort fun a b => a.path ≤ b.path).map
      formatViolation

/-- Under a validator that implements JSON Schema, no messages means a valid payload. -/
theorem collectErrors_eq_nil_iff {validator : Validator}
    {Valid : Dict String Json → Json → Prop} (implements : validator.Implements Valid)
    (payload : Json) (schema : Dict String Json)
    : collectErrors validator payload schema = [] ↔ Valid schema payload := by
  unfold collectErrors
  split
  · next empty =>
      have none : schema = ∅ := Dict.ext (List.isEmpty_iff.mp empty)
      subst none
      simpa using implements.empty payload
  · rw [List.map_eq_nil_iff, ← implements.sound]
    constructor
    · intro h
      have size := List.length_insertionSort (fun a b => a.path ≤ b.path)
        (validator.iterErrors schema payload)
      rw [h] at size
      exact List.eq_nil_of_length_eq_zero size.symm
    · intro h
      simp [h]

/-- The `type` keyword, for objects. -/
def typeViolations (schema : Dict String Json) (payload : Json) : List SchemaViolation :=
  match schema.get? "type" with
  | some (.str type) =>
      if type = "object" ∧ payload.isDict = false then
        [⟨[], "the instance is not of type 'object'"⟩]
      else []
  | _ => []

/-- The `required` keyword: the names missing from an object. -/
def requiredViolations (schema : Dict String Json) (payload : Json) : List SchemaViolation :=
  match schema.get? "required", payload with
  | some (.arr names), .obj fields =>
      names.filterMap fun name =>
        match name with
        | .str name =>
            if (fields.lookup name).isSome then none
            else some ⟨[], s!"'{name}' is a required property"⟩
        | _ => none
  | _, _ => []

/-- The part of the validator that schemas of these two keywords need. -/
def smallValidator : Validator where
  iterErrors schema payload := typeViolations schema payload ++ requiredViolations schema payload

/-- Validity under the two keywords. -/
structure SmallValid (schema : Dict String Json) (payload : Json) : Prop where
  type : schema.get? "type" = some (.str "object") → payload.isDict
  required
    : ∀ names fields name,
        schema.get? "required" = some (.arr names)
        → payload = .obj fields
        → Json.str name ∈ names
        → (fields.lookup name).isSome

theorem typeViolations_eq_nil_iff {schema : Dict String Json} {payload : Json}
    : typeViolations schema payload = []
      ↔ (schema.get? "type" = some (.str "object") → payload.isDict) := by
  unfold typeViolations
  split
  · next type given =>
      simp only [given, Option.some.injEq, Json.str.injEq]
      split
      · next both => simp [both.1, both.2]
      · next not => simpa [not_and] using not
  · next other =>
      simp only [true_iff]
      exact fun given => absurd given (other "object")

theorem requiredViolations_eq_nil_iff {schema : Dict String Json} {payload : Json}
    : requiredViolations schema payload = []
      ↔ ∀ names fields name,
          schema.get? "required" = some (.arr names)
          → payload = .obj fields
          → Json.str name ∈ names
          → (fields.lookup name).isSome := by
  unfold requiredViolations
  split
  · next names fields given =>
      rw [List.filterMap_eq_nil_iff]
      constructor
      · intro none others object name same shape member
        rw [given] at same
        cases same
        cases shape
        have found := none (.str name) member
        simpa using found
      · intro present value member
        cases value with
        | str name =>
            have found := present names fields name given rfl member
            simp [found]
        | _ => rfl
  · next other =>
      simp only [true_iff]
      exact fun names fields name given shape _ => absurd shape (other names fields given)

/-- The small validator implements its part of JSON Schema. -/
theorem smallValidator_implements : smallValidator.Implements SmallValid where
  sound schema payload := by
    simp only [smallValidator, List.append_eq_nil_iff, typeViolations_eq_nil_iff,
      requiredViolations_eq_nil_iff]
    exact ⟨fun both => ⟨both.1, both.2⟩, fun valid => ⟨valid.type, valid.required⟩⟩
  empty payload := ⟨fun absent => (nomatch absent), fun _ _ _ absent => (nomatch absent)⟩

end AgentFeatures
