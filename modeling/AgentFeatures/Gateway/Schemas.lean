import AgentFeatures.Gateway.PythonNumbers
import AgentFeatures.JsonOrder

/-! Validity for JSON Schema, as far as the schemas of the sample features use it. -/

namespace AgentFeatures

open Library (Dict)

namespace Json

/-- The value is of the type that JSON Schema gives the name. -/
def hasType (name : String) : Json → Bool
  | null => name == "null"
  | bool _ => name == "boolean"
  | int _ => name == "integer" || name == "number"
  | float bits => name == "number" || name == "integer" && isInteger (Float.ofBits ⟨bits⟩)
  | str _ => name == "string"
  | arr _ => name == "array"
  | obj _ => name == "object"

/-- The `type` keyword: one name, or several of which one is enough. -/
def acceptsType (argument value : Json) : Bool :=
  let isType (name : Json) : Bool :=
    match name with
    | str name => value.hasType name
    | _ => false
  match argument with
  | arr names => names.any isType
  | name => isType name

/-- The `required` keyword. -/
def acceptsRequired (argument value : Json) : Bool :=
  match argument, value with
  | arr names, obj fields =>
      names.all fun name =>
        match name with
        | str name => (fields.lookup name).isSome
        | _ => false
  | _, _ => true

mutual

/-- The value is valid for the schema; keywords other than these three are annotations. -/
def accepts : Json → Json → Bool
  | bool always, _ => always
  | obj keywords, value => acceptsKeywords keywords value
  | _, _ => true
termination_by structural schema _ => schema

def acceptsKeywords : List (String × Json) → Json → Bool
  | [], _ => true
  | (keyword, argument) :: rest, value =>
      (match keyword with
        | "type" => acceptsType argument value
        | "required" => acceptsRequired argument value
        | "properties" => acceptsProperties argument value
        | _ => true)
      && acceptsKeywords rest value

/-- The `properties` keyword. -/
def acceptsProperties : Json → Json → Bool
  | obj properties, obj fields => acceptsFields properties fields
  | _, _ => true

def acceptsFields : List (String × Json) → List (String × Json) → Bool
  | [], _ => true
  | (name, schema) :: rest, fields =>
      (match fields.lookup name with
        | some value => accepts schema value
        | none => true)
      && acceptsFields rest fields

end

end Json

end AgentFeatures
