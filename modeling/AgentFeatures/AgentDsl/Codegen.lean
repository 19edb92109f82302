import AgentFeatures.AgentDsl.Parse
import AgentFeatures.AgentDsl.Templates

/-! Client stubs generated from a composite. -/

namespace AgentFeatures

open Library
open Library.Substitution

namespace AgentDsl

/-- The text functions of Python that `codegen` calls: what case conversion does to ASCII, that
it makes no underscore and no empty text, and what an f-string writes for a JSON value.
-/
structure TextFunctions where
  lower : Text → Text
  capitalize : Text → Text
  format : Json → Text
  lower_ascii : ∀ text, (∀ c ∈ text, c.toNat < 128) → lower text = text.map Char.toLower
  capitalize_ascii
    : ∀ first rest,
        (∀ c ∈ first :: rest, c.toNat < 128)
        → capitalize (first :: rest) = first.toUpper :: rest.map Char.toLower
  capitalize_ne_nil : ∀ first rest, capitalize (first :: rest) ≠ []
  underscore_of_lower : ∀ text, '_' ∈ lower text → '_' ∈ text
  underscore_of_capitalize : ∀ text, '_' ∈ capitalize text → '_' ∈ text
  format_str : ∀ text, format (.str text) = text.toList

/-- `text or other`. -/
def orText (text other : Text) : Text := if text.isEmpty then other else text

/-- `sep.join(texts)`. -/
def join (sep : String) (texts : List Text) : Text := sep.toList.intercalate texts

-----------------------------------------------------------------------------------------
-- Names in the conventions of the targets
-----------------------------------------------------------------------------------------

/-- `[-_]`. -/
def isSeparator (c : Char) : Bool := c == '-' || c == '_'

/-- `_parts`. -/
def parts (name : Text) : List Text := (name.splitOnP isSeparator).filter (!·.isEmpty)

variable (py : TextFunctions)

/-- `_camel`. -/
def camel (name : Text) : Text :=
  match parts name with
  | [] => name
  | first :: rest => py.lower first ++ rest.flatMap py.capitalize

/-- `_pascal`. -/
def pascal (name : Text) : Text := orText ((parts name).flatMap py.capitalize) name

/-- `_snake`. -/
def snake (name : Text) : Text := orText (join "_" (parts name)) name

-----------------------------------------------------------------------------------------
-- Fields
-----------------------------------------------------------------------------------------

/-- `_GO_TYPES`. -/
def goTypes : Dict String String :=
  Dict.ofList [("string", "string"), ("number", "float64"), ("integer", "int"),
    ("boolean", "bool")]

/-- `_TS_TYPES`. -/
def tsTypes : Dict String String :=
  Dict.ofList [("string", "string"), ("number", "number"), ("integer", "number"),
    ("boolean", "boolean")]

/-- `_PROTO_TYPES`. -/
def protoTypes : Dict String String :=
  Dict.ofList [("string", "string"), ("number", "double"), ("integer", "int64"),
    ("boolean", "bool")]

/-- `table.get(v.get('type'), default)`; `none` when `v` has no `get`, or its type is a list or
an object, which no dict takes as a key.
-/
def typeName (table : Dict String String) (default : String) (property : Json) : Option Text :=
  match property.get? "type" with
  | none | some (.arr _) | some (.obj _) => none
  | some (.str type) => some ((table.get? type).getD default).toList
  | some _ => some default.toList

/-- A field of the TypeScript interface. -/
def tsField (field : String × Json) : Option Text :=
  (typeName tsTypes "unknown" field.2).map fun type =>
    field.1.toList ++ ": ".toList ++ type

/-- A field of the Go struct. -/
def goField (field : String × Json) : Option Text :=
  (typeName goTypes "any" field.2).map fun type =>
    "\t".toList ++ pascal py field.1.toList ++ " ".toList ++ type ++ " \x60json:\"".toList
      ++ field.1.toList ++ "\"\x60".toList

/-- An input in the comment of the Rust function. -/
def rustField (field : String × Json) : Option Text :=
  match field.2 with
  | .obj entries =>
      some (field.1.toList ++ ": ".toList
        ++ py.format ((entries.lookup "type").getD (.str "string")))
  | _ => none

/-- A field of the protobuf message, with its number. -/
def protoField (field : (String × Json) × Nat) : Option Text :=
  (typeName protoTypes "string" field.1.2).map fun type =>
    "  ".toList ++ type ++ " ".toList ++ field.1.1.toList ++ " = ".toList
      ++ (toString field.2).toList ++ ";".toList

-----------------------------------------------------------------------------------------
-- Substitution
-----------------------------------------------------------------------------------------

/-- The values that every language gets. -/
def commonSubs (composite : Composite) (props : List (String × Json)) : List (Token × Text) :=
  let name := composite.name.toList
  [(.name, name),
    (.desc, orText composite.description.toList "(no description)".toList),
    (.camel, camel py name),
    (.pascal, pascal py name),
    (.snake, snake name),
    (.fields, orText (join ", " (props.map (·.1.toList))) "(no inputs)".toList),
    (.outs, orText (join ", " (composite.output.keys.map String.toList)) "(none)".toList)]

/-- The value that only one language gets. -/
def fieldSubs (props : List (String × Json)) : Language → Option (List (Token × Text))
  | .js | .java => some []
  | .ts =>
      (props.mapM tsField).map fun fields =>
        [(.tsFields, orText (join "; " fields) "/* no inputs */".toList)]
  | .go =>
      (props.mapM (goField py)).map fun fields =>
        [(.goFields, orText (join "\n" fields) "\t// (no inputs)".toList)]
  | .rust =>
      (props.mapM (rustField py)).map fun fields =>
        [(.rsFields, orText (join ", " fields) "(no inputs)".toList)]
  | .proto =>
      ((props.zipIdx 1).mapM protoField).map fun fields =>
        [(.protoIn, orText (join "\n" fields) "  // (no inputs)".toList)]

/-- `composite.input_schema.get("properties", {})`; only a dict has keys and items. -/
def compositeProps (composite : Composite) : Option (List (String × Json)) :=
  match (composite.inputSchema.get? "properties").getD (.obj []) with
  | .obj fields => some fields
  | _ => none

/-- `subs`, complete for a language. -/
def subs (composite : Composite) (props : List (String × Json)) (language : Language)
    : Option (List (Token × Text)) :=
  (fieldSubs py props language).map (commonSubs py composite props ++ ·)

/-- `_ALIASES`. -/
def aliases : Dict String String :=
  Dict.ofList [("javascript", "js"), ("typescript", "ts"), ("golang", "go"), ("rs", "rust"),
    ("protobuf", "proto")]

/-- The language of a target name that is no alias. -/
def Language.ofName? : String → Option Language
  | "js" => some .js
  | "ts" => some .ts
  | "go" => some .go
  | "rust" => some .rust
  | "java" => some .java
  | "proto" => some .proto
  | _ => none

/-- The target name without aliases. -/
def unaliased (lang : String) : String := (aliases.get? lang).getD lang

/-- Generates a client stub that invokes the composite through the gateway; `none` where Python
raises.
-/
def codegen (composite : Composite) (lang : String) : Option Text :=
  (compositeProps composite).bind fun props =>
    match Language.ofName? (unaliased lang) with
    | some language =>
        (subs py composite props language).map fun subs =>
          substituteAll Token.spell subs (fill Token.spell language.template)
    | none => some s!"// unsupported language: {unaliased lang}".toList

end AgentDsl

end AgentFeatures
