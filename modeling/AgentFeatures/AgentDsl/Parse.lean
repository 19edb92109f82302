import AgentFeatures.Composer.Run
import AgentFeatures.Library.Regex

/-! The parser of `*.agent.next` files, line by line. -/

namespace AgentFeatures

open Library
open Library.Text (isSpace strip splitlines)

namespace AgentDsl

/-- `[A-Za-z_]`. -/
def isNameStart (c : Char) : Bool := c.isAlpha || c == '_'

/-- `[A-Za-z0-9_-]`. -/
def isNameChar (c : Char) : Bool := c.isAlphanum || c == '_' || c == '-'

/-- `[A-Za-z0-9_.-]`. -/
def isRefChar (c : Char) : Bool := isNameChar c || c == '.'

/-- `({_NAME})`. -/
def nameRe : Regex := .word isNameStart isNameChar

/-- `({_REF})`. -/
def refRe : Regex := .word isNameStart isRefChar

/-- `\s*`. -/
def spaces : Regex := .many isSpace

/-- One given character. -/
def char (c : Char) : Regex := .one (· == c)

/-- `_ARG_RE`. -/
def argRe : Regex := nameRe.seq (spaces.seq ((char ':').seq (spaces.seq refRe)))

/-- `input\s+({_NAME})(\??)\s*:\s*({_NAME})`. -/
def inputRe : Regex :=
  .literal "input".toList ((Regex.one isSpace).seq (spaces.seq (nameRe.seq
    ((Regex.group (.maybe (char '?'))).seq (spaces.seq ((char ':').seq (spaces.seq nameRe)))))))

/-- The arguments of a step between its parentheses: `\((.*)\)`. -/
def argumentsRe : Regex :=
  (char '(').seq ((Regex.group (.many (· != '\n'))).seq (char ')'))

/-- `step\s+({_NAME})\s*=\s*({_NAME})(?:@({_NAME}))?\s*\((.*)\)`. -/
def stepRe : Regex :=
  .literal "step".toList ((Regex.one isSpace).seq (spaces.seq (nameRe.seq (spaces.seq
    ((char '=').seq (spaces.seq (nameRe.seq
      ((Regex.maybe ((char '@').seq nameRe)).seq (spaces.seq argumentsRe)))))))))

/-- `output\s+({_NAME})\s*=\s*({_REF})`. -/
def outputRe : Regex :=
  .literal "output".toList ((Regex.one isSpace).seq (spaces.seq (nameRe.seq (spaces.seq
    ((char '=').seq (spaces.seq refRe))))))

/-- `_TYPES`. -/
def types : Dict String String :=
  Dict.ofList [("string", "string"), ("str", "string"), ("text", "string"),
    ("number", "number"), ("float", "number"), ("integer", "integer"), ("int", "integer"),
    ("bool", "boolean"), ("boolean", "boolean")]

/-- What the lines read so far declare. -/
structure ParseState where
  name : String := ""
  description : String := ""
  props : Dict String Json := ∅
  required : List String := []
  steps : List Step := []
  output : Dict String String := ∅
  errors : List String := []

/-- The start of an error of a line. -/
def lineError (i : Nat) (message : String) : String := s!"line {i}: " ++ message

namespace ParseState

/-- Adds an error with the number of its line. -/
def fail (state : ParseState) (i : Nat) (message : String) : ParseState :=
  { state with errors := state.errors ++ [lineError i message] }

/-- Declares an input field. -/
def addInput (state : ParseState) (field optional : Text) (type : String) : ParseState :=
  { state with
    props := state.props.set (.ofList field) (.obj [("type", .str type)])
    required :=
      if optional = ['?'] then state.required else state.required ++ [.ofList field] }

end ParseState

/-- `text.strip('"')`. -/
def stripQuotes (text : Text) : Text := (text.dropWhile (· == '"')).rdropWhile (· == '"')

/-- The arguments the search finds in the text between a step's parentheses. -/
def parseArguments (argstr : Text) : Dict String String :=
  Dict.ofList ((argRe.finditer argstr).filterMap fun groups =>
    match groups with
    | [some key, some ref] => some (.ofList key, .ofList ref)
    | _ => none)

/-- The text of a line without its comment. -/
def lineText (raw : Text) : Text := strip (raw.takeWhile (· != '#'))

/-- Reads what follows `agent `. -/
def parseAgent (state : ParseState) (i : Nat) (rest : Text) : ParseState :=
  let name := strip rest
  let state := { state with name := .ofList name }
  if (nameRe.fullmatch name).isNone then
    state.fail i s!"invalid agent name '{String.ofList name}'"
  else state

/-- Reads what follows `description`. -/
def parseDescription (state : ParseState) (rest : Text) : ParseState :=
  { state with description := .ofList (stripQuotes (strip rest)) }

/-- Reads a line that starts with `input `. -/
def parseInput (state : ParseState) (i : Nat) (line : Text) : ParseState :=
  match inputRe.fullmatch line with
  | some [some field, some optional, some typ] =>
      match types.get? (.ofList typ) with
      | none =>
          state.fail i s!"unknown type '{String.ofList typ}' (string|number|integer|boolean)"
      | some type => state.addInput field optional type
  | _ => state.fail i s!"bad input (want \x60input <name>: <type>\x60): '{String.ofList line}'"

/-- Reads a line that starts with `step `. -/
def parseStep (state : ParseState) (i : Nat) (line : Text) : ParseState :=
  match stepRe.fullmatch line with
  | some [some sname, some capability, vendor, some argstr] =>
      let step : Step := {
        name := .ofList sname
        capability := .ofList capability
        vendor := vendor.map String.ofList
        inputs := parseArguments argstr }
      { state with steps := state.steps ++ [step] }
  | _ =>
      state.fail i s!"bad step (want \x60step <name> = <capability>(<k>: <ref>, …)\x60): '{
        String.ofList line}'"

/-- Reads a line that starts with `output `. -/
def parseOutput (state : ParseState) (i : Nat) (line : Text) : ParseState :=
  match outputRe.fullmatch line with
  | some [some field, some ref] =>
      { state with output := state.output.set (.ofList field) (.ofList ref) }
  | _ => state.fail i s!"bad output (want \x60output <name> = <ref>\x60): '{String.ofList line}'"

/-- Reads one line that is not blank. -/
def parseLine (state : ParseState) (i : Nat) (line : Text) : ParseState :=
  if "agent ".toList.isPrefixOf line then parseAgent state i (line.drop 6)
  else if "description".toList.isPrefixOf line then parseDescription state (line.drop 11)
  else if "input ".toList.isPrefixOf line then parseInput state i line
  else if "step ".toList.isPrefixOf line then parseStep state i line
  else if "output ".toList.isPrefixOf line then parseOutput state i line
  else state.fail i s!"unrecognized statement: '{String.ofList line}'"

/-- The body of the loop over the numbered lines. -/
def parseRaw (state : ParseState) (numbered : Text × Nat) : ParseState :=
  let line := lineText numbered.1
  if line.isEmpty then state else parseLine state numbered.2 line

/-- The input schema of the declared fields. -/
def inputSchema (props : Dict String Json) (required : List String) : Dict String Json :=
  let schema := (Dict.empty.set "type" (.str "object")).set "properties" (.ofDict props)
  if required.isEmpty then schema else schema.set "required" (.arr (required.map .str))

/-- The composite of what the lines declared. -/
def ParseState.composite (state : ParseState) : Composite where
  name := state.name
  capability := state.name
  description := state.description
  inputSchema := AgentDsl.inputSchema state.props state.required
  steps := state.steps
  output := state.output
  defaultCapability := id

/-- The checks after the last line, and the result. -/
def finish (state : ParseState) : Option Composite × List String :=
  let errors := state.errors
  let errors :=
    if state.name = "" then errors ++ ["missing \x60agent <name>\x60 declaration"] else errors
  let errors :=
    if state.steps.isEmpty && errors.isEmpty then ["an agent needs at least one \x60step\x60"]
    else errors
  if errors.isEmpty then (some state.composite, []) else (none, errors)

/-- Parses agent DSL into a composite, or `(None, errors)` on any error. -/
def parse (text : String) : Option Composite × List String :=
  finish (((splitlines text.toList).zipIdx 1).foldl parseRaw {})

end AgentDsl

end AgentFeatures
