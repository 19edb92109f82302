import AgentFeatures.Gateway.Calculator
import AgentFeatures.Library.Text
import AgentFeatures.Models

/-! The dev sample features: their manifests and their handlers. -/

namespace AgentFeatures

open Library Library.FloatRange

namespace Samples

/-- What the sample features use of Python's standard library and of the host. -/
structure Python where
  powers : Powers
  /-- `ast.parse(source, mode="eval")`. -/
  parse : String → Except PyException Calculator.Node
  /-- How many calls of `_safe_eval` fit on the stack. -/
  frames : Nat
  /-- `float(text)`. -/
  floatOfStr : String → Except PyException Float
  str : Json → String
  /-- `datetime.now(tz).isoformat()`, for the offset of the zone in microseconds. -/
  now : Int → String

/-- A value in the output of a handler. -/
inductive SampleValue
  | json (value : Json)
  | complex (z : PyComplex)

/-- How a handler fails. -/
inductive SampleFailure
  | featureInputError (message : String)
  | raised (exception : PyException)

/-- A function from input dict to output dict. -/
abbrev SampleHandler := Dict String Json → Except SampleFailure (Dict String SampleValue)

/-- `payload[key]`. -/
def getItem (payload : Dict String Json) (key : String) : Except PyException Json :=
  match payload.get? key with
  | some value => .ok value
  | none => .error .keyError

def floatJson (x : Float) : Json := .float x.toBits.toBitVec

/-- A schema of objects with these properties. -/
def objectSchema (properties : List (String × Json)) : Dict String Json :=
  Dict.ofList [("type", .str "object"), ("properties", .obj properties)]

/-- A schema of objects with one property, a text that is required. -/
def textSchema (field : String) : Dict String Json :=
  Dict.ofList
    [
      ("type", .str "object"),
      ("properties", .obj [(field, .obj [("type", .str "string")])]),
      ("required", .arr [.str field])
    ]

variable (python : Python)

-----------------------------------------------------------------------------------------
-- Calculator
-----------------------------------------------------------------------------------------

/-- What `_calculator` evaluates before it looks at exceptions. -/
def calculate (payload : Dict String Json) : Except PyException PyNumber := do
  match ← getItem payload "expression" with
  | .str source =>
      let tree ← python.parse source
      Calculator.safeEval python.powers tree python.frames
  | _ => .error .typeError

def numberValue : PyNumber → SampleValue
  | .float x => .json (floatJson x)
  | .complex z => .complex z

/-- `_calculator`. -/
def calculator : SampleHandler := fun payload =>
  match calculate python payload with
  | .ok v => .ok (Dict.ofList [("result", numberValue v)])
  | .error raised =>
      match Calculator.caughtText? raised with
      | some text => .error (.featureInputError ("invalid expression: " ++ text))
      | none => .error (.raised raised)

def calculatorManifest : Manifest where
  name := "calculator"
  description := "Safely evaluates an arithmetic expression."
  tags := ["math", "utility"]
  inputSchema := textSchema "expression"
  outputSchema := objectSchema [("result", .obj [("type", .str "number")])]
  capability := "calculator"
  defaultCapability := nofun

-----------------------------------------------------------------------------------------
-- Text statistics
-----------------------------------------------------------------------------------------

/-- `text.split()`. -/
def words (text : Text) : List Text := (text.splitOnP Text.isSpace).filter (!·.isEmpty)

/-- The texts between full stops, exclamation and question marks that are not blank. -/
def sentences (text : Text) : List Text :=
  let stopped := text.map fun c => if c = '!' ∨ c = '?' then '.' else c
  (stopped.splitOn '.').filter fun part => !(Text.strip part).isEmpty

/-- `_text_stats`. -/
def textStats : SampleHandler := fun payload =>
  match getItem payload "text" with
  | .ok (.str text) =>
      .ok
        (Dict.ofList
          [
            ("characters", .json (.int text.length)),
            ("words", .json (.int (words text.toList).length)),
            ("sentences", .json (.int (sentences text.toList).length))
          ])
  | .ok _ => .error (.raised .attributeError)
  | .error raised => .error (.raised raised)

def textStatsManifest : Manifest where
  name := "text_stats"
  description := "Counts characters, words and sentences in a block of text."
  tags := ["text", "nlp"]
  inputSchema := textSchema "text"
  outputSchema :=
    objectSchema
      [
        ("characters", .obj [("type", .str "integer")]),
        ("words", .obj [("type", .str "integer")]),
        ("sentences", .obj [("type", .str "integer")])
      ]
  capability := "text_stats"
  defaultCapability := nofun

-----------------------------------------------------------------------------------------
-- Clock
-----------------------------------------------------------------------------------------

/-- `float(value)`. -/
def toFloat : Json → Except PyException Float
  | .bool value => .ok (Calculator.floatOfBool value)
  | .int value => Calculator.floatOfInt value
  | .float bits => .ok (Float.ofBits ⟨bits⟩)
  | .str text => python.floatOfStr text
  | _ => .error .typeError

/-- Microseconds of an hour. -/
def hour : Int := 3600000000

/-- Microseconds of a day. -/
def day : Int := 86400000000

/-- `timedelta(hours=x)`, in microseconds. -/
def timedelta (x : Float) : Except PyException Int :=
  if x.isNaN then .error (.valueError "cannot convert float NaN to integer")
  else if x.isInf then .error .overflowError
  else
    let microseconds := roundHalfEven (value x * hour)
    if |microseconds.fdiv day| ≤ 999999999 then .ok microseconds else .error .overflowError

/-- `repr` of a time delta. -/
def reprTimedelta (microseconds : Int) : String :=
  let rest := microseconds.fmod day
  let parts :=
    [("days", microseconds.fdiv day), ("seconds", rest / 1000000),
      ("microseconds", rest % 1000000)].filter (·.2 ≠ 0)
  let arguments := parts.map fun part => part.1 ++ "=" ++ toString part.2
  "datetime.timedelta("
    ++ (if parts.isEmpty then "0" else ", ".intercalate arguments)
    ++ ")"

/-- The offset of `timezone(offset)`, in microseconds. -/
def timezone (offset : Int) : Except PyException Int :=
  if |offset| < day then .ok offset
  else
    .error
      (.valueError
        ("offset must be a timedelta strictly between -timedelta(hours=24) and "
          ++ "timedelta(hours=24), not " ++ reprTimedelta offset ++ "."))

/-- `_clock`, with its exceptions. -/
def tick (payload : Dict String Json) : Except PyException (Dict String SampleValue) := do
  let offsetHours ← toFloat python ((payload.get? "utc_offset_hours").getD (.int 0))
  let tz ← timedelta offsetHours >>= timezone
  return Dict.ofList
    [
      ("iso8601", .json (.str (python.now tz))),
      ("utc_offset_hours", .json (floatJson offsetHours))
    ]

/-- `_clock`. -/
def clock : SampleHandler := fun payload => (tick python payload).mapError .raised

def clockManifest : Manifest where
  name := "clock"
  description := "Returns the current time at a given UTC offset."
  tags := ["time", "utility"]
  inputSchema :=
    objectSchema [("utc_offset_hours", .obj [("type", .str "number"), ("default", .int 0)])]
  outputSchema :=
    objectSchema
      [("iso8601", .obj [("type", .str "string")]),
        ("utc_offset_hours", .obj [("type", .str "number")])]
  capability := "clock"
  defaultCapability := nofun

-----------------------------------------------------------------------------------------
-- Greetings
-----------------------------------------------------------------------------------------

/-- `{"greeting": f"{before}{payload['name']}{after}"}`. -/
def greet (before after : String) : SampleHandler := fun payload =>
  match getItem payload "name" with
  | .ok name =>
      let text :=
        match name with
        | .str text => text
        | other => python.str other
      .ok (Dict.ofList [("greeting", .json (.str (before ++ text ++ after)))])
  | .error raised => .error (.raised raised)

def greetAcme : SampleHandler := greet python "Hello, " ". — Acme"

def greetGlobex : SampleHandler := greet python "hey " "!! ~globex"

def greetOutput : Dict String Json :=
  objectSchema [("greeting", .obj [("type", .str "string")])]

def greetAcmeManifest : Manifest where
  name := "greet-acme"
  capability := "greet"
  vendor := "acme"
  trust := .verified
  version := "1.0.0"
  description := "A formal greeting."
  tags := ["greeting", "text"]
  inputSchema := textSchema "name"
  outputSchema := greetOutput
  defaultCapability := nofun

def greetGlobexManifest : Manifest where
  name := "greet-globex"
  capability := "greet"
  vendor := "globex"
  trust := .community
  version := "1.2.0"
  description := "A casual greeting."
  tags := ["greeting", "text"]
  inputSchema := textSchema "name"
  outputSchema := greetOutput
  defaultCapability := nofun

/-- `_FEATURES`. -/
def features : List (Manifest × SampleHandler) :=
  [
    (calculatorManifest, calculator python),
    (textStatsManifest, textStats),
    (clockManifest, clock python),
    (greetAcmeManifest, greetAcme python),
    (greetGlobexManifest, greetGlobex python)
  ]

end Samples

end AgentFeatures
