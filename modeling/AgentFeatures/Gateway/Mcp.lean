import AgentFeatures.Gateway.Handlers

/-! The MCP adapter: the catalog as tools over JSON-RPC 2.0. -/

namespace AgentFeatures

open Library

namespace Mcp

def protocolVersion : String := "2025-06-18"

def serverInfo : Json :=
  .obj [("name", .str "agent-features-gateway"), ("version", .str "0.1.0")]

def invalidParams : Int := -32602

def methodNotFound : Int := -32601

/-- `_ok`. -/
def ok (msgId result : Json) : Json :=
  .obj [("jsonrpc", .str "2.0"), ("id", msgId), ("result", result)]

/-- `_err`. -/
def err (msgId : Json) (code : Int) (message : String) : Json :=
  .obj [("jsonrpc", .str "2.0"), ("id", msgId),
    ("error", .obj [("code", .int code), ("message", .str message)])]

/-- Tool results are content blocks. -/
def content (msgId : Json) (text : String) (isError : Bool) : Json :=
  ok msgId (.obj [("content", .arr [.obj [("type", .str "text"), ("text", .str text)]]),
    ("isError", .bool isError)])

/-- `_tool_error`: errors of a tool stand inside the result. -/
def toolError (msgId : Json) (message : String) : Json := content msgId message true

/-- `_tool`: a feature manifest as a tool definition. -/
def tool (manifest : Manifest) : Json :=
  .obj [("name", .str manifest.name), ("description", .str manifest.description),
    ("inputSchema",
      if manifest.inputSchema.entries.isEmpty then .obj [("type", .str "object")]
      else .ofDict manifest.inputSchema)]

/-- `value == text`. -/
def isText (text : String) : Json → Bool
  | .str value => value == text
  | _ => false

/-- `value is None`. -/
def isNone : Json → Bool
  | .null => true
  | _ => false

variable (gateway : Gateway)

/-- `catalog.get(name) if name else None`: only strings name features, and a list or an
object cannot be looked up.
-/
def findTool : Json → Except Fault (Option (String × Feature))
  | .str name =>
      .ok (if name = "" then none
        else (gateway.catalog.get name).map fun feature => (name, feature))
  | .arr items => if items.isEmpty then .ok none else .error .uncaught
  | .obj fields => if fields.isEmpty then .ok none else .error .uncaught
  | _ => .ok none

/-- A value inside an f-string. -/
def display : Json → String
  | .str text => text
  | value => gateway.runtime.str value

/-- The validated call of a tool. -/
def invokeTool (msgId : Json) (name : String) (feature : Feature) (arguments : Json)
    : Handler Json := do
  match gateway.inputErrors feature arguments with
  | error :: errors =>
      return toolError msgId ("invalid input: " ++ String.intercalate "; " (error :: errors))
  | [] =>
      match ← Gateway.dispatch name arguments {} with
      | .inputError _ => return toolError msgId s!"feature '{name}' rejected the input"
      | .unavailable _ => return toolError msgId s!"feature '{name}' is currently unavailable"
      | .result output _ =>
          return content msgId (gateway.runtime.dumps (.ofDict output)) false

/-- `_call`: the `tools/call` method. Parameters that are no object have no `get`. -/
def call (msgId params : Json) : Handler Json :=
  match params.get? "name", params.get? "arguments" with
  | some name, some arguments =>
      match findTool gateway name with
      | .error fault => .raise fault
      | .ok none => .done (err msgId invalidParams s!"unknown tool: {display gateway name}")
      | .ok (some (name, feature)) => invokeTool gateway msgId name feature arguments.orEmpty
  | _, _ => .raise .uncaught

/-- `handle`: one JSON-RPC message, with no response to a notification. -/
def handle (message : Json) : Handler (Option Json) :=
  match message.get? "method", message.get? "id", message.get? "params" with
  | some method, some msgId, some params =>
      if isNone msgId && !isText "initialize" method then .done none
      else if isText "initialize" method then
        .done (some (ok msgId (.obj [("protocolVersion", .str protocolVersion),
          ("capabilities", .obj [("tools", .obj [("listChanged", .bool false)])]),
          ("serverInfo", serverInfo)])))
      else if isText "tools/list" method then
        .done (some (ok msgId (.obj [("tools",
          .arr (gateway.catalog.list.map fun feature => tool feature.manifest))])))
      else if isText "tools/call" method then
        some <$> call gateway msgId params.orEmpty
      else .done (some (err msgId methodNotFound s!"unknown method: {display gateway method}"))
  | _, _, _ => .raise .uncaught

end Mcp

end AgentFeatures
