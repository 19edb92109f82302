import AgentFeatures.Library.Substitution

/-! The templates of the client stubs, as fixed texts and placeholders. -/

namespace AgentFeatures

open Library
open Library.Substitution

namespace AgentDsl

/-- The placeholders of the templates. -/
inductive Token where
  | name
  | desc
  | camel
  | pascal
  | snake
  | fields
  | outs
  | tsFields
  | goFields
  | rsFields
  | protoIn
deriving DecidableEq

/-- How the templates write a placeholder. -/
def Token.spell : Token → Text
  | name => "__NAME__".toList
  | desc => "__DESC__".toList
  | camel => "__CAMEL__".toList
  | pascal => "__PASCAL__".toList
  | snake => "__SNAKE__".toList
  | fields => "__FIELDS__".toList
  | outs => "__OUTS__".toList
  | tsFields => "__TSFIELDS__".toList
  | goFields => "__GOFIELDS__".toList
  | rsFields => "__RSFIELDS__".toList
  | protoIn => "__PROTOIN__".toList

abbrev Template := List (Piece Char Token)

/-- A fixed text of a template. -/
def fixed (text : String) : Piece Char Token := .text text.toList

/-- `_JS`. -/
def jsTemplate : Template := [
  fixed "// Generated from ", .hole .name, fixed ".agent.next — do not edit by hand.\n",
  fixed "// Agent ", .hole .name, fixed " — ", .hole .desc, fixed "\n",
  fixed "export async function ", .hole .camel,
  fixed "(input, \x7b baseUrl = \"http://localhost:8000\" \x7d = \x7b\x7d) \x7b\n",
  fixed "  // input fields: ", .hole .fields, fixed "\n",
  fixed "  const res = await fetch(\x60$\x7bbaseUrl\x7d/composites/", .hole .name,
  fixed "/invoke\x60, \x7b\n",
  fixed "    method: \"POST\",\n",
  fixed "    headers: \x7b \"content-type\": \"application/json\" \x7d,\n",
  fixed "    body: JSON.stringify(\x7b input \x7d),\n",
  fixed "  \x7d);\n",
  fixed "  if (!res.ok) throw new Error(\x60agent ", .hole .name,
  fixed " failed: $\x7bres.status\x7d\x60);\n",
  fixed "  const data = await res.json();\n",
  fixed "  if (data.error) throw new Error(data.error);\n",
  fixed "  return data.output; // ", .hole .outs, fixed "\n",
  fixed "\x7d\n"]

/-- `_GO`. -/
def goTemplate : Template := [
  fixed "// Generated from ", .hole .name, fixed ".agent.next — do not edit by hand.\n",
  fixed "// Agent ", .hole .name, fixed " — ", .hole .desc, fixed "\n",
  fixed "package agents\n\n",
  fixed "import (\n",
  fixed "\t\"bytes\"\n",
  fixed "\t\"encoding/json\"\n",
  fixed "\t\"fmt\"\n",
  fixed "\t\"net/http\"\n",
  fixed ")\n\n",
  fixed "// ", .hole .pascal, fixed "Input is the input for the ", .hole .name, fixed " agent.\n",
  fixed "type ", .hole .pascal, fixed "Input struct \x7b\n",
  .hole .goFields, fixed "\n",
  fixed "\x7d\n\n",
  fixed "// ", .hole .pascal, fixed " invokes the ", .hole .name,
  fixed " agent on the gateway at baseURL.\n",
  fixed "// Returns the agent output (", .hole .outs, fixed ").\n",
  fixed "func ", .hole .pascal, fixed "(baseURL string, in ", .hole .pascal,
  fixed "Input) (map[string]any, error) \x7b\n",
  fixed "\tbody, err := json.Marshal(map[string]any\x7b\"input\": in\x7d)\n",
  fixed "\tif err != nil \x7b\n",
  fixed "\t\treturn nil, err\n",
  fixed "\t\x7d\n",
  fixed "\tresp, err := http.Post(baseURL+\"/composites/", .hole .name,
  fixed "/invoke\", \"application/json\", bytes.NewReader(body))\n",
  fixed "\tif err != nil \x7b\n",
  fixed "\t\treturn nil, err\n",
  fixed "\t\x7d\n",
  fixed "\tdefer resp.Body.Close()\n",
  fixed "\tvar out struct \x7b\n",
  fixed "\t\tOutput map[string]any \x60json:\"output\"\x60\n",
  fixed "\t\tError  string         \x60json:\"error\"\x60\n",
  fixed "\t\x7d\n",
  fixed "\tif err := json.NewDecoder(resp.Body).Decode(&out); err != nil \x7b\n",
  fixed "\t\treturn nil, err\n",
  fixed "\t\x7d\n",
  fixed "\tif out.Error != \"\" \x7b\n",
  fixed "\t\treturn nil, fmt.Errorf(\"agent ", .hole .name, fixed ": %s\", out.Error)\n",
  fixed "\t\x7d\n",
  fixed "\treturn out.Output, nil\n",
  fixed "\x7d\n"]

/-- `_RUST`. -/
def rustTemplate : Template := [
  fixed "// Generated from ", .hole .name, fixed ".agent.next — do not edit by hand.\n",
  fixed "// Agent ", .hole .name, fixed " — ", .hole .desc, fixed "\n",
  fixed "// Requires: reqwest (blocking feature), serde_json.\n",
  fixed "use serde_json::\x7bjson, Value\x7d;\n\n",
  fixed "/// Invoke the ", .hole .name, fixed " agent on the gateway at \x60base_url\x60.\n",
  fixed "/// Input fields: ", .hole .rsFields, fixed " — returns the agent output (", .hole .outs,
  fixed ").\n",
  fixed "pub fn ", .hole .snake,
  fixed "(base_url: &str, input: Value) -> Result<Value, Box<dyn std::error::Error>> \x7b\n",
  fixed "    let client = reqwest::blocking::Client::new();\n",
  fixed "    let resp: Value = client\n",
  fixed "        .post(format!(\"\x7bbase_url\x7d/composites/", .hole .name, fixed "/invoke\"))\n",
  fixed "        .json(&json!(\x7b \"input\": input \x7d))\n",
  fixed "        .send()?\n",
  fixed "        .json()?;\n",
  fixed "    if let Some(err) = resp.get(\"error\").and_then(Value::as_str) \x7b\n",
  fixed "        return Err(err.into());\n",
  fixed "    \x7d\n",
  fixed "    Ok(resp.get(\"output\").cloned().unwrap_or(Value::Null))\n",
  fixed "\x7d\n"]

/-- `_TS`. -/
def tsTemplate : Template := [
  fixed "// Generated from ", .hole .name, fixed ".agent.next — do not edit by hand.\n",
  fixed "// Agent ", .hole .name, fixed " — ", .hole .desc, fixed "\n",
  fixed "export interface ", .hole .pascal, fixed "Input \x7b ", .hole .tsFields,
  fixed " \x7d\n\n",
  fixed "export async function ", .hole .camel, fixed "(\n",
  fixed "  input: ", .hole .pascal, fixed "Input,\n",
  fixed "  baseUrl = \"http://localhost:8000\",\n",
  fixed "): Promise<Record<string, unknown>> \x7b\n",
  fixed "  const res = await fetch(\x60$\x7bbaseUrl\x7d/composites/", .hole .name,
  fixed "/invoke\x60, \x7b\n",
  fixed "    method: \"POST\",\n",
  fixed "    headers: \x7b \"content-type\": \"application/json\" \x7d,\n",
  fixed "    body: JSON.stringify(\x7b input \x7d),\n",
  fixed "  \x7d);\n",
  fixed "  if (!res.ok) throw new Error(\x60agent ", .hole .name,
  fixed " failed: $\x7bres.status\x7d\x60);\n",
  fixed "  const data = await res.json();\n",
  fixed "  if (data.error) throw new Error(data.error);\n",
  fixed "  return data.output; // ", .hole .outs, fixed "\n",
  fixed "\x7d\n"]

/-- `_JAVA`. -/
def javaTemplate : Template := [
  fixed "// Generated from ", .hole .name, fixed ".agent.next — do not edit by hand.\n",
  fixed "// Agent ", .hole .name, fixed " — ", .hole .desc, fixed "\n",
  fixed "// Requires: com.fasterxml.jackson.databind (ObjectMapper), Java 11+ (java.net.http).\n",
  fixed "package agents;\n\n",
  fixed "import com.fasterxml.jackson.databind.JsonNode;\n",
  fixed "import com.fasterxml.jackson.databind.ObjectMapper;\n",
  fixed "import java.net.URI;\n",
  fixed "import java.net.http.HttpClient;\n",
  fixed "import java.net.http.HttpRequest;\n",
  fixed "import java.net.http.HttpResponse;\n",
  fixed "import java.util.Map;\n\n",
  fixed "public final class ", .hole .pascal, fixed " \x7b\n",
  fixed "    private static final ObjectMapper MAPPER = new ObjectMapper();\n\n",
  fixed "    // Invoke the ", .hole .name,
  fixed " agent on the gateway at baseUrl. Input fields: ", .hole .fields, fixed "\n",
  fixed "    // Returns the agent output (", .hole .outs, fixed ").\n",
  fixed "    public static JsonNode invoke(String baseUrl, ",
  fixed "Map<String, Object> input) throws Exception \x7b\n",
  fixed "        byte[] body = MAPPER.writeValueAsBytes(Map.of(\"input\", input));\n",
  fixed "        HttpRequest req = HttpRequest.newBuilder()\n",
  fixed "                .uri(URI.create(baseUrl + \"/composites/", .hole .name,
  fixed "/invoke\"))\n",
  fixed "                .header(\"content-type\", \"application/json\")\n",
  fixed "                .POST(HttpRequest.BodyPublishers.ofByteArray(body))\n",
  fixed "                .build();\n",
  fixed "        HttpResponse<String> resp = HttpClient.newHttpClient()\n",
  fixed "                .send(req, HttpResponse.BodyHandlers.ofString());\n",
  fixed "        JsonNode data = MAPPER.readTree(resp.body());\n",
  fixed "        if (data.hasNonNull(\"error\")) \x7b\n",
  fixed "            throw new RuntimeException(\"agent ", .hole .name,
  fixed ": \" + data.get(\"error\").asText());\n",
  fixed "        \x7d\n",
  fixed "        return data.get(\"output\");\n",
  fixed "    \x7d\n",
  fixed "\x7d\n"]

/-- `_PROTO`. -/
def protoTemplate : Template := [
  fixed "// Generated from ", .hole .name, fixed ".agent.next — do not edit by hand.\n",
  fixed "// Agent ", .hole .name, fixed " — ", .hole .desc, fixed "\n",
  fixed "syntax = \"proto3\";\n\n",
  fixed "package agents.", .hole .snake, fixed ";\n\n",
  fixed "import \"google/protobuf/struct.proto\";\n\n",
  fixed "service ", .hole .pascal, fixed " \x7b\n",
  fixed "  // Invoke the ", .hole .name, fixed " agent.\n",
  fixed "  rpc Invoke(", .hole .pascal, fixed "Input) returns (", .hole .pascal,
  fixed "Output);\n",
  fixed "\x7d\n\n",
  fixed "message ", .hole .pascal, fixed "Input \x7b\n",
  .hole .protoIn, fixed "\n",
  fixed "\x7d\n\n",
  fixed "message ", .hole .pascal, fixed "Output \x7b\n",
  fixed "  google.protobuf.Struct output = 1;  // ", .hole .outs, fixed "\n",
  fixed "\x7d\n"]

-----------------------------------------------------------------------------------------
-- Languages
-----------------------------------------------------------------------------------------

/-- `LANGUAGES`. -/
inductive Language where
  | js
  | ts
  | go
  | rust
  | java
  | proto
deriving DecidableEq

def Language.template : Language → Template
  | js => jsTemplate
  | ts => tsTemplate
  | go => goTemplate
  | rust => rustTemplate
  | java => javaTemplate
  | proto => protoTemplate

-----------------------------------------------------------------------------------------
-- Placeholders cannot be made or broken by the values around them
-----------------------------------------------------------------------------------------

/-- The characters of placeholders. -/
def isTokenChar (c : Char) : Bool := c.isUpper || c == '_'

theorem spelling : Spelling isTokenChar '_' Token.spell where
  inClass token := List.all_eq_true.mp (by cases token <;> decide +kernel)
  starts token := by cases token <;> decide +kernel
  ends token := by cases token <;> decide +kernel
  alone token other := by cases token <;> cases other <;> decide +kernel

/-- A fixed text is checked on its characters. -/
theorem seals_fixed {text : Text} (seals : Seals isTokenChar '_' text)
    : (fixed (.ofList text)).Seals isTokenChar '_' := by
  rwa [fixed, Piece.Seals, String.toList_ofList]

/-- No placeholder can arise at the border of a fixed text, whatever the holes show: each piece
is checked.
-/
theorem sealed_template (language : Language) : Sealed isTokenChar '_' language.template := by
  refine ⟨?_, by cases language <;> decide +kernel⟩
  cases language
  all_goals
    repeat
      first
      | exact List.forall_mem_nil _
      | refine List.forall_mem_cons.mpr ⟨trivial, ?_⟩
      | refine List.forall_mem_cons.mpr ⟨seals_fixed (by decide +kernel), ?_⟩

end AgentDsl

end AgentFeatures
