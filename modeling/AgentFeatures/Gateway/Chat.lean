import AgentFeatures.Gateway.Handlers
import AgentFeatures.Library.Text

/-! The streaming chat: a command grammar over features and capabilities. -/

namespace AgentFeatures

open Library
open Library.Text (strip)

namespace Gateway

/-- `yield event`: the generator is resumed when the event was consumed. -/
def say (event : ChatEvent) : Handler Unit := .emit event (.done ())

def sayAll : List ChatEvent → Handler Unit
  | [] => return ()
  | event :: events => do
      say event
      sayAll events

def chatHelp : List ChatEvent :=
  [.status "Commands:",
   .status "  <feature> {json}         invoke a feature",
   .status "  cap:<capability> {json}  invoke the best-ranked provider",
   .status "  list                     list available features"]

/-- `text.partition(" ")` without the separator. -/
def partitionSpace (text : Text) : Text × Text :=
  (text.takeWhile (· ≠ ' '), (text.dropWhile (· ≠ ' ')).drop 1)

variable (gateway : Gateway)

/-- `json.loads(tail) if tail.strip() else {}`. -/
def chatPayload (tail : Text) : Option Json :=
  if (strip tail).isEmpty then some (.obj []) else gateway.runtime.loads (String.ofList tail)

/-- The feature a command's head names, or an error event. -/
def chatFeature (head : Text) : Handler (Option Feature) :=
  if "cap:".toList.isPrefixOf head then do
    let capability := String.ofList (head.drop 4)
    say (.status s!"resolving capability '{capability}'…")
    match ← gateway.rankProviders capability none none with
    | [] =>
        say (.error s!"no provider for capability '{capability}'")
        return none
    | feature :: _ => return some feature
  else
    match gateway.catalog.get (String.ofList head) with
    | none => do
        say (.error s!"unknown feature '{String.ofList head}' (try 'list')")
        return none
    | some feature => return some feature

/-- Validates, dispatches and records, streaming what happens. -/
def chatInvoke (feature : Feature) (payload : Json) : Handler Unit := do
  say (.status s!"invoking {feature.manifest.vendor}/{feature.manifest.name}…")
  match gateway.inputErrors feature payload with
  | error :: errors =>
      say (.error ("invalid input: " ++ String.intercalate "; " (error :: errors)))
  | [] =>
      let fid := featureId feature
      match ← dispatch feature.manifest.name payload {} with
      | .inputError _ => say (.error "the feature rejected the input")
      | .unavailable _ =>
          record fid false
          say (.error "the feature is currently unavailable")
      | .result output latencyMs =>
          record fid true latencyMs
          say (.result feature.manifest.name feature.manifest.vendor output latencyMs)

/-- `_chat`: the events of one message. -/
def chat (text : String) : Handler Unit :=
  let text := strip text.toList
  if text = [] ∨ text = "help".toList then sayAll chatHelp
  else if text = "list".toList then
    sayAll (.status "features:" :: gateway.catalog.list.map fun f =>
      .status s!"  {f.manifest.name} ({f.manifest.capability})")
  else
    let (head, tail) := partitionSpace text
    match gateway.chatPayload tail with
    | none => say (.error "the text after the command must be valid JSON")
    | some payload => do
        match ← gateway.chatFeature head with
        | none => return ()
        | some feature => gateway.chatInvoke feature payload

end Gateway

end AgentFeatures
