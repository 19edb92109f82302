import AgentFeatures.Models

/-! Composites and the composer that runs them against a capability invoker. -/

namespace AgentFeatures

open Library

/-- One pipeline step: invoke `capability` with inputs built from the run context. -/
structure Step where
  name : String
  capability : String
  vendor : Option String := none
  version : Option String := none
  /-- Maps each input field to a reference into the run context. -/
  inputs : Dict String String := ∅
deriving DecidableEq

/-- A named pipeline exposed as its own capability, by default under its name. -/
structure Composite where
  name : String
  capability : String
  description : String := ""
  inputSchema : Dict String Json := ∅
  steps : List Step := []
  /-- Maps each output field to a reference into the run context. -/
  output : Dict String String := ∅
  defaultCapability : capability = "" → name = ""

/-- One completed step. -/
structure TraceEntry where
  step : String
  capability : String
  output : Dict String Json

structure CompositeResult where
  composite : String
  output : Dict String Json
  trace : List TraceEntry
  error : Option String := none

/-- `ref.split(".")`. -/
def refParts (ref : String) : List String := (ref.toList.splitOn '.').map String.ofList

/-- Follows field names into nested objects. -/
def walk : List String → Json → Option Json
  | [], value => some value
  | part :: rest, .obj fields => (fields.lookup part).bind (walk rest)
  | _ :: _, _ => none

/-- Resolves a dotted reference like `input.name` or `fetch.content`. -/
def resolveRef (ctx : Dict String Json) (ref : String) : Except String Json :=
  match walk (refParts ref) (.ofDict ctx) with
  | some value => .ok value
  | none => .error s!"unresolved reference: '{ref}'"

/-- The step input or output object built from its references, in order. -/
def resolveRefs (ctx : Dict String Json) (refs : Dict String String)
    : Except String (Dict String Json) :=
  refs.mapM (resolveRef ctx)

/-- A capability invoker: capability, input, vendor and version to (output, error). -/
abbrev CapabilityInvoke (m : Type → Type) :=
  String → Dict String Json → Option String → Option String
    → m (Option (Dict String Json) × Option String)

/-- A step completes unless an error is set or there is no output. -/
def stepOutcome (reply : Option (Dict String Json) × Option String)
    : Except String (Dict String Json) :=
  match given reply.2, reply.1 with
  | some err, _ => .error err
  | none, none => .error "no output"
  | none, some output => .ok output

/-- A step without an output ends the run. -/
theorem stepOutcome_none (message : Option String)
    : ∃ err, stepOutcome (none, message) = .error err := by
  unfold stepOutcome
  split
  · exact ⟨_, rfl⟩
  · exact ⟨_, rfl⟩
  · next output => cases output

namespace Composer

variable {m : Type → Type} [Monad m]

def fail (composite : Composite) (trace : List TraceEntry) (message : String)
    : CompositeResult :=
  { composite := composite.name, output := ∅, trace, error := some message }

/-- The loop over the remaining steps, with the context and the trace so far. -/
def runSteps (invoke : CapabilityInvoke m) (composite : Composite)
    : List Step → Dict String Json → List TraceEntry → m CompositeResult
  | [], ctx, trace =>
      match resolveRefs ctx composite.output with
      | .error err => pure (fail composite trace err)
      | .ok result => pure { composite := composite.name, output := result, trace }
  | step :: rest, ctx, trace =>
      match resolveRefs ctx step.inputs with
      | .error err => pure (fail composite trace s!"step '{step.name}': {err}")
      | .ok stepInput => do
          let reply ← invoke step.capability stepInput step.vendor step.version
          match stepOutcome reply with
          | .error err => pure (fail composite trace s!"step '{step.name}': {err}")
          | .ok output =>
              runSteps invoke composite rest (ctx.set step.name (.ofDict output))
                (trace ++ [⟨step.name, step.capability, output⟩])

/-- Without steps left, the output references decide. -/
theorem runSteps_nil (invoke : CapabilityInvoke m) (composite : Composite)
    (ctx : Dict String Json) (trace : List TraceEntry)
    : runSteps invoke composite [] ctx trace
      = match resolveRefs ctx composite.output with
        | .error err => pure (fail composite trace err)
        | .ok result => pure { composite := composite.name, output := result, trace } := rfl

/-- A step whose references do not resolve ends the run without a call. -/
theorem runSteps_unresolved (invoke : CapabilityInvoke m) (composite : Composite)
    {step : Step} (rest : List Step) {ctx : Dict String Json} (trace : List TraceEntry)
    {err : String} (unresolved : resolveRefs ctx step.inputs = .error err)
    : runSteps invoke composite (step :: rest) ctx trace
      = pure (fail composite trace s!"step '{step.name}': {err}") := by
  rw [runSteps, unresolved]

/-- A step whose references resolve calls the invoker and goes by the reply. -/
theorem runSteps_resolved (invoke : CapabilityInvoke m) (composite : Composite)
    {step : Step} (rest : List Step) {ctx : Dict String Json} (trace : List TraceEntry)
    {stepInput : Dict String Json} (resolved : resolveRefs ctx step.inputs = .ok stepInput)
    : runSteps invoke composite (step :: rest) ctx trace
      = invoke step.capability stepInput step.vendor step.version >>= fun reply =>
          match stepOutcome reply with
          | .error err => pure (fail composite trace s!"step '{step.name}': {err}")
          | .ok output =>
              runSteps invoke composite rest (ctx.set step.name (.ofDict output))
                (trace ++ [⟨step.name, step.capability, output⟩]) := by
  rw [runSteps, resolved]

/-- Runs a composite on the caller's input. -/
def run (invoke : CapabilityInvoke m) (composite : Composite)
    (callerInput : Dict String Json)
    : m CompositeResult :=
  runSteps invoke composite composite.steps (Dict.empty.set "input" (.ofDict callerInput)) []

/-- A property closed under returning and sequencing passes from the invoker to the loop.
Witness: induction on the steps.
-/
theorem runSteps_closed (Good : {α : Type} → m α → Prop)
    (returning : ∀ {α : Type} (value : α), Good (pure value))
    (sequencing
      : ∀ {α β : Type} {first : m α} {next : α → m β},
          Good first → (∀ value, Good (next value)) → Good (first >>= next))
    {invoke : CapabilityInvoke m}
    (invoked : ∀ capability input vendor version, Good (invoke capability input vendor version))
    (composite : Composite) (steps : List Step) (ctx : Dict String Json)
    (trace : List TraceEntry)
    : Good (runSteps invoke composite steps ctx trace) := by
  induction steps generalizing ctx trace with
  | nil =>
      rw [runSteps_nil]
      split
      · exact returning _
      · exact returning _
  | cons step rest ih =>
      cases resolved : resolveRefs ctx step.inputs with
      | error err =>
          rw [runSteps_unresolved _ _ _ _ resolved]
          exact returning _
      | ok stepInput =>
          rw [runSteps_resolved _ _ _ _ resolved]
          refine sequencing (invoked _ _ _ _) fun reply => ?_
          split
          · exact returning _
          · exact ih _ _

end Composer

end AgentFeatures
