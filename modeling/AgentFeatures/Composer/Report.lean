import AgentFeatures.Composer.Run

/-! What a run of the composer reports, against any stateful capability invoker. -/

namespace AgentFeatures

open Library

/-- One call of the capability invoker with its reply. -/
structure CapabilityCall where
  capability : String
  input : Dict String Json
  vendor : Option String
  version : Option String
  reply : Option (Dict String Json) × Option String

/-- The invoker with every call appended to a log. -/
def logged {σ : Type} (invoke : CapabilityInvoke (StateM σ))
    : CapabilityInvoke (StateM (σ × List CapabilityCall)) :=
  fun capability input vendor version (world, calls) =>
    let (reply, world) := invoke capability input vendor version world
    (reply, world, calls ++ [⟨capability, input, vendor, version, reply⟩])

/-- The call is the one its step asks for. -/
def CapabilityCall.Targets (call : CapabilityCall) (step : Step) : Prop :=
  call.capability = step.capability ∧ call.vendor = step.vendor ∧ call.version = step.version

/-- The trace entry of a step whose call completed. -/
def completedEntry (step : Step) (call : CapabilityCall) : Option TraceEntry :=
  match stepOutcome call.reply with
  | .ok output => some ⟨step.name, step.capability, output⟩
  | .error _ => none

/-- A context with the outputs of the completed steps added in order. -/
def extendContext (ctx : Dict String Json) (completed : List TraceEntry) : Dict String Json :=
  completed.foldl (fun ctx entry => ctx.set entry.step (.ofDict entry.output)) ctx

/-- The context of the caller's input and the outputs of the completed steps. -/
def contextAfter (callerInput : Dict String Json) (completed : List TraceEntry)
    : Dict String Json :=
  extendContext (Dict.empty.set "input" (.ofDict callerInput)) completed

/-- The calls made for `steps` from `ctx`, and the steps among them that completed: one
call a step, in order, only the last one possibly not completed.
-/
structure Segment (ctx : Dict String Json) (steps : List Step)
    (calls : List CapabilityCall) (completed : List TraceEntry) : Prop where
  aligned
    : ∀ i step call,
        steps[i]? = some step
        → calls[i]? = some call
        → call.Targets step
          ∧ resolveRefs (extendContext ctx (completed.take i)) step.inputs = .ok call.input
          ∧ completed[i]? = completedEntry step call
  called : calls.length ≤ steps.length
  completed_le : completed.length ≤ calls.length
  calls_le : calls.length ≤ completed.length + 1

/-- A segment without calls. -/
theorem Segment.empty (ctx : Dict String Json) (steps : List Step) : Segment ctx steps [] [] :=
  ⟨fun i step call _ found => by simp at found, by simp, by simp, by simp⟩

/-- A segment that stops at the failed call of its first step. -/
theorem Segment.failed {ctx : Dict String Json} {step : Step} (rest : List Step)
    {call : CapabilityCall} (targets : call.Targets step)
    (resolved : resolveRefs ctx step.inputs = .ok call.input)
    (failing : completedEntry step call = none)
    : Segment ctx (step :: rest) [call] [] := by
  refine ⟨?_, by simp, by simp, by simp⟩
  intro i other made atStep atCall
  cases i with
  | zero =>
      cases atStep
      cases atCall
      exact ⟨targets, resolved, by simp [failing]⟩
  | succ i => simp at atCall

/-- A completed first step in front of a segment of the rest. -/
theorem Segment.cons {ctx : Dict String Json} {step : Step} {rest : List Step}
    {call : CapabilityCall} {entry : TraceEntry} {calls : List CapabilityCall}
    {completed : List TraceEntry} (targets : call.Targets step)
    (resolved : resolveRefs ctx step.inputs = .ok call.input)
    (done : completedEntry step call = some entry)
    (later : Segment (extendContext ctx [entry]) rest calls completed)
    : Segment ctx (step :: rest) (call :: calls) (entry :: completed) := by
  refine ⟨?_, by simpa using later.called, by simpa using later.completed_le,
    by simpa using later.calls_le⟩
  intro i other made atStep atCall
  cases i with
  | zero =>
      cases atStep
      cases atCall
      exact ⟨targets, resolved, by simp [done]⟩
  | succ i =>
      simp only [List.getElem?_cons_succ] at atStep atCall ⊢
      simpa [extendContext] using later.aligned i other made atStep atCall

/-- Some reference does not resolve. -/
def Unresolved (ctx : Dict String Json) (refs : Dict String String) : Prop :=
  ∃ entry ∈ refs.entries, ∀ value, resolveRef ctx entry.2 ≠ .ok value

/-- References that do not all resolve include one that does not. -/
theorem unresolved_of_error {ctx : Dict String Json} {refs : Dict String String} {err : String}
    (failed : resolveRefs ctx refs = .error err)
    : Unresolved ctx refs := by
  by_contra none
  simp only [Unresolved, not_exists, not_and, not_forall, not_not] at none
  obtain ⟨results, resolved⟩ := Dict.mapM_isOk_iff.mpr none
  rw [resolveRefs, resolved] at failed
  cases failed

/-- Why the loop over some steps ends with an error: a call that did not complete, or a
reference of the next step or of the output that does not resolve.
-/
def Failure (composite : Composite) (ctx : Dict String Json) (steps : List Step)
    (calls : List CapabilityCall) (completed : List TraceEntry)
    : Prop :=
  calls.length = completed.length + 1
  ∨ (∃ step,
      steps[completed.length]? = some step
      ∧ Unresolved (extendContext ctx completed) step.inputs)
  ∨ (completed.length = steps.length ∧ Unresolved (extendContext ctx completed) composite.output)

/-- After a failure the steps are not all completed or an output reference does not resolve. -/
theorem Failure.not_completed {composite : Composite} {ctx : Dict String Json}
    {steps : List Step} {calls : List CapabilityCall} {completed : List TraceEntry}
    (failure : Failure composite ctx steps calls completed)
    (called : calls.length ≤ steps.length)
    : ¬ (completed.length = steps.length
          ∧ ∀ entry ∈ composite.output.entries,
              ∃ value, resolveRef (extendContext ctx completed) entry.2 = .ok value) := by
  intro done
  obtain ⟨all, outputs⟩ := done
  rcases failure with incomplete | ⟨step, atStep, -⟩ | ⟨-, entry, member, unresolved⟩
  · omega
  · have inSteps := (List.getElem?_eq_some_iff.mp atStep).1
    omega
  · obtain ⟨value, resolved⟩ := outputs entry member
    exact unresolved value resolved

/-- How a run ends after its segment: with all steps completed and every output reference
resolved, or with an error for a reason, an empty output and the same trace.
-/
def Ending (composite : Composite) (ctx : Dict String Json) (steps : List Step)
    (calls : List CapabilityCall) (completed trace : List TraceEntry) (result : CompositeResult)
    : Prop :=
  result.composite = composite.name
  ∧ result.trace = trace
  ∧ ((result.error = none
        ∧ completed.length = steps.length
        ∧ resolveRefs (extendContext ctx completed) composite.output = .ok result.output)
      ∨ (result.error ≠ none
          ∧ result.output = ∅
          ∧ Failure composite ctx steps calls completed))

/-- The loop makes the calls of a segment and ends accordingly. Witness: induction on the
remaining steps; the context is carried as an extension of the first one.
-/
theorem runSteps_segment {σ : Type} (invoke : CapabilityInvoke (StateM σ))
    (composite : Composite) (steps : List Step) (ctx : Dict String Json)
    (before : List TraceEntry) (world : σ) (log : List CapabilityCall)
    : ∃ calls completed,
        (Composer.runSteps (logged invoke) composite steps ctx before (world, log)).2.2
          = log ++ calls
        ∧ Segment ctx steps calls completed
        ∧ Ending composite ctx steps calls completed (before ++ completed)
            (Composer.runSteps (logged invoke) composite steps ctx before (world, log)).1 := by
  induction steps generalizing ctx before world log with
  | nil =>
      refine ⟨[], [], ?_⟩
      rw [Composer.runSteps_nil]
      cases outputs : resolveRefs ctx composite.output with
      | error err =>
          exact ⟨(List.append_nil log).symm, .empty ctx [], rfl, (List.append_nil before).symm,
            .inr ⟨Option.some_ne_none _, rfl, .inr (.inr ⟨rfl, unresolved_of_error outputs⟩)⟩⟩
      | ok output =>
          exact ⟨(List.append_nil log).symm, .empty ctx [], rfl, (List.append_nil before).symm,
            .inl ⟨rfl, rfl, outputs⟩⟩
  | cons step rest ih =>
      cases resolved : resolveRefs ctx step.inputs with
      | error err =>
          rw [Composer.runSteps_unresolved _ _ _ _ resolved]
          exact ⟨[], [], (List.append_nil log).symm, .empty ctx _, rfl,
            (List.append_nil before).symm, .inr ⟨Option.some_ne_none _, rfl,
              .inr (.inl ⟨step, rfl, unresolved_of_error resolved⟩)⟩⟩
      | ok stepInput =>
          rw [Composer.runSteps_resolved _ _ _ _ resolved]
          cases replied : invoke step.capability stepInput step.vendor step.version world with
          | mk reply world' =>
              let call : CapabilityCall :=
                ⟨step.capability, stepInput, step.vendor, step.version, reply⟩
              have called : logged invoke step.capability stepInput step.vendor step.version
                  (world, log) = (reply, world', log ++ [call]) := by
                simp [logged, replied, call]
              have targets : call.Targets step := ⟨rfl, rfl, rfl⟩
              cases outcome : stepOutcome reply with
              | error err =>
                  refine ⟨[call], [], ?_, .failed rest targets resolved ?_, ?_⟩
                  · simp [bind, StateT.bind, called, outcome, pure, StateT.pure]
                  · simp [completedEntry, call, outcome]
                  · simp [bind, StateT.bind, called, outcome, pure, StateT.pure, Ending, Failure,
                      Composer.fail]
              | ok output =>
                  obtain ⟨calls, completed, logs, segment, ending⟩ :=
                    ih (ctx.set step.name (.ofDict output))
                      (before ++ [⟨step.name, step.capability, output⟩]) world' (log ++ [call])
                  refine ⟨call :: calls, ⟨step.name, step.capability, output⟩ :: completed, ?_,
                    .cons targets resolved (by simp [completedEntry, call, outcome]) segment, ?_⟩
                  · simpa [bind, StateT.bind, called, outcome] using logs
                  · simpa [bind, StateT.bind, called, outcome, Ending, Failure, extendContext]
                      using ending

-----------------------------------------------------------------------------------------
-- The report of a whole run
-----------------------------------------------------------------------------------------

/-- What a run reports to its caller and does to its invoker. The failing step, if a step
fails, is the one after the trace.
-/
structure RunReport (composite : Composite) (callerInput : Dict String Json)
    (calls : List CapabilityCall) (result : CompositeResult) : Prop where
  /-- The calls are for a prefix of the steps, in order, one call a step. -/
  prefixCalled
    : List.Forall₂ CapabilityCall.Targets calls (composite.steps.take calls.length)
  /-- Each call's input is resolved from the caller's input and completed outputs only. -/
  inputsResolved
    : ∀ i step call,
        composite.steps[i]? = some step
        → calls[i]? = some call
        → i ≤ result.trace.length
          ∧ resolveRefs (contextAfter callerInput (result.trace.take i)) step.inputs
            = .ok call.input
  /-- The trace is the list of the completed steps in order with their outputs. -/
  traceCompleted
    : result.trace = (List.zipWith completedEntry composite.steps calls).filterMap id
  /-- No error exactly when every step completed and every output reference resolved. -/
  errorNone
    : result.error = none
      ↔ result.trace.length = composite.steps.length
        ∧ ∀ entry ∈ composite.output.entries,
            ∃ value, resolveRef (contextAfter callerInput result.trace) entry.2 = .ok value
  /-- Without an error the output has the declared keys with the referenced values. -/
  outputResolved
    : result.error = none
      → result.output.keys = composite.output.keys
        ∧ ∀ key ref,
            (key, ref) ∈ composite.output.entries
            → ∃ value,
                resolveRef (contextAfter callerInput result.trace) ref = .ok value
                ∧ result.output.get? key = some value
  /-- With an error the output is empty and no step after the failing one was invoked. -/
  errorSome
    : result.error ≠ none → result.output = ∅ ∧ calls.length ≤ result.trace.length + 1

/-- A segment's calls go to a prefix of its steps. Witness: position by position. -/
theorem Segment.forall₂_targets {ctx : Dict String Json} {steps : List Step}
    {calls : List CapabilityCall} {completed : List TraceEntry}
    (segment : Segment ctx steps calls completed)
    : List.Forall₂ CapabilityCall.Targets calls (steps.take calls.length) := by
  refine List.forall₂_iff_get.mpr ⟨by simp [segment.called], ?_⟩
  intro i inCalls inSteps
  have bound : i < steps.length := Nat.lt_of_lt_of_le inCalls segment.called
  have aligned := segment.aligned i (steps[i]) (calls[i])
    (List.getElem?_eq_getElem bound) (List.getElem?_eq_getElem inCalls)
  simpa using aligned.1

/-- A segment's completed steps are read off its calls. Witness: the outcomes are those of
the completed steps, with at most one incomplete step at the end.
-/
theorem Segment.completed_eq {ctx : Dict String Json} {steps : List Step}
    {calls : List CapabilityCall} {completed : List TraceEntry}
    (segment : Segment ctx steps calls completed)
    : completed = (List.zipWith completedEntry steps calls).filterMap id := by
  have outcomes : List.zipWith completedEntry steps calls
      = completed.map some ++ List.replicate (calls.length - completed.length) none := by
    refine List.ext_getElem? fun i => ?_
    have called := segment.called
    have atLeast := segment.completed_le
    rw [List.getElem?_zipWith]
    by_cases inCalls : i < calls.length
    · have atStep : steps[i]? = some steps[i] := List.getElem?_eq_getElem (by omega)
      have atCall : calls[i]? = some calls[i] := List.getElem?_eq_getElem inCalls
      have outcome := (segment.aligned i _ _ atStep atCall).2.2
      rw [atStep, atCall]
      simp only [← outcome]
      by_cases inCompleted : i < completed.length
      · simp [List.getElem?_append_left, inCompleted]
      · rw [List.getElem?_append_right (by simpa using Nat.le_of_not_lt inCompleted),
          List.getElem?_replicate, if_pos (by simp; omega),
          List.getElem?_eq_none (by omega)]
    · have pastCalls : calls[i]? = none := List.getElem?_eq_none (by omega)
      have pastOutcomes : (completed.map some
          ++ List.replicate (calls.length - completed.length) none)[i]? = none :=
        List.getElem?_eq_none (by rw [List.length_append, List.length_map,
          List.length_replicate]; omega)
      rw [pastCalls, pastOutcomes]
      cases steps[i]? <;> rfl
  simp [outcomes, List.filterMap_append]

/-- Logging the calls does not change what a run does. Witness: induction on the steps. -/
theorem runSteps_logged {σ : Type} (invoke : CapabilityInvoke (StateM σ))
    (composite : Composite) (steps : List Step) (ctx : Dict String Json)
    (trace : List TraceEntry) (world : σ) (log : List CapabilityCall)
    : let observed :=
        Composer.runSteps (logged invoke) composite steps ctx trace (world, log)
      (observed.1, observed.2.1) = Composer.runSteps invoke composite steps ctx trace world := by
  induction steps generalizing ctx trace world log with
  | nil =>
      rw [Composer.runSteps_nil, Composer.runSteps_nil]
      cases resolveRefs ctx composite.output <;> rfl
  | cons step rest ih =>
      cases resolved : resolveRefs ctx step.inputs with
      | error err =>
          rw [Composer.runSteps_unresolved _ _ _ _ resolved,
            Composer.runSteps_unresolved _ _ _ _ resolved]
          rfl
      | ok stepInput =>
          rw [Composer.runSteps_resolved _ _ _ _ resolved,
            Composer.runSteps_resolved _ _ _ _ resolved]
          simp only [bind, StateT.bind, logged]
          cases invoke step.capability stepInput step.vendor step.version world with
          | mk reply world' =>
              cases outcome : stepOutcome reply with
              | error err => simp [outcome, pure, StateT.pure]
              | ok output => simpa [outcome] using ih _ _ world' _

/-- A whole run makes the calls of one segment of its pipeline, reports the completed steps
as the trace and ends accordingly.
-/
theorem run_segment {σ : Type} (invoke : CapabilityInvoke (StateM σ))
    (composite : Composite) (callerInput : Dict String Json) (world : σ)
    : let observed := Composer.run (logged invoke) composite callerInput (world, [])
      Segment (contextAfter callerInput []) composite.steps observed.2.2 observed.1.trace
      ∧ Ending composite (contextAfter callerInput []) composite.steps observed.2.2
          observed.1.trace observed.1.trace observed.1 := by
  obtain ⟨calls, completed, logs, segment, ending⟩ :=
    runSteps_segment invoke composite composite.steps (contextAfter callerInput []) [] world []
  have traced : (Composer.run (logged invoke) composite callerInput (world, [])).1.trace
      = completed := ending.2.1
  have called : (Composer.run (logged invoke) composite callerInput (world, [])).2.2 = calls :=
    logs
  simp only [called, traced]
  exact ⟨segment, ending⟩

/-- Every run of the composer, against any invoker that returns, reports as documented.
Witness: the segment of the whole pipeline.
-/
theorem Composer.run_report {σ : Type} (invoke : CapabilityInvoke (StateM σ))
    (composite : Composite) (callerInput : Dict String Json) (world : σ)
    : let observed := Composer.run (logged invoke) composite callerInput (world, [])
      RunReport composite callerInput observed.2.2 observed.1
      ∧ (observed.1, observed.2.1) = Composer.run invoke composite callerInput world := by
  refine ⟨?_, runSteps_logged invoke composite composite.steps _ [] world []⟩
  obtain ⟨segment, -, -, ends⟩ := run_segment invoke composite callerInput world
  refine {
    prefixCalled := segment.forall₂_targets
    inputsResolved := ?_
    traceCompleted := segment.completed_eq
    errorNone := ?_
    outputResolved := ?_
    errorSome := ?_ }
  · intro i step call atStep atCall
    have aligned := segment.aligned i step call atStep atCall
    have inCalls := (List.getElem?_eq_some_iff.mp atCall).1
    have atMost := segment.calls_le
    exact ⟨by omega, aligned.2.1⟩
  · rcases ends with ⟨noError, all, resolved⟩ | ⟨anError, -, failure⟩
    · exact iff_of_true noError ⟨all, Dict.mapM_isOk_iff.mp ⟨_, resolved⟩⟩
    · exact iff_of_false anError (failure.not_completed segment.called)
  · intro noError
    rcases ends with ⟨-, -, resolved⟩ | ⟨anError, -⟩
    · exact ⟨Dict.keys_of_mapM resolved, fun key ref member => Dict.get?_of_mapM resolved member⟩
    · exact absurd noError anError
  · intro anError
    rcases ends with ⟨noError, -⟩ | ⟨-, emptied, -⟩
    · exact absurd noError anError
    · exact ⟨emptied, segment.calls_le⟩

end AgentFeatures
