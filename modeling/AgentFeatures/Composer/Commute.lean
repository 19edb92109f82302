import AgentFeatures.Composer.References

/-! Independent adjacent steps of a composite commute. -/

namespace AgentFeatures

open Library

/-- The context answers every name alike. -/
def Agree (ctx other : Dict String Json) : Prop := ∀ name, ctx.get? name = other.get? name

/-- A reference reads only the context entry of its head. -/
theorem resolveRef_congr {ctx other : Dict String Json} {ref : String}
    (same : ctx.get? (refHead ref) = other.get? (refHead ref))
    : resolveRef ctx ref = resolveRef other ref := by
  have read (ctx : Dict String Json)
      : walk (refParts ref) (.ofDict ctx)
        = (ctx.get? (refHead ref)).bind (walk (refPath ref)) := by
    rw [refParts_eq]
    rfl
  rw [resolveRef, resolveRef, read, read, same]

/-- References resolve alike where the entries of their heads agree. -/
theorem resolveRefs_congr {ctx other : Dict String Json} {refs : Dict String String}
    (same : ∀ entry ∈ refs.entries, ctx.get? (refHead entry.2) = other.get? (refHead entry.2))
    : resolveRefs ctx refs = resolveRefs other refs :=
  Dict.mapM_congr fun entry member => resolveRef_congr (same entry member)

/-- Storing a step's output is not seen by references that start elsewhere. -/
theorem resolveRefs_set {ctx : Dict String Json} {refs : Dict String String} {name : String}
    (elsewhere : ∀ entry ∈ refs.entries, refHead entry.2 ≠ name) (value : Json)
    : resolveRefs (ctx.set name value) refs = resolveRefs ctx refs :=
  resolveRefs_congr fun entry member => Dict.get?_set_ne ctx value (elsewhere entry member)

/-- The same output under the same name keeps contexts in agreement. -/
theorem Agree.set {ctx other : Dict String Json} (agree : Agree ctx other) (name : String)
    (value : Json)
    : Agree (ctx.set name value) (other.set name value) := by
  intro entry
  rw [Dict.get?_set, Dict.get?_set, agree entry]

/-- Outputs under different names may be stored in either order. -/
theorem agree_set_set {name other : String} (differ : name ≠ other) (ctx : Dict String Json)
    (value value' : Json)
    : Agree ((ctx.set name value).set other value') ((ctx.set other value').set name value) := by
  intro entry
  simp only [Dict.get?_set]
  by_cases isOther : entry = other
  · have notName : entry ≠ name := fun same => differ (same.symm.trans isOther)
    simp only [isOther, if_true, if_neg (isOther ▸ notName)]
  · simp only [if_neg isOther]

namespace Composer

variable {invoke : CapabilityInvoke Id} {composite other : Composite}

/-- A step that resolves and is answered with an output stores it and goes on. -/
theorem runSteps_completed {step : Step} {ctx stepInput output : Dict String Json}
    (resolved : resolveRefs ctx step.inputs = .ok stepInput)
    (answered
      : stepOutcome (invoke step.capability stepInput step.vendor step.version) = .ok output)
    (rest : List Step) (trace : List TraceEntry)
    : runSteps invoke composite (step :: rest) ctx trace
      = runSteps invoke composite rest (ctx.set step.name (.ofDict output))
          (trace ++ [⟨step.name, step.capability, output⟩]) := by
  have replied : invoke step.capability stepInput step.vendor step.version
      = pure (invoke step.capability stepInput step.vendor step.version) := rfl
  rw [runSteps_resolved invoke composite rest trace resolved, replied, pure_bind, answered]

/-- A step that is not answered with an output ends the run. -/
theorem runSteps_failed {step : Step} {ctx stepInput : Dict String Json} {err : String}
    (resolved : resolveRefs ctx step.inputs = .ok stepInput)
    (answered
      : stepOutcome (invoke step.capability stepInput step.vendor step.version) = .error err)
    (rest : List Step) (trace : List TraceEntry)
    : runSteps invoke composite (step :: rest) ctx trace
      = fail composite trace s!"step '{step.name}': {err}" := by
  have replied : invoke step.capability stepInput step.vendor step.version
      = pure (invoke step.capability stepInput step.vendor step.version) := rfl
  rw [runSteps_resolved invoke composite rest trace resolved, replied, pure_bind, answered]
  rfl

/-- A step of a run without an error resolves and is answered with an output. -/
theorem exists_completed {step : Step} {rest : List Step} {ctx : Dict String Json}
    {trace : List TraceEntry}
    (completes : (runSteps invoke composite (step :: rest) ctx trace).error = none)
    : ∃ stepInput output,
        resolveRefs ctx step.inputs = .ok stepInput
        ∧ stepOutcome (invoke step.capability stepInput step.vendor step.version)
          = .ok output := by
  cases resolved : resolveRefs ctx step.inputs with
  | error err =>
      rw [runSteps_unresolved invoke composite rest trace resolved] at completes
      cases completes
  | ok stepInput =>
      cases answered : stepOutcome (invoke step.capability stepInput step.vendor step.version) with
      | error err =>
          rw [runSteps_failed resolved answered] at completes
          cases completes
      | ok output => exact ⟨stepInput, output, rfl, answered⟩

/-- Two results with one outcome, whose traces end alike. -/
structure SameOutcome (left right : CompositeResult) (trace trace' : List TraceEntry) : Prop where
  composite : right.composite = left.composite
  output : right.output = left.output
  error : right.error = left.error
  traces : ∃ later, left.trace = trace ++ later ∧ right.trace = trace' ++ later

/-- Steps run alike in contexts that agree. Witness: induction on the steps; each one reads the
same entries and stores the same output.
-/
theorem runSteps_congr (name : other.name = composite.name)
    (output : other.output = composite.output) (steps : List Step)
    {ctx ctx' : Dict String Json} (agree : Agree ctx ctx') (trace trace' : List TraceEntry)
    : SameOutcome (runSteps invoke composite steps ctx trace)
        (runSteps invoke other steps ctx' trace') trace trace' := by
  induction steps generalizing ctx ctx' trace trace' with
  | nil =>
      rw [runSteps_nil, runSteps_nil, output,
        ← resolveRefs_congr fun entry _ => agree (refHead entry.2)]
      cases resolveRefs ctx composite.output with
      | error err => exact ⟨name, rfl, rfl, [], by simp [fail, pure], by simp [fail, pure]⟩
      | ok result => exact ⟨name, rfl, rfl, [], by simp [pure], by simp [pure]⟩
  | cons step rest ih =>
      have same : resolveRefs ctx' step.inputs = resolveRefs ctx step.inputs :=
        (resolveRefs_congr fun entry _ => agree (refHead entry.2)).symm
      cases resolved : resolveRefs ctx step.inputs with
      | error err =>
          rw [runSteps_unresolved invoke composite rest trace resolved,
            runSteps_unresolved invoke other rest trace' (same.trans resolved)]
          exact ⟨name, rfl, rfl, [], by simp [fail, pure], by simp [fail, pure]⟩
      | ok stepInput =>
          cases answered
              : stepOutcome (invoke step.capability stepInput step.vendor step.version) with
          | error err =>
              rw [runSteps_failed resolved answered,
                runSteps_failed (same.trans resolved) answered]
              exact ⟨name, rfl, rfl, [], by simp [fail], by simp [fail]⟩
          | ok result =>
              rw [runSteps_completed resolved answered,
                runSteps_completed (same.trans resolved) answered]
              obtain ⟨named, outputs, errors, later, left, right⟩ :=
                ih (agree.set step.name (.ofDict result))
                  (trace ++ [⟨step.name, step.capability, result⟩])
                  (trace' ++ [⟨step.name, step.capability, result⟩])
              exact ⟨named, outputs, errors, ⟨step.name, step.capability, result⟩ :: later,
                by simpa using left, by simpa using right⟩

/-- Swapping two independent steps of a run without an error changes the order of their two trace
entries only. Witness: induction on the steps before them; neither step sees the other's output,
and the contexts after both agree.
-/
theorem runSteps_swap (name : other.name = composite.name)
    (output : other.output = composite.output) {a b : Step} (differ : a.name ≠ b.name)
    (independent : ∀ entry ∈ b.inputs.entries, refHead entry.2 ≠ a.name)
    (independent' : ∀ entry ∈ a.inputs.entries, refHead entry.2 ≠ b.name)
    (before after : List Step) {ctx : Dict String Json} {trace : List TraceEntry}
    (completes : (runSteps invoke composite (before ++ a :: b :: after) ctx trace).error = none)
    : let result := runSteps invoke composite (before ++ a :: b :: after) ctx trace
      let swapped := runSteps invoke other (before ++ b :: a :: after) ctx trace
      swapped.composite = result.composite
      ∧ swapped.output = result.output
      ∧ swapped.error = none
      ∧ ∃ earlier first second later,
          earlier.length = before.length
          ∧ result.trace = trace ++ (earlier ++ first :: second :: later)
          ∧ swapped.trace = trace ++ (earlier ++ second :: first :: later) := by
  induction before generalizing ctx trace with
  | nil =>
      simp only [List.nil_append] at completes ⊢
      obtain ⟨inputA, outputA, resolvedA, answeredA⟩ := exists_completed completes
      rw [runSteps_completed resolvedA answeredA] at completes ⊢
      obtain ⟨inputB, outputB, resolvedB, answeredB⟩ := exists_completed completes
      rw [runSteps_completed resolvedB answeredB] at completes ⊢
      rw [resolveRefs_set independent] at resolvedB
      have resolvedA' := (resolveRefs_set independent' (.ofDict outputB)).trans resolvedA
      rw [runSteps_completed resolvedB answeredB, runSteps_completed resolvedA' answeredA]
      have agree := agree_set_set differ ctx (.ofDict outputA) (.ofDict outputB)
      obtain ⟨named, outputs, errors, later, left, right⟩ := runSteps_congr name output after agree
        (trace ++ [⟨a.name, a.capability, outputA⟩] ++ [⟨b.name, b.capability, outputB⟩])
        (trace ++ [⟨b.name, b.capability, outputB⟩] ++ [⟨a.name, a.capability, outputA⟩])
      exact ⟨named, outputs, errors.trans completes, [], _, _, later, rfl,
        by simpa using left, by simpa using right⟩
  | cons step rest ih =>
      simp only [List.cons_append] at completes ⊢
      obtain ⟨stepInput, stepOutput, resolved, answered⟩ := exists_completed completes
      rw [runSteps_completed resolved answered] at completes ⊢
      rw [runSteps_completed resolved answered]
      obtain ⟨named, outputs, errors, earlier, first, second, later, size, left, right⟩ :=
        ih completes
      exact ⟨named, outputs, errors, ⟨step.name, step.capability, stepOutput⟩ :: earlier, first,
        second, later, by simpa using size, by simpa using left, by simpa using right⟩

end Composer

/-- Two adjacent steps that have different names and do not refer to each other commute: when a
run on a pure invoker completes, so does the run of the composite with the steps swapped, with the
same output and the same trace up to that swap.
-/
theorem run_swap (invoke : CapabilityInvoke Id) (composite : Composite)
    (callerInput : Dict String Json) {before after : List Step} {a b : Step}
    (steps : composite.steps = before ++ a :: b :: after) (differ : a.name ≠ b.name)
    (independent : ∀ entry ∈ b.inputs.entries, refHead entry.2 ≠ a.name)
    (independent' : ∀ entry ∈ a.inputs.entries, refHead entry.2 ≠ b.name)
    (completes : (Composer.run invoke composite callerInput).error = none)
    : let result := Composer.run invoke composite callerInput
      let swapped :=
        Composer.run invoke { composite with steps := before ++ b :: a :: after } callerInput
      swapped.error = none
      ∧ swapped.composite = result.composite
      ∧ swapped.output = result.output
      ∧ ∃ earlier first second later,
          earlier.length = before.length
          ∧ result.trace = earlier ++ first :: second :: later
          ∧ swapped.trace = earlier ++ second :: first :: later := by
  unfold Composer.run at completes ⊢
  rw [steps] at completes ⊢
  obtain ⟨named, outputs, errors, rest⟩ :=
    @Composer.runSteps_swap invoke composite { composite with steps := before ++ b :: a :: after }
      rfl rfl a b differ independent independent' before after _ [] completes
  exact ⟨errors, named, outputs, rest⟩

/-- Two steps that read the caller's input only. -/
def twoReaders : Composite where
  name := "readers"
  capability := "readers"
  steps :=
    [{ name := "a", capability := "greet", inputs := Dict.ofList [("name", "input.name")] },
     { name := "b", capability := "count", inputs := Dict.ofList [("text", "input.name")] }]
  output := Dict.ofList [("greeting", "a.name"), ("count", "b.text")]
  defaultCapability := id

/-- The two readers also complete in the other order, on an invoker that answers its input. -/
theorem run_swap_twoReaders
    : (Composer.run (m := Id) (fun _ input _ _ => (some input, none))
        { twoReaders with steps := twoReaders.steps.reverse }
        (Dict.ofList [("name", .str "Ada")])).error
      = none :=
  (@run_swap (fun _ input _ _ => (some input, none)) twoReaders
    (Dict.ofList [("name", .str "Ada")]) [] [] _ _ rfl (by decide) (by decide +kernel)
    (by decide +kernel) (by decide +kernel)).1

end AgentFeatures
