import AgentFeatures.Composer.Report

/-! Where references start, and what a growing run context answers them. -/

namespace AgentFeatures

open Library

/-- The entry of the run context a reference starts from. -/
def refHead (ref : String) : String := (refParts ref).headD ""

/-- The field names a reference follows from there. -/
def refPath (ref : String) : List String := (refParts ref).tail

/-- Splitting always leaves a first part. -/
theorem refParts_eq (ref : String) : refParts ref = refHead ref :: refPath ref := by
  have parts : refParts ref ≠ [] := by simp [refParts, List.splitOn_ne_nil]
  cases split : refParts ref with
  | nil => exact absurd split parts
  | cons head path => simp [refHead, refPath, split]

/-- A reference resolves to what its path leads to from the context entry of its head. -/
theorem resolveRef_eq_ok_iff {ctx : Dict String Json} {ref : String} {value : Json}
    : resolveRef ctx ref = .ok value
      ↔ ∃ start, ctx.get? (refHead ref) = some start ∧ walk (refPath ref) start = some value := by
  have read : walk (refParts ref) (.ofDict ctx)
      = (ctx.get? (refHead ref)).bind (walk (refPath ref)) := by
    rw [refParts_eq]
    rfl
  unfold resolveRef
  rw [read]
  cases ctx.get? (refHead ref) with
  | none => simp
  | some start => cases reached : walk (refPath ref) start <;> simp [reached]

/-- A reference that resolves starts at an entry of the context. -/
theorem refHead_mem_of_resolveRef {ctx : Dict String Json} {ref : String} {value : Json}
    (resolved : resolveRef ctx ref = .ok value)
    : refHead ref ∈ ctx.keys := by
  obtain ⟨start, found, -⟩ := resolveRef_eq_ok_iff.mp resolved
  exact Dict.isSome_get?_iff.mp (by simp [found])

/-- The context's entries are the first ones and the completed steps. Witness: induction on
the completed steps.
-/
theorem mem_keys_extendContext {ctx : Dict String Json} {completed : List TraceEntry}
    {name : String}
    : name ∈ (extendContext ctx completed).keys
      ↔ name ∈ ctx.keys ∨ name ∈ completed.map TraceEntry.step := by
  induction completed generalizing ctx with
  | nil => simp [extendContext]
  | cons entry rest ih =>
      change name ∈ (extendContext (ctx.set entry.step (.ofDict entry.output)) rest).keys ↔ _
      rw [ih, Dict.mem_keys_set, List.map_cons, List.mem_cons, or_assoc]

/-- Completed steps with other names leave an entry alone. Witness: induction on the
completed steps.
-/
theorem get?_extendContext_of_not_mem {ctx : Dict String Json} {completed : List TraceEntry}
    {name : String} (absent : name ∉ completed.map TraceEntry.step)
    : (extendContext ctx completed).get? name = ctx.get? name := by
  induction completed generalizing ctx with
  | nil => rfl
  | cons entry rest ih =>
      simp only [List.map_cons, List.mem_cons, not_or] at absent
      exact (ih absent.2).trans (Dict.get?_set_ne ctx _ absent.1)

/-- Under distinct step names the context answers each completed step with its output.
Witness: induction on the completed steps.
-/
theorem get?_extendContext_of_mem {ctx : Dict String Json} {completed : List TraceEntry}
    {entry : TraceEntry} (distinct : (completed.map TraceEntry.step).Nodup)
    (member : entry ∈ completed)
    : (extendContext ctx completed).get? entry.step = some (.ofDict entry.output) := by
  induction completed generalizing ctx with
  | nil => exact absurd member List.not_mem_nil
  | cons first rest ih =>
      obtain ⟨absent, restDistinct⟩ := List.nodup_cons.mp distinct
      rcases List.mem_cons.mp member with rfl | later
      · exact (get?_extendContext_of_not_mem absent).trans (Dict.get?_set_self ..)
      · exact ih restDistinct later

/-- The context of the caller's input holds it and the completed steps. -/
theorem mem_keys_contextAfter {callerInput : Dict String Json} {completed : List TraceEntry}
    {name : String}
    : name ∈ (contextAfter callerInput completed).keys
      ↔ name = "input" ∨ name ∈ completed.map TraceEntry.step := by
  rw [contextAfter, mem_keys_extendContext, Dict.mem_keys_set]
  exact or_congr_left (or_iff_right List.not_mem_nil)

/-- Every reference of the steps starts at one of `names` or at an earlier step. -/
def Known : List String → List Step → Prop
  | _, [] => True
  | names, step :: rest =>
      (∀ entry ∈ step.inputs.entries, refHead entry.2 ∈ names)
      ∧ Known (names ++ [step.name]) rest

/-- The names a step may refer to, by position. Witness: induction on the steps. -/
theorem known_iff {names : List String} {steps : List Step}
    : Known names steps
      ↔ ∀ i step,
          steps[i]? = some step
          → ∀ entry ∈ step.inputs.entries,
              refHead entry.2 ∈ names ++ (steps.take i).map Step.name := by
  induction steps generalizing names with
  | nil => simp [Known]
  | cons first rest ih =>
      rw [Known, ih]
      constructor
      · rintro ⟨atFirst, later⟩ i step atStep entry member
        cases i with
        | zero =>
            cases atStep
            simpa using atFirst entry member
        | succ i => simpa using later i step atStep entry member
      · intro all
        refine ⟨fun entry member => by simpa using all 0 first rfl entry member, ?_⟩
        intro i step atStep entry member
        simpa using all (i + 1) step atStep entry member

/-- The completed steps of a segment carry the names of its first steps. Witness: position
by position.
-/
theorem Segment.names {ctx : Dict String Json} {steps : List Step}
    {calls : List CapabilityCall} {completed : List TraceEntry}
    (segment : Segment ctx steps calls completed)
    : completed.map TraceEntry.step = (steps.take completed.length).map Step.name := by
  have atLeast := segment.completed_le
  have called := segment.called
  refine List.ext_getElem (by simp; omega) ?_
  intro i inCompleted inSteps
  simp only [List.length_map] at inCompleted
  have atStep : steps[i]? = some steps[i] := List.getElem?_eq_getElem (by omega)
  have atCall : calls[i]? = some calls[i] := List.getElem?_eq_getElem (by omega)
  have outcome := (segment.aligned i _ _ atStep atCall).2.2
  rw [List.getElem?_eq_getElem inCompleted] at outcome
  unfold completedEntry at outcome
  split at outcome
  · next output _ =>
      simp only [List.getElem_map, List.getElem_take, Option.some.inj outcome]
  · cases outcome

/-- The references of the steps called in a segment all start at something that is there.
Witness: they resolved.
-/
theorem Segment.known {ctx : Dict String Json} {steps : List Step}
    {calls : List CapabilityCall} {completed : List TraceEntry}
    (segment : Segment ctx steps calls completed)
    : Known ctx.keys (steps.take calls.length) := by
  rw [known_iff]
  intro i step atStep entry member
  obtain ⟨atStep, inCalls⟩ : steps[i]? = some step ∧ i < calls.length := by
    rw [List.getElem?_take] at atStep
    split at atStep
    · next bound => exact ⟨atStep, bound⟩
    · cases atStep
  have bound := segment.calls_le
  have aligned := segment.aligned i step _ atStep (List.getElem?_eq_getElem inCalls)
  obtain ⟨value, resolved⟩ := Dict.mapM_isOk_iff.mp ⟨_, aligned.2.1⟩ entry member
  have here := refHead_mem_of_resolveRef resolved
  rw [mem_keys_extendContext, List.map_take, segment.names, ← List.map_take,
    List.take_take, Nat.min_eq_left (by omega)] at here
  rw [List.take_take, Nat.min_eq_left (by omega)]
  exact List.mem_append.mpr here

end AgentFeatures
