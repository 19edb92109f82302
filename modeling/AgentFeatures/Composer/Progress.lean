import AgentFeatures.Composer.References

/-! Where the references of a run can fail to resolve. -/

namespace AgentFeatures

open Library

/-- The references a run with this trace comes to, each with the context it is resolved in:
those of the completed steps and of the one after them, or else of the output.
-/
inductive Reads (composite : Composite) (callerInput : Dict String Json)
    (trace : List TraceEntry) : Dict String Json → String → Prop
  | step {i : Nat} {step : Step} {entry : String × String}
    (atStep : composite.steps[i]? = some step) (reached : i ≤ trace.length)
    (member : entry ∈ step.inputs.entries)
    : Reads composite callerInput trace (contextAfter callerInput (trace.take i)) entry.2
  | output {entry : String × String} (completed : trace.length = composite.steps.length)
    (member : entry ∈ composite.output.entries)
    : Reads composite callerInput trace (contextAfter callerInput trace) entry.2

/-- A run fails only with a call that did not complete or with a reference it came to. -/
theorem run_failure {σ : Type} (invoke : CapabilityInvoke (StateM σ)) (composite : Composite)
    (callerInput : Dict String Json) (world : σ)
    : let observed := Composer.run (logged invoke) composite callerInput (world, [])
      observed.1.error ≠ none
      → observed.2.2.length = observed.1.trace.length + 1
        ∨ ∃ ctx ref,
            Reads composite callerInput observed.1.trace ctx ref
            ∧ ∀ value, resolveRef ctx ref ≠ .ok value := by
  intro observed anError
  obtain ⟨-, -, -, ends⟩ := run_segment invoke composite callerInput world
  rcases ends with ⟨noError, -⟩ | ⟨-, -, failure⟩
  · exact absurd noError anError
  rcases failure with failed | ⟨step, atStep, entry, member, unresolved⟩
    | ⟨all, entry, member, unresolved⟩
  · exact .inl failed
  · refine .inr ⟨_, entry.2, .step atStep (Nat.le_refl _) member, ?_⟩
    rw [List.take_length]
    exact unresolved
  · exact .inr ⟨_, entry.2, .output all member, unresolved⟩

/-- Resolving the reference fails neither at its step name nor at its input field. -/
def PastStart (ctx : Dict String Json) (ref : String) : Prop :=
  refHead ref ∈ ctx.keys
  ∧ (refHead ref = "input"
      → ∀ field ∈ (refPath ref).head?, (walk ["input", field] (.ofDict ctx)).isSome)

end AgentFeatures
