import Mathlib

/-! Deterministic transition systems: runs, and properties that hold throughout a run. -/

namespace Library

namespace Transitions

variable {S A : Type} (step : S → A → S)

/-- The state after some actions. -/
def run (state : S) (actions : List A) : S := actions.foldl step state

/-- Every state of the run has the property, the first and the last one included. -/
def Always (P : S → Prop) : S → List A → Prop
  | state, [] => P state
  | state, action :: rest => P state ∧ Always P (step state action) rest

/-- Every action meets the condition in the state in which it happens. -/
def Throughout (Q : S → A → Prop) : S → List A → Prop
  | _, [] => True
  | state, action :: rest => Q state action ∧ Throughout Q (step state action) rest

variable {step}

/-- What every step preserves holds after every run. Witness: induction on the actions. -/
theorem run_invariant {P : S → Prop} (preserved : ∀ state action, P state → P (step state action))
    {state : S} (first : P state) (actions : List A)
    : P (run step state actions) := by
  induction actions generalizing state with
  | nil => exact first
  | cons action rest ih => exact ih (preserved state action first)

/-- What every admitted step preserves holds after every run of them. Witness: induction on the
actions.
-/
theorem run_invariant_of {P : S → Prop} {Q : A → Prop}
    (preserved : ∀ state action, Q action → P state → P (step state action)) {state : S}
    (first : P state) {actions : List A} (all : ∀ action ∈ actions, Q action)
    : P (run step state actions) := by
  induction actions generalizing state with
  | nil => exact first
  | cons action rest ih =>
      exact ih (preserved state action (all action List.mem_cons_self) first)
        fun later member => all later (List.mem_cons_of_mem _ member)

/-- When a step keeps the property exactly under a condition, a run keeps it throughout exactly
when all its actions meet the condition. Witness: induction on the actions.
-/
theorem always_iff_throughout {P : S → Prop} {Q : S → A → Prop}
    (exact_step : ∀ state action, P state → (P (step state action) ↔ Q state action))
    {state : S} (first : P state) (actions : List A)
    : Always step P state actions ↔ Throughout step Q state actions := by
  induction actions generalizing state with
  | nil => exact iff_of_true first trivial
  | cons action rest ih =>
      simp only [Always, Throughout, first, true_and]
      constructor
      · intro later
        have next : P (step state action) := by
          cases rest with
          | nil => exact later
          | cons other others => exact later.1
        exact ⟨(exact_step state action first).mp next, (ih next).mp later⟩
      · intro both
        obtain ⟨here, later⟩ := both
        exact (ih ((exact_step state action first).mpr here)).mpr later

/-- A part that other actions leave alone comes out the same of two runs with the same actions of
its own. Witness: each run is, for the part, the run of these actions; induction on the actions.
-/
theorem part_run_congr {P : Type} {part : S → P} {own : A → Bool}
    (untouched : ∀ state action, own action = false → part (step state action) = part state)
    (determined
      : ∀ state state' action,
          part state = part state' → part (step state action) = part (step state' action))
    {actions actions' : List A} (same : actions.filter own = actions'.filter own) (state : S)
    : part (run step state actions) = part (run step state actions') := by
  have alone (actions : List A) (state state' : S) (agree : part state = part state')
      : part (run step state actions) = part (run step state' (actions.filter own)) := by
    induction actions generalizing state state' with
    | nil => exact agree
    | cons action rest ih =>
        cases isOwn : own action with
        | true =>
            rw [List.filter_cons_of_pos isOwn]
            exact ih _ _ (determined state state' action agree)
        | false =>
            rw [List.filter_cons_of_neg (by simp [isOwn])]
            exact ih _ _ ((untouched state action isOwn).trans agree)
  rw [alone actions state state rfl, same, ← alone actions' state state rfl]

end Transitions

end Library
