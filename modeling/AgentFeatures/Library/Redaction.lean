import AgentFeatures.Library.Contract

/-! Coroutines that go on alike after replies that an observer may not tell apart, and the
noninterference of the runs made of them.
-/

namespace Library

namespace Coroutine

variable {S W E Q R X α β : Type}

/-- A reply and its redacted form lead to the same rest, after every call. -/
def Blind (redact : R → R) : Coroutine S W E Q R X α → Prop
  | done _ => True
  | raise _ => True
  | read next => ∀ state, (next state).Blind redact
  | write _ next => next.Blind redact
  | emit _ next => next.Blind redact
  | call _ next => ∀ reply, next (redact reply) = next reply ∧ (next reply).Blind redact

/-- A sequence is blind when both parts are, by coroutine induction. -/
theorem Blind.bind {redact : R → R} {program : Coroutine S W E Q R X α}
    {k : α → Coroutine S W E Q R X β} (first : program.Blind redact)
    (later : ∀ value, (k value).Blind redact)
    : (program >>= k).Blind redact := by
  induction program with
  | done value => exact later value
  | raise fault => trivial
  | read next ih => exact fun state => ih state (first state)
  | write change next ih => exact ih first
  | emit event next ih => exact ih first
  | call query next ih =>
      intro reply
      obtain ⟨same, rest⟩ := first reply
      exact ⟨congrArg (fun program => program >>= k) same, ih reply rest⟩

/-- Mapping the result keeps blindness. -/
theorem Blind.map {redact : R → R} {program : Coroutine S W E Q R X α} (f : α → β)
    (blind : program.Blind redact)
    : (f <$> program).Blind redact :=
  blind.bind fun _ => True.intro

/-- Running to the next await keeps blindness, by coroutine induction. -/
theorem Blind.advance {redact : R → R} {program : Coroutine S W E Q R X α}
    (blind : program.Blind redact) (apply : W → S → S) (state : S)
    : (program.advance apply state).1.Blind redact := by
  induction program generalizing state with
  | done value => trivial
  | raise fault => trivial
  | read next ih => exact ih state (blind state) state
  | write change next ih => exact ih blind (apply change state)
  | emit event next _ => exact blind
  | call query next _ => exact blind

end Coroutine

/-- The action with its reply redacted. -/
def Action.redacted {L R : Type} (redact : R → R) : Action L R → Action L R
  | arrive label => arrive label
  | resume task => resume task
  | reply task answer => reply task (redact answer)

/-- The pool with the replies of its history redacted. -/
def Pool.redacted {L S W E Q R X α : Type} (redact : R → R) (pool : Pool L S W E Q R X α)
    : Pool L S W E Q R X α :=
  { pool with
    history := pool.history.map fun answered =>
      (answered.1, answered.2.1, redact answered.2.2) }

namespace System

variable {L S W E Q R X α : Type} {system : System L S W E Q R X α} {redact : R → R}

/-- A redacted step does to a redacted pool what the step does to the pool, up to redaction.
Witness: the three shapes of a step; a blind task goes on alike.
-/
theorem step?_redacted {pool : Pool L S W E Q R X α}
    (tasks : TasksSatisfy (fun _ task => task.Blind redact) pool) (action : Action L R)
    : system.step? (action.redacted redact) (pool.redacted redact)
      = (system.step? action pool).map (Pool.redacted redact) := by
  cases action with
  | arrive label => simp [step?, Action.redacted, Pool.redacted, launch]
  | resume index =>
      simp only [step?, Action.redacted, Pool.redacted]
      split <;> simp [launch, Pool.redacted]
  | reply index answer =>
      simp only [step?, Action.redacted, Pool.redacted]
      cases found : pool.tasks[index]? with
      | none => rfl
      | some entry =>
          obtain ⟨label, task⟩ := entry
          have blind := tasks _ (List.mem_of_getElem? found)
          cases task with
          | call query next =>
              have same := (blind answer).1
              simp [launch, Pool.redacted, same]
          | _ => rfl

/-- A step of blind tasks leaves blind tasks. -/
theorem step?_blind (served : ∀ label, (system.serve label).Blind redact)
    {pool next : Pool L S W E Q R X α}
    (tasks : TasksSatisfy (fun _ task => task.Blind redact) pool) {action : Action L R}
    (taken : system.step? action pool = some next)
    : TasksSatisfy (fun _ task => task.Blind redact) next := by
  rcases step?_cases taken with
    ⟨label, rfl, rfl⟩ | ⟨index, label, event, rest, rfl, found, rfl⟩
      | ⟨index, label, query, rest, answer, rfl, found, rfl⟩
  · exact tasks.launch ((served label).advance _ _) fun _ _ => mem_append_task
  · have blind : rest.Blind redact := tasks _ (List.mem_of_getElem? found)
    exact tasks.launch (blind.advance _ _) fun _ _ => mem_set_task
  · have blind := (tasks _ (List.mem_of_getElem? found) answer).2
    exact tasks.launch (blind.advance _ _) fun _ _ => mem_set_task

/-- Redacting every reply of a run changes nothing but the replies in its history. Witness:
induction on the actions.
-/
theorem play_redacted (served : ∀ label, (system.serve label).Blind redact)
    (actions : List (Action L R)) {pool : Pool L S W E Q R X α}
    (tasks : TasksSatisfy (fun _ task => task.Blind redact) pool)
    : system.play (actions.map (Action.redacted redact)) (pool.redacted redact)
      = (system.play actions pool).map (Pool.redacted redact) := by
  induction actions generalizing pool with
  | nil => rfl
  | cons action rest ih =>
      simp only [List.map_cons, play, step?_redacted tasks]
      cases taken : system.step? action pool with
      | none => rfl
      | some next => exact ih (step?_blind served tasks taken)

/-- Runs of blind tasks whose actions differ in what is redacted only lead to pools that do.
Witness: both are the redacted run.
-/
theorem play_congr_redacted (served : ∀ label, (system.serve label).Blind redact)
    {actions others : List (Action L R)}
    (same : actions.map (Action.redacted redact) = others.map (Action.redacted redact))
    (state : S)
    : (system.play actions (.initial state)).map (Pool.redacted redact)
      = (system.play others (.initial state)).map (Pool.redacted redact) := by
  have none : TasksSatisfy (fun _ task => task.Blind redact)
      (Pool.initial state : Pool L S W E Q R X α) :=
    fun _ member => absurd member List.not_mem_nil
  rw [← play_redacted served actions none, same, play_redacted served others none]

end System

end Library
