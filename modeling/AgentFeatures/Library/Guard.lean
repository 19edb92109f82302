import AgentFeatures.Library.Contract

/-! Calls that are guarded by the state in which they are made, over interleaved runs. -/

namespace Library

namespace Coroutine

variable {S W E Q R X α β : Type}

/-- Run from the state, the coroutine makes its calls in states that satisfy their guard; it goes
on in any state after an await.
-/
def Guards (apply : W → S → S) (guard : S → Q → Prop) : Coroutine S W E Q R X α → S → Prop
  | done _, _ => True
  | raise _, _ => True
  | read next, state => (next state).Guards apply guard state
  | write change next, state => next.Guards apply guard (apply change state)
  | emit _ next, _ => ∀ state, next.Guards apply guard state
  | call query next, state =>
      guard state query ∧ ∀ reply state, (next reply).Guards apply guard state

variable {apply : W → S → S} {guard : S → Q → Prop}

/-- A read guards the calls that follow in the state it reads. -/
theorem Guards.read {next : S → Coroutine S W E Q R X α} {state : S}
    (guarded : (next state).Guards apply guard state)
    : (Coroutine.read next).Guards apply guard state :=
  guarded

/-- A sequence that starts with a read guards the calls that follow in the state it reads. -/
theorem Guards.read_bind {next : S → Coroutine S W E Q R X α}
    {k : α → Coroutine S W E Q R X β} {state : S}
    (guarded : (next state >>= k).Guards apply guard state)
    : (Coroutine.read next >>= k).Guards apply guard state :=
  guarded

/-- A sequence guards its calls when both parts do, the second in any state, by coroutine
induction. -/
theorem Guards.bind {program : Coroutine S W E Q R X α} {k : α → Coroutine S W E Q R X β}
    {state : S} (first : program.Guards apply guard state)
    (later : ∀ value state, (k value).Guards apply guard state)
    : (program >>= k).Guards apply guard state := by
  induction program generalizing state with
  | done value => exact later value state
  | raise fault => trivial
  | read next ih => exact ih state first
  | write change next ih => exact ih first
  | emit event next ih => exact fun state => ih (first state)
  | call query next ih => exact ⟨first.1, fun reply state => ih reply (first.2 reply state)⟩

/-- Mapping the result guards the same calls. -/
theorem Guards.map (f : α → β) {program : Coroutine S W E Q R X α} {state : S}
    (guarded : program.Guards apply guard state)
    : (f <$> program).Guards apply guard state :=
  guarded.bind fun _ _ => trivial

/-- Calls that satisfy the guard in every state are guarded, by coroutine induction. -/
theorem AllCalls.guards {P : Q → Prop} {program : Coroutine S W E Q R X α}
    (safe : program.AllCalls P) (guards : ∀ state query, P query → guard state query)
    (state : S)
    : program.Guards apply guard state := by
  induction program generalizing state with
  | done value => trivial
  | raise fault => trivial
  | read next ih => exact ih state (safe state) state
  | write change next ih => exact ih safe (apply change state)
  | emit event next ih => exact ih safe
  | call query next ih =>
      exact ⟨guards state query safe.1, fun reply => ih reply (safe.2 reply)⟩

/-- Up to the next await the guards are kept, in the state reached there, by coroutine
induction. -/
theorem Guards.advance {program : Coroutine S W E Q R X α} {state : S}
    (guarded : program.Guards apply guard state)
    : (program.advance apply state).1.Guards apply guard (program.advance apply state).2 := by
  induction program generalizing state with
  | read next ih => exact ih state guarded
  | write change next ih => exact ih guarded
  | _ => exact guarded

/-- The pending call is guarded. -/
theorem Guards.pendingCall {program : Coroutine S W E Q R X α} {state : S}
    (guarded : program.Guards apply guard state)
    : ∀ query ∈ program.pendingCall, guard state query := by
  intro query pending
  cases program with
  | call asked next =>
      cases List.mem_singleton.mp pending
      exact guarded.1
  | _ => exact absurd pending List.not_mem_nil

end Coroutine

/-- The request that an action lets arrive. -/
def Action.arrival? {L R : Type} : Action L R → Option L
  | arrive label => some label
  | _ => none

/-- The answer that an action brings. -/
def Action.answer? {L R : Type} : Action L R → Option R
  | reply _ answer => some answer
  | _ => none

namespace System

variable {L S W E Q R X α : Type} {system : System L S W E Q R X α} {guard : S → Q → Prop}

/-- The tasks guard their later calls. -/
abbrev Guarded (system : System L S W E Q R X α) (guard : S → Q → Prop)
    (pool : Pool L S W E Q R X α)
    : Prop :=
  TasksSatisfy (fun _ task => ∃ state, task.Guards system.apply guard state) pool

/-- A launched program that guards its calls issues them guarded by the state it leaves. -/
theorem Guarded.launch {pool : Pool L S W E Q R X α} (tasks : Guarded system guard pool)
    {label : L} {program : Coroutine S W E Q R X α}
    (guarded : program.Guards system.apply guard pool.state)
    {place : L × Coroutine S W E Q R X α → List (L × Coroutine S W E Q R X α)}
    {answered : List (L × Q × R)}
    (placed : ∀ task entry, entry ∈ place task → entry ∈ pool.tasks ∨ entry = task)
    : let next := system.launch pool label program place answered
      Guarded system guard next
      ∧ ∃ fresh,
          next.issued = pool.issued ++ fresh ∧ ∀ call ∈ fresh, guard next.state call.2 := by
  have suspended := guarded.advance
  refine ⟨TasksSatisfy.launch tasks ⟨_, suspended⟩ placed, _, rfl, fun call member => ?_⟩
  obtain ⟨query, pending, rfl⟩ := List.mem_map.mp member
  exact suspended.pendingCall query pending

-----------------------------------------------------------------------------------------
-- Answered calls were issued
-----------------------------------------------------------------------------------------

/-- Pending and answered calls are among the issued ones. -/
structure Booked (pool : Pool L S W E Q R X α) : Prop where
  pending : ∀ task ∈ pool.tasks, ∀ query ∈ task.2.pendingCall, (task.1, query) ∈ pool.issued
  answered : ∀ call ∈ pool.history, (call.1, call.2.1) ∈ pool.issued

/-- A launched program books its pending call. -/
theorem Booked.launch {pool : Pool L S W E Q R X α} (booked : Booked pool) {label : L}
    {program : Coroutine S W E Q R X α}
    {place : L × Coroutine S W E Q R X α → List (L × Coroutine S W E Q R X α)}
    {answered : List (L × Q × R)}
    (placed : ∀ task entry, entry ∈ place task → entry ∈ pool.tasks ∨ entry = task)
    (known : ∀ call ∈ answered, (call.1, call.2.1) ∈ pool.issued)
    : Booked (system.launch pool label program place answered) where
  pending := by
    intro task member query pending
    rcases placed _ task member with old | rfl
    · exact List.mem_append_left _ (booked.pending task old query pending)
    · exact List.mem_append_right _ (List.mem_map_of_mem pending)
  answered := by
    intro call member
    rcases List.mem_append.mp member with old | new
    · exact List.mem_append_left _ (booked.answered call old)
    · exact List.mem_append_left _ (known call new)

/-- What a step has answered was issued before it. Witness: the call it answers was pending. -/
theorem Booked.answered_before {pool next : Pool L S W E Q R X α} (booked : Booked pool)
    {action : Action L R} (taken : system.step? action pool = some next)
    : ∀ call ∈ next.history, (call.1, call.2.1) ∈ pool.issued := by
  intro call member
  rcases step?_cases taken with
    ⟨label, rfl, rfl⟩ | ⟨index, label, event, rest, rfl, found, rfl⟩
      | ⟨index, label, query, rest, answer, rfl, found, rfl⟩
  · exact booked.answered call (by simpa [System.launch] using member)
  · exact booked.answered call (by simpa [System.launch] using member)
  · rcases List.mem_append.mp member with old | new
    · exact booked.answered call old
    · cases List.mem_singleton.mp new
      exact booked.pending _ (List.mem_of_getElem? found) query (List.mem_singleton_self query)

/-- Runs keep the books, by run induction. -/
theorem Reaches.booked {state : S} {pool : Pool L S W E Q R X α}
    (run : system.Reaches (.initial state) pool)
    : Booked pool := by
  induction run with
  | refl =>
      exact ⟨fun _ member => absurd member List.not_mem_nil,
        fun _ member => absurd member List.not_mem_nil⟩
  | step _ taken booked =>
      have answered := booked.answered_before taken
      rcases step?_cases taken with
        ⟨label, rfl, rfl⟩ | ⟨index, label, event, rest, rfl, found, rfl⟩
          | ⟨index, label, query, rest, answer, rfl, found, rfl⟩
      · exact booked.launch (fun _ _ => mem_append_task) fun _ none => absurd none List.not_mem_nil
      · exact booked.launch (fun _ _ => mem_set_task) fun _ none => absurd none List.not_mem_nil
      · refine booked.launch (fun _ _ => mem_set_task) fun call only => answered call ?_
        exact List.mem_append_right _ only

/-- Runs keep the arrivals and the answers so far, by run induction. -/
theorem Reaches.prefixes {pool later : Pool L S W E Q R X α} (run : system.Reaches pool later)
    : arrivals pool <+: arrivals later ∧ pool.history <+: later.history := by
  induction run with
  | refl => exact ⟨List.prefix_refl _, List.prefix_refl _⟩
  | step _ taken ih =>
      obtain ⟨arrived, history⟩ := step?_extends taken
      exact ⟨ih.1.trans arrived, ih.2.trans history⟩

/-- A step records the request that it lets arrive and the answer that it brings. -/
theorem step?_records {action : Action L R} {pool next : Pool L S W E Q R X α}
    (taken : system.step? action pool = some next)
    : arrivals next = arrivals pool ++ action.arrival?.toList
      ∧ next.history.map (·.2.2) = pool.history.map (·.2.2) ++ action.answer?.toList := by
  rcases step?_cases taken with
    ⟨label, rfl, rfl⟩ | ⟨index, label, event, rest, rfl, found, rfl⟩
      | ⟨index, label, query, rest, answer, rfl, found, rfl⟩
  · simp [arrivals, System.launch, Action.arrival?, Action.answer?]
  · simp [arrivals, System.launch, Action.arrival?, Action.answer?, arrivals_set found]
  · simp [arrivals, System.launch, Action.arrival?, Action.answer?, arrivals_set found]

/-- Played actions record their requests and answers, by induction on the actions. -/
theorem play_records {actions : List (Action L R)} {pool final : Pool L S W E Q R X α}
    (played : system.play actions pool = some final)
    : arrivals final = arrivals pool ++ actions.filterMap Action.arrival?
      ∧ final.history.map (·.2.2)
        = pool.history.map (·.2.2) ++ actions.filterMap Action.answer? := by
  induction actions generalizing pool with
  | nil =>
      cases played
      simp
  | cons action rest ih =>
      obtain ⟨next, taken, later⟩ := Option.bind_eq_some_iff.mp played
      obtain ⟨arrived, answered⟩ := step?_records taken
      obtain ⟨arrives, answers⟩ := ih later
      rw [arrives, answers, arrived, answered, List.append_assoc, List.append_assoc]
      cases action <;> simp [Action.arrival?, Action.answer?, List.filterMap_cons]

-----------------------------------------------------------------------------------------
-- Runs of guarding requests
-----------------------------------------------------------------------------------------

section Served

variable {admitted : L → Prop} {holds : S → Prop}

/-- A step of guarding tasks issues guarded calls. Witness: the three kinds of steps; what was
suspended guards its calls in any state.
-/
theorem step?_guards
    (served
      : ∀ label state,
          admitted label → holds state → (system.serve label).Guards system.apply guard state)
    {pool next : Pool L S W E Q R X α} (tasks : Guarded system guard pool)
    (here : holds pool.state) {action : Action L R}
    (taken : system.step? action pool = some next)
    (admits : ∀ label ∈ arrivals next, admitted label)
    : Guarded system guard next
      ∧ ∃ fresh,
          next.issued = pool.issued ++ fresh ∧ ∀ call ∈ fresh, guard next.state call.2 := by
  rcases step?_cases taken with
    ⟨label, rfl, rfl⟩ | ⟨index, label, event, rest, rfl, found, rfl⟩
      | ⟨index, label, query, rest, answer, rfl, found, rfl⟩
  · have arrived : admitted label := admits label (by simp [arrivals, System.launch])
    exact tasks.launch (served label pool.state arrived here) fun _ _ => mem_append_task
  · obtain ⟨before, guarded⟩ := tasks _ (List.mem_of_getElem? found)
    exact tasks.launch (guarded pool.state) fun _ _ => mem_set_task
  · obtain ⟨before, guarded⟩ := tasks _ (List.mem_of_getElem? found)
    exact tasks.launch (guarded.2 answer pool.state) fun _ _ => mem_set_task

/-- In every run of admitted requests the tasks guard their later calls. Witness: run
induction.
-/
theorem Reaches.guarded {state : S}
    (served
      : ∀ label state,
          admitted label → holds state → (system.serve label).Guards system.apply guard state)
    (invariant
      : ∀ pool,
          system.Reaches (.initial state) pool
          → (∀ label ∈ arrivals pool, admitted label)
          → holds pool.state)
    {pool : Pool L S W E Q R X α} (run : system.Reaches (.initial state) pool)
    (admits : ∀ label ∈ arrivals pool, admitted label)
    : Guarded system guard pool := by
  induction run with
  | refl => exact fun _ member => absurd member List.not_mem_nil
  | @step action pool next before taken ih =>
      have earlier := fun label member =>
        admits label ((step?_extends taken).1.subset member)
      exact (step?_guards served (ih earlier) (invariant pool before earlier) taken admits).1

/-- What is decided of a guarded call from the calls answered so far holds of all calls of a
run. Witness: run induction; what a step has answered was issued before it.
-/
theorem Reaches.issued_of_guard {state : S} {P : Q → Prop} {relied : L × Q × R → Prop}
    (served
      : ∀ label state,
          admitted label → holds state → (system.serve label).Guards system.apply guard state)
    (invariant
      : ∀ pool,
          system.Reaches (.initial state) pool
          → (∀ label ∈ arrivals pool, admitted label)
          → holds pool.state)
    (decides
      : ∀ pool,
          system.Reaches (.initial state) pool
          → (∀ answered ∈ pool.history, relied answered ∧ P answered.2.1)
          → ∀ query, guard pool.state query → P query)
    {pool : Pool L S W E Q R X α} (run : system.Reaches (.initial state) pool)
    (admits : ∀ label ∈ arrivals pool, admitted label)
    (relies : ∀ answered ∈ pool.history, relied answered)
    : ∀ call ∈ pool.issued, P call.2 := by
  induction run with
  | refl => exact fun _ member => absurd member List.not_mem_nil
  | @step action pool next before taken ih =>
      obtain ⟨arrived, history⟩ := step?_extends taken
      have earlier := fun label member => admits label (arrived.subset member)
      have issued := ih earlier fun answered member => relies answered (history.subset member)
      obtain ⟨-, fresh, extended, guarded⟩ := step?_guards served
        (before.guarded served invariant earlier) (invariant pool before earlier) taken admits
      have decided := decides next (before.step taken) fun answered member =>
        ⟨relies answered member, issued _ (before.booked.answered_before taken answered member)⟩
      intro call member
      rw [extended] at member
      rcases List.mem_append.mp member with old | new
      · exact issued call old
      · exact decided call.2 (guarded call new)

end Served

end System

end Library
