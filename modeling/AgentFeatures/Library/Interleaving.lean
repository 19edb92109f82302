import AgentFeatures.Library.Coroutine

/-! Interleaved runs of coroutines over one shared state, and the rules for their runs.

Tasks are suspended only at emits and calls; the segment up to the next await is atomic.
-/

namespace Library

namespace Coroutine

variable {S W E Q R X α : Type}

/-- Runs up to the next await point or the end. -/
def advance (apply : W → S → S)
    : Coroutine S W E Q R X α → S → Coroutine S W E Q R X α × S
  | done value, state => (done value, state)
  | raise fault, state => (raise fault, state)
  | read next, state => (next state).advance apply state
  | write change next, state => next.advance apply (apply change state)
  | emit event next, state => (emit event next, state)
  | call query next, state => (call query next, state)

/-- The call a suspended coroutine waits on, if any. -/
def pendingCall : Coroutine S W E Q R X α → List Q
  | call query _ => [query]
  | _ => []

/-- Mapping the result changes nothing before the next await, by coroutine induction. -/
theorem advance_map {β : Type} (apply : W → S → S) (f : α → β)
    (program : Coroutine S W E Q R X α) (state : S)
    : ((f <$> program).advance apply state).1 = f <$> (program.advance apply state).1 := by
  change ((program >>= fun value => done (f value)).advance apply state).1
    = (program.advance apply state).1 >>= fun value => done (f value)
  induction program generalizing state with
  | done value => rfl
  | raise fault => rfl
  | read next ih => exact ih state state
  | write change next ih => exact ih (apply change state)
  | emit event next _ => rfl
  | call query next _ => rfl

/-- Mapping the result keeps the pending call. -/
theorem pendingCall_map {β : Type} (f : α → β) (program : Coroutine S W E Q R X α)
    : (f <$> program).pendingCall = program.pendingCall := by
  cases program <;> rfl

/-- Running to the next await keeps the guarantee on calls, by coroutine induction. -/
theorem AllCalls.advance {P : Q → Prop} {program : Coroutine S W E Q R X α}
    (safe : program.AllCalls P) (apply : W → S → S) (state : S)
    : (program.advance apply state).1.AllCalls P := by
  induction program generalizing state with
  | done value => trivial
  | raise fault => trivial
  | read next ih => exact ih state (safe state) state
  | write change next ih => exact ih safe (apply change state)
  | emit event next _ => exact safe
  | call query next _ => exact safe

/-- The pending call is covered by the guarantee. -/
theorem AllCalls.pendingCall {P : Q → Prop} {program : Coroutine S W E Q R X α}
    (safe : program.AllCalls P)
    : ∀ query ∈ program.pendingCall, P query := by
  cases program with
  | call query next =>
      intro other member
      rw [List.mem_singleton.mp member]
      exact safe.1
  | _ => exact fun _ member => absurd member List.not_mem_nil

/-- Through `view` a write is seen as the record of what is observed of it, if anything. -/
def Observes {T V : Type} (apply : W → S → S) (observe : W → Option V) (view : S → T)
    (record : V → T → T)
    : Prop :=
  ∀ change state,
    view (apply change state)
      = match observe change with
        | none => view state
        | some seen => record seen (view state)

/-- Running to the next await makes exactly the owed writes and owes nothing after them.
Witness: coroutine induction; `view` sees the observed writes only.
-/
theorem Settles.advance {T V : Type} {observe : W → Option V} {settle : Q → R → List V}
    {apply : W → S → S} {view : S → T} {record : V → T → T}
    (seen : Observes apply observe view record)
    {owed : List V} {program : Coroutine S W E Q R X α}
    (disciplined : program.Settles observe settle owed) (state : S)
    : view (program.advance apply state).2
        = owed.foldl (fun seen change => record change seen) (view state)
      ∧ (program.advance apply state).1.Settles observe settle [] := by
  induction program generalizing owed state with
  | done value =>
      cases disciplined
      exact ⟨rfl, rfl⟩
  | raise fault =>
      cases disciplined
      exact ⟨rfl, rfl⟩
  | read next ih => exact ih state (disciplined state) state
  | write change next ih =>
      have step := seen change state
      simp only [Settles] at disciplined
      cases observed : observe change with
      | none =>
          simp only [observed] at disciplined step
          simpa only [Coroutine.advance, step] using ih disciplined (apply change state)
      | some noted =>
          simp only [observed] at disciplined step
          obtain ⟨rest, rfl, tail⟩ := disciplined
          simpa only [Coroutine.advance, List.foldl_cons, step]
            using ih tail (apply change state)
  | emit event next _ =>
      obtain ⟨rfl, tail⟩ := disciplined
      exact ⟨rfl, rfl, tail⟩
  | call query next _ =>
      obtain ⟨rfl, tail⟩ := disciplined
      exact ⟨rfl, rfl, tail⟩

end Coroutine

-----------------------------------------------------------------------------------------
-- Systems of interleaved tasks
-----------------------------------------------------------------------------------------

/-- A server: how writes apply, and the coroutine that serves each labelled request. -/
structure System (L S W E Q R X α : Type) where
  apply : W → S → S
  serve : L → Coroutine S W E Q R X α

/-- The shared state, the tasks in order of arrival, the calls issued and those answered. -/
structure Pool (L S W E Q R X α : Type) where
  state : S
  tasks : List (L × Coroutine S W E Q R X α)
  issued : List (L × Q)
  history : List (L × Q × R)

/-- What may happen next: a request arrives, an emitted event is consumed, a call is
answered. Tasks are named by their place in the order of arrival.
-/
inductive Action (L R : Type) where
  | arrive (label : L)
  | resume (task : Nat)
  | reply (task : Nat) (answer : R)

/-- A pool before any request. -/
def Pool.initial {L S W E Q R X α : Type} (state : S) : Pool L S W E Q R X α :=
  ⟨state, [], [], []⟩

namespace System

open Coroutine (AllCalls Observes Settles)

variable {L S W E Q R X α : Type}

/-- Runs `program` to its next await and puts the suspended task at its place. -/
def launch (system : System L S W E Q R X α) (pool : Pool L S W E Q R X α) (label : L)
    (program : Coroutine S W E Q R X α)
    (place
      : L × Coroutine S W E Q R X α → List (L × Coroutine S W E Q R X α))
    (answered : List (L × Q × R))
    : Pool L S W E Q R X α :=
  let suspended := program.advance system.apply pool.state
  { state := suspended.2
    tasks := place (label, suspended.1)
    issued := pool.issued ++ suspended.1.pendingCall.map (fun query => (label, query))
    history := pool.history ++ answered }

/-- One step; `none` when the action names a task that does not wait for it. -/
def step? (system : System L S W E Q R X α)
    : Action L R → Pool L S W E Q R X α → Option (Pool L S W E Q R X α)
  | .arrive label, pool =>
      some (system.launch pool label (system.serve label) (fun task => pool.tasks ++ [task]) [])
  | .resume index, pool =>
      match pool.tasks[index]? with
      | some (label, .emit _ next) =>
          some (system.launch pool label next (pool.tasks.set index) [])
      | _ => none
  | .reply index answer, pool =>
      match pool.tasks[index]? with
      | some (label, .call query next) =>
          some (system.launch pool label (next answer) (pool.tasks.set index)
            [(label, query, answer)])
      | _ => none

/-- Everything a step can do: run one program that is served, was emitting, or was waiting
for the answer that arrived.
-/
theorem step?_cases {system : System L S W E Q R X α} {action : Action L R}
    {pool next : Pool L S W E Q R X α} (h : system.step? action pool = some next)
    : (∃ label,
        action = .arrive label
        ∧ next
          = system.launch pool label (system.serve label)
              (fun task => pool.tasks ++ [task]) [])
      ∨ (∃ index label event rest,
          action = .resume index
          ∧ pool.tasks[index]? = some (label, .emit event rest)
          ∧ next = system.launch pool label rest (pool.tasks.set index) [])
      ∨ ∃ index label query rest answer,
          action = .reply index answer
          ∧ pool.tasks[index]? = some (label, .call query rest)
          ∧ next
            = system.launch pool label (rest answer) (pool.tasks.set index)
                [(label, query, answer)] := by
  cases action with
  | arrive label => exact Or.inl ⟨label, rfl, (Option.some.inj h).symm⟩
  | resume index =>
      simp only [step?] at h
      split at h
      · next label event rest found =>
          exact Or.inr (Or.inl ⟨index, label, event, rest, rfl, found,
            (Option.some.inj h).symm⟩)
      · cases h
  | reply index answer =>
      simp only [step?] at h
      split at h
      · next label query rest found =>
          exact Or.inr (Or.inr ⟨index, label, query, rest, answer, rfl, found,
            (Option.some.inj h).symm⟩)
      · cases h

/-- The pools some finite run of the system leads to. -/
inductive Reaches (system : System L S W E Q R X α) (start : Pool L S W E Q R X α)
    : Pool L S W E Q R X α → Prop
  | refl : system.Reaches start start
  | step {action pool next} (before : system.Reaches start pool)
    (taken : system.step? action pool = some next)
    : system.Reaches start next

/-- Runs chain. Witness: induction on the second run. -/
theorem Reaches.trans {system : System L S W E Q R X α} {start middle last}
    (first : system.Reaches start middle) (second : system.Reaches middle last)
    : system.Reaches start last := by
  induction second with
  | refl => exact first
  | step _ taken ih => exact .step ih taken

/-- Takes the actions one after the other; `none` when one of them is not possible. -/
def play (system : System L S W E Q R X α)
    : List (Action L R) → Pool L S W E Q R X α → Option (Pool L S W E Q R X α)
  | [], pool => some pool
  | action :: rest, pool => (system.step? action pool).bind (system.play rest)

/-- Played actions are a run. Witness: induction on the actions. -/
theorem reaches_of_play {system : System L S W E Q R X α} {actions : List (Action L R)}
    {pool final : Pool L S W E Q R X α} (played : system.play actions pool = some final)
    : system.Reaches pool final := by
  induction actions generalizing pool with
  | nil =>
      cases played
      exact .refl
  | cons action rest ih =>
      obtain ⟨next, taken, played⟩ := Option.bind_eq_some_iff.mp played
      exact Reaches.trans (.step .refl taken) (ih played)

/-- A task left alone issues its first call. Witness: induction on its program, resuming it
after each emit.
-/
theorem issues_firstCall {system : System L S W E Q R X α} {label : L} {query : Q}
    (program : Coroutine S W E Q R X α) (pool : Pool L S W E Q R X α) {index : Nat}
    (place : L × Coroutine S W E Q R X α → List (L × Coroutine S W E Q R X α))
    (answered : List (L × Q × R)) (placed : ∀ task, (place task)[index]? = some task)
    (calls : program.firstCall system.apply pool.state = some query)
    : ∃ final,
        system.Reaches (system.launch pool label program place answered) final
        ∧ (label, query) ∈ final.issued := by
  induction program generalizing pool place answered with
  | done value => cases calls
  | raise fault => cases calls
  | read next ih => exact ih pool.state pool place answered placed calls
  | write change next ih =>
      exact ih { pool with state := system.apply change pool.state } place answered placed calls
  | emit event next ih =>
      have here := placed (label, .emit event next)
      have bound := (List.getElem?_eq_some_iff.mp here).1
      let suspended := system.launch pool label (.emit event next) place answered
      have resumed : system.step? (.resume index) suspended
          = some (system.launch suspended label next (suspended.tasks.set index) []) := by
        simp [step?, suspended, here, launch, Coroutine.advance]
      obtain ⟨final, run, issued⟩ := ih suspended (suspended.tasks.set index) []
        (fun task => List.getElem?_set_self bound) calls
      exact ⟨final, Reaches.trans (.step .refl resumed) run, issued⟩
  | call asked next ih =>
      cases calls
      refine ⟨_, .refl, ?_⟩
      simp [launch, Coroutine.advance, Coroutine.pendingCall]

/-- A request served alone from any state issues its first call. -/
theorem reaches_firstCall {system : System L S W E Q R X α} {label : L} {query : Q}
    {state : S} (calls : (system.serve label).firstCall system.apply state = some query)
    : ∃ pool, system.Reaches (.initial state) pool ∧ (label, query) ∈ pool.issued := by
  obtain ⟨pool, run, issued⟩ :=
    issues_firstCall (system.serve label) (Pool.initial state) (fun task => [task]) []
      (fun task => List.getElem?_cons_zero) calls
  have arrived : system.step? (.arrive label) (Pool.initial state)
      = some (system.launch (Pool.initial state) label (system.serve label)
          (fun task => [task]) []) := rfl
  exact ⟨pool, Reaches.trans (.step .refl arrived) run, issued⟩

-----------------------------------------------------------------------------------------
-- Invariants of the tasks in a pool
-----------------------------------------------------------------------------------------

/-- Every suspended task satisfies the predicate of its label. -/
def TasksSatisfy (P : L → Coroutine S W E Q R X α → Prop) (pool : Pool L S W E Q R X α)
    : Prop :=
  ∀ entry ∈ pool.tasks, P entry.1 entry.2

/-- Replacing or appending one admissible task keeps all tasks admissible. -/
theorem TasksSatisfy.launch {P : L → Coroutine S W E Q R X α → Prop}
    {system : System L S W E Q R X α} {pool : Pool L S W E Q R X α}
    (tasks : TasksSatisfy P pool) {label : L} {program : Coroutine S W E Q R X α}
    {place : L × Coroutine S W E Q R X α → List (L × Coroutine S W E Q R X α)}
    {answered : List (L × Q × R)}
    (suspended : P label (program.advance system.apply pool.state).1)
    (placed : ∀ task entry, entry ∈ place task → entry ∈ pool.tasks ∨ entry = task)
    : TasksSatisfy P (system.launch pool label program place answered) := by
  intro entry member
  rcases placed _ entry member with old | rfl
  · exact tasks entry old
  · exact suspended

/-- The two placements used by steps add no task but the new one. -/
theorem mem_append_task {tasks : List (L × Coroutine S W E Q R X α)}
    {task entry : L × Coroutine S W E Q R X α} (member : entry ∈ tasks ++ [task])
    : entry ∈ tasks ∨ entry = task := by
  simpa using member

theorem mem_set_task {tasks : List (L × Coroutine S W E Q R X α)} {index : Nat}
    {task entry : L × Coroutine S W E Q R X α} (member : entry ∈ tasks.set index task)
    : entry ∈ tasks ∨ entry = task :=
  List.mem_or_eq_of_mem_set member

/-- In every run each issued call, and so each answered one, satisfies the guarantee of the
request it serves. Witness: run induction; the tasks in the pool keep the guarantee of their
label.
-/
theorem Reaches.issued {system : System L S W E Q R X α} {P : L → Q → Prop}
    (guaranteed : ∀ label, (system.serve label).AllCalls (P label)) {state : S}
    {pool : Pool L S W E Q R X α} (run : system.Reaches (.initial state) pool)
    : TasksSatisfy (fun label task => task.AllCalls (P label)) pool
      ∧ (∀ call ∈ pool.issued, P call.1 call.2)
      ∧ ∀ answered ∈ pool.history, P answered.1 answered.2.1 := by
  induction run with
  | refl =>
      exact ⟨fun _ member => absurd member List.not_mem_nil,
        fun _ member => absurd member List.not_mem_nil,
        fun _ member => absurd member List.not_mem_nil⟩
  | @step action pool next _ taken ih =>
      obtain ⟨tasks, calls, answers⟩ := ih
      have admitted {label : L} {program : Coroutine S W E Q R X α}
          (safe : program.AllCalls (P label))
          : ∀ call ∈ pool.issued
              ++ (program.advance system.apply pool.state).1.pendingCall.map
                  (fun query => (label, query)),
              P call.1 call.2 := by
        intro call member
        rcases List.mem_append.mp member with old | new
        · exact calls call old
        · obtain ⟨query, pending, rfl⟩ := List.mem_map.mp new
          exact (safe.advance system.apply pool.state).pendingCall query pending
      rcases step?_cases taken with
        ⟨label, rfl, rfl⟩ | ⟨index, label, event, rest, rfl, found, rfl⟩
          | ⟨index, label, query, rest, answer, rfl, found, rfl⟩
      · have safe := guaranteed label
        exact ⟨tasks.launch (safe.advance _ _) (fun _ _ => mem_append_task), admitted safe,
          by simpa [launch] using answers⟩
      · have safe : rest.AllCalls (P label) := tasks _ (List.mem_of_getElem? found)
        exact ⟨tasks.launch (safe.advance _ _) (fun _ _ => mem_set_task), admitted safe,
          by simpa [launch] using answers⟩
      · have asked := tasks _ (List.mem_of_getElem? found)
        have safe : (rest answer).AllCalls (P label) := asked.2 answer
        refine ⟨tasks.launch (safe.advance _ _) (fun _ _ => mem_set_task), admitted safe, ?_⟩
        intro answered member
        rcases List.mem_append.mp member with old | new
        · exact answers answered old
        · rw [List.mem_singleton.mp new]
          exact asked.1

/-- A task keeps its place, its label and its guarantee on calls through every later run.
Witness: run induction; a step goes on with this task or leaves it as it is.
-/
theorem Reaches.task_allCalls {system : System L S W E Q R X α} {P : Q → Prop}
    {pool final : Pool L S W E Q R X α} (run : system.Reaches pool final) {place : Nat}
    {label : L} {task : Coroutine S W E Q R X α}
    (found : pool.tasks[place]? = some (label, task)) (safe : task.AllCalls P)
    : ∃ later, final.tasks[place]? = some (label, later) ∧ later.AllCalls P := by
  induction run with
  | refl => exact ⟨task, found, safe⟩
  | @step action middle next _ taken ih =>
      obtain ⟨later, here, safe⟩ := ih
      have bound := (List.getElem?_eq_some_iff.mp here).1
      rcases step?_cases taken with
        ⟨other, rfl, rfl⟩ | ⟨index, other, event, rest, rfl, waiting, rfl⟩
          | ⟨index, other, query, rest, answer, rfl, waiting, rfl⟩
      · refine ⟨later, ?_, safe⟩
        simpa only [launch, List.getElem?_append_left bound] using here
      · by_cases same : index = place
        · subst same
          cases here.symm.trans waiting
          have resumed : rest.AllCalls P := safe
          exact ⟨_, List.getElem?_set_self bound, resumed.advance _ _⟩
        · refine ⟨later, ?_, safe⟩
          simpa only [launch, List.getElem?_set_ne same] using here
      · by_cases same : index = place
        · subst same
          cases here.symm.trans waiting
          exact ⟨_, List.getElem?_set_self bound, AllCalls.advance (safe.2 answer) _ _⟩
        · refine ⟨later, ?_, safe⟩
          simpa only [launch, List.getElem?_set_ne same] using here

variable {T V : Type}

/-- The observed writes owed for the answered calls, in the order of the answers. -/
def settlements (settle : L → Q → R → List V) (history : List (L × Q × R)) : List V :=
  history.flatMap fun answered => settle answered.1 answered.2.1 answered.2.2

section Replay

variable {system : System L S W E Q R X α} {observe : W → Option V}
  {settle : L → Q → R → List V} {view : S → T} {record : V → T → T}

/-- One step of disciplined tasks records exactly what the answer it consumed is owed.
Witness: the three shapes of a step; only a reply lengthens the history.
-/
theorem step_records
    (seen : Observes system.apply observe view record)
    (disciplined : ∀ label, (system.serve label).Settles observe (settle label) [])
    {action : Action L R} {pool next : Pool L S W E Q R X α}
    (tasks : TasksSatisfy (fun label task => task.Settles observe (settle label) []) pool)
    (taken : system.step? action pool = some next)
    : TasksSatisfy (fun label task => task.Settles observe (settle label) []) next
      ∧ ∃ answered,
          next.history = pool.history ++ answered
          ∧ view next.state
            = (settlements settle answered).foldl (fun seen change => record change seen)
                (view pool.state) := by
  rcases step?_cases taken with
    ⟨label, rfl, rfl⟩ | ⟨index, label, event, rest, rfl, found, rfl⟩
      | ⟨index, label, query, rest, answer, rfl, found, rfl⟩
  · have ran := (disciplined label).advance seen pool.state
    exact ⟨tasks.launch ran.2 (fun _ _ => mem_append_task), [], rfl, ran.1⟩
  · have ran := Settles.advance seen (tasks _ (List.mem_of_getElem? found)).2 pool.state
    exact ⟨tasks.launch ran.2 (fun _ _ => mem_set_task), [], rfl, ran.1⟩
  · have ran := Settles.advance seen ((tasks _ (List.mem_of_getElem? found)).2 answer)
      pool.state
    refine ⟨tasks.launch ran.2 (fun _ _ => mem_set_task), [(label, query, answer)], rfl, ?_⟩
    simpa only [launch, settlements, List.flatMap_cons, List.flatMap_nil, List.append_nil]
      using ran.1

/-- After any run the observed state is the replay of the history's settlements.
Witness: run induction over the step rule.
-/
theorem Reaches.replay
    (seen : Observes system.apply observe view record)
    (disciplined : ∀ label, (system.serve label).Settles observe (settle label) [])
    {state : S} {pool : Pool L S W E Q R X α} (run : system.Reaches (.initial state) pool)
    : TasksSatisfy (fun label task => task.Settles observe (settle label) []) pool
      ∧ view pool.state
        = (settlements settle pool.history).foldl (fun seen change => record change seen)
            (view state) := by
  induction run with
  | refl => exact ⟨fun _ member => absurd member List.not_mem_nil, rfl⟩
  | step _ taken ih =>
      obtain ⟨tasks, replayed⟩ := ih
      obtain ⟨tasks, answered, history, viewed⟩ := step_records seen disciplined tasks taken
      refine ⟨tasks, ?_⟩
      rw [viewed, history, replayed]
      simp only [settlements, List.flatMap_append, List.foldl_append]

end Replay

end System

end Library
