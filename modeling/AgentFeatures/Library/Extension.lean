import AgentFeatures.Library.Contract

/-! A system that serves more requests than another one, and what its runs look like there.

The additional requests only read; requests that both serve may be answered in other terms.
-/

namespace Library

namespace Coroutine

variable {S W E Q R X α β : Type}

/-- Reads and ends: no write, no event and no call. -/
def Silent : Coroutine S W E Q R X α → Prop
  | done _ => True
  | raise _ => True
  | read next => ∀ state, (next state).Silent
  | _ => False

/-- A silent coroutine ends at once and leaves the state as it is, by coroutine induction. -/
theorem Silent.advance {program : Coroutine S W E Q R X α} (silent : program.Silent)
    (apply : W → S → S) (state : S)
    : (program.advance apply state).2 = state
      ∧ (program.advance apply state).1.pendingCall = []
      ∧ (program.advance apply state).1.ended?.isSome := by
  induction program generalizing state with
  | done value => exact ⟨rfl, rfl, rfl⟩
  | raise fault => exact ⟨rfl, rfl, rfl⟩
  | read next ih => exact ih state (silent state) state
  | _ => cases silent

/-- Two coroutines that only read, one after the other, only read. -/
theorem Silent.bind {program : Coroutine S W E Q R X α} (silent : program.Silent)
    {k : α → Coroutine S W E Q R X β} (later : ∀ value, (k value).Silent)
    : (program >>= k).Silent := by
  induction program with
  | done value => exact later value
  | raise fault => trivial
  | read next ih => exact fun state => ih state (silent state)
  | _ => cases silent

/-- Mapping the result of what only reads only reads. -/
theorem Silent.map {program : Coroutine S W E Q R X α} (f : α → β) (silent : program.Silent)
    : (f <$> program).Silent :=
  silent.bind fun _ => True.intro

/-- Mapping the result changes nothing but the suspended task. -/
theorem advance_map_eq (apply : W → S → S) (f : α → β) (program : Coroutine S W E Q R X α)
    (state : S)
    : (f <$> program).advance apply state
      = (f <$> (program.advance apply state).1, (program.advance apply state).2) := by
  change (program >>= fun value => done (f value)).advance apply state
    = ((program.advance apply state).1 >>= fun value => done (f value), _)
  induction program generalizing state with
  | done value => rfl
  | raise fault => rfl
  | read next ih => exact ih state state
  | write change next ih => exact ih (apply change state)
  | emit event next _ => rfl
  | call query next _ => rfl

/-- A mapped task that emits is the map of one that does. -/
theorem exists_emit_of_map {f : α → β} {task : Coroutine S W E Q R X α} {event : E}
    {rest : Coroutine S W E Q R X β} (emits : f <$> task = .emit event rest)
    : ∃ next, task = .emit event next ∧ rest = f <$> next := by
  change (task >>= fun value => done (f value)) = _ at emits
  cases task with
  | emit other next =>
      cases emits
      exact ⟨next, rfl, rfl⟩
  | _ => cases emits

/-- A mapped task that calls is the map of one that does. -/
theorem exists_call_of_map {f : α → β} {task : Coroutine S W E Q R X α} {query : Q}
    {rest : R → Coroutine S W E Q R X β} (calls : f <$> task = .call query rest)
    : ∃ next, task = .call query next ∧ rest = fun reply => f <$> next reply := by
  change (task >>= fun value => done (f value)) = _ at calls
  cases task with
  | call other next =>
      cases calls
      exact ⟨next, rfl, rfl⟩
  | _ => cases calls

end Coroutine

variable {L L' S W E Q R X α β : Type}

/-- `large` serves what `view` sees of a request as `small` does, up to `result`, and all
other requests silently.
-/
structure Extends (large : System L' S W E Q R X β) (small : System L S W E Q R X α)
    (view : L' → Option L) (result : L' → α → β)
    : Prop where
  apply : large.apply = small.apply
  seen
    : ∀ label core,
        view label = some core → large.serve label = result label <$> small.serve core
  unseen : ∀ label, view label = none → (large.serve label).Silent

/-- The tasks of the smaller system among those of the larger one, in order of arrival. -/
inductive SeenTasks (view : L' → Option L) (result : L' → α → β)
    : List (L' × Coroutine S W E Q R X β) → List (L × Coroutine S W E Q R X α) → Prop
  | nil : SeenTasks view result [] []
  | seen {label core task tasks cores} (viewed : view label = some core)
    (rest : SeenTasks view result tasks cores)
    : SeenTasks view result ((label, result label <$> task) :: tasks) ((core, task) :: cores)
  | unseen {label task tasks cores} (hidden : view label = none)
    (ended : task.ended?.isSome) (rest : SeenTasks view result tasks cores)
    : SeenTasks view result ((label, task) :: tasks) cores

namespace SeenTasks

variable {view : L' → Option L} {result : L' → α → β}
  {tasks more : List (L' × Coroutine S W E Q R X β)}
  {cores : List (L × Coroutine S W E Q R X α)}

/-- A seen task that arrives is the last of both. Witness: induction along the tasks. -/
theorem append_seen (seen : SeenTasks view result tasks cores) {label : L'} {core : L}
    (viewed : view label = some core) (task : Coroutine S W E Q R X α)
    : SeenTasks view result (tasks ++ [(label, result label <$> task)])
        (cores ++ [(core, task)]) := by
  induction seen with
  | nil => exact .seen viewed .nil
  | seen before _ ih => exact .seen before ih
  | unseen hidden ended _ ih => exact .unseen hidden ended ih

/-- An unseen task that ended is added to the larger system only. -/
theorem append_unseen (seen : SeenTasks view result tasks cores) {label : L'}
    (hidden : view label = none) {task : Coroutine S W E Q R X β}
    (ended : task.ended?.isSome)
    : SeenTasks view result (tasks ++ [(label, task)]) cores := by
  induction seen with
  | nil => exact .unseen hidden ended .nil
  | seen before _ ih => exact .seen before ih
  | unseen hidden' ended' _ ih => exact .unseen hidden' ended' ih

/-- A task that has not ended is seen, and may go on at the same place in both. Witness:
induction along the tasks.
-/
theorem exists_core (seen : SeenTasks view result tasks cores) {index : Nat} {label : L'}
    {running : Coroutine S W E Q R X β} (found : tasks[index]? = some (label, running))
    (going : running.ended? = none)
    : ∃ place core task,
        view label = some core
        ∧ running = result label <$> task
        ∧ cores[place]? = some (core, task)
        ∧ ∀ next,
            SeenTasks view result (tasks.set index (label, result label <$> next))
              (cores.set place (core, next)) := by
  induction seen generalizing index with
  | nil => cases found
  | @seen other core task rest cores viewed tail ih =>
      cases index with
      | zero =>
          cases found
          exact ⟨0, core, task, viewed, rfl, rfl, fun next => .seen viewed tail⟩
      | succ index =>
          obtain ⟨place, core', task', viewed', same, stored, goesOn⟩ := ih found
          exact ⟨place + 1, core', task', viewed', same, stored,
            fun next => .seen viewed (goesOn next)⟩
  | @unseen other task rest cores hidden ended tail ih =>
      cases index with
      | zero =>
          cases found
          rw [going] at ended
          cases ended
      | succ index =>
          obtain ⟨place, core', task', viewed', same, stored, goesOn⟩ := ih found
          exact ⟨place, core', task', viewed', same, stored,
            fun next => .unseen hidden ended (goesOn next)⟩

/-- The labels of the smaller system are what is seen of the larger one's. Witness: induction
along the tasks.
-/
theorem labels (seen : SeenTasks view result tasks cores)
    : cores.map Prod.fst = (tasks.map Prod.fst).filterMap view := by
  induction seen with
  | nil => rfl
  | seen viewed _ ih => simp [viewed, ih]
  | unseen hidden _ _ ih => simp [hidden, ih]

end SeenTasks

/-- What the smaller system has of the calls or answers of the larger one. -/
def seenOf {V : Type} (view : L' → Option L) (entries : List (L' × V)) : List (L × V) :=
  entries.filterMap fun entry => (view entry.1).map fun core => (core, entry.2)

/-- The pool of the smaller system is what can be seen of the larger one's. -/
structure SeenPool (view : L' → Option L) (result : L' → α → β)
    (pool : Pool L' S W E Q R X β) (core : Pool L S W E Q R X α)
    : Prop where
  state : core.state = pool.state
  tasks : SeenTasks view result pool.tasks core.tasks
  issued : core.issued = seenOf view pool.issued
  history : core.history = seenOf view pool.history

namespace System

variable {large : System L' S W E Q R X β} {small : System L S W E Q R X α}
  {view : L' → Option L} {result : L' → α → β} {pool : Pool L' S W E Q R X β}
  {core : Pool L S W E Q R X α}

/-- Launching what is seen in both systems keeps what is seen. -/
theorem seenPool_launch (extend : Extends large small view result)
    (seen : SeenPool view result pool core) {label : L'} {coreLabel : L}
    (viewed : view label = some coreLabel) (program : Coroutine S W E Q R X α)
    {place
      : L' × Coroutine S W E Q R X β → List (L' × Coroutine S W E Q R X β)}
    {corePlace : L × Coroutine S W E Q R X α → List (L × Coroutine S W E Q R X α)}
    (placed
      : ∀ task,
          SeenTasks view result (place (label, result label <$> task))
            (corePlace (coreLabel, task)))
    {answered : List (L' × Q × R)}
    : SeenPool view result
        (large.launch pool label (result label <$> program) place answered)
        (small.launch core coreLabel program corePlace (seenOf view answered)) := by
  have alike : (result label <$> program).advance large.apply pool.state
      = (result label <$> (program.advance small.apply core.state).1,
          (program.advance small.apply core.state).2) := by
    rw [Coroutine.advance_map_eq, extend.apply, seen.state]
  constructor
  · simp only [launch, alike]
  · simpa only [launch, alike] using placed _
  · simp only [launch, alike, Coroutine.pendingCall_map, seen.issued, seenOf,
      List.filterMap_append]
    congr 1
    cases (program.advance small.apply core.state).1.pendingCall with
    | nil => rfl
    | cons query rest => simp [List.filterMap_map, viewed]
  · simp only [launch, seen.history, seenOf, List.filterMap_append]

/-- A step of the larger system is seen as a step of the smaller one or not at all. Witness:
the three shapes of a step; what goes on was not silent.
-/
theorem step?_seen (extend : Extends large small view result)
    (seen : SeenPool view result pool core) {action : Action L' R}
    {next : Pool L' S W E Q R X β} (taken : large.step? action pool = some next)
    : ∃ core', small.Reaches core core' ∧ SeenPool view result next core' := by
  rcases step?_cases taken with
    ⟨label, rfl, rfl⟩ | ⟨index, label, event, rest, rfl, found, rfl⟩
      | ⟨index, label, query, rest, answer, rfl, found, rfl⟩
  · cases viewed : view label with
    | none =>
        obtain ⟨kept, quiet, ended⟩ := (extend.unseen label viewed).advance large.apply pool.state
        refine ⟨core, .refl, ⟨?_, seen.tasks.append_unseen viewed ended, ?_, ?_⟩⟩
        · simp only [launch, kept, seen.state]
        · simp only [launch, quiet, List.map_nil, List.append_nil, seen.issued]
        · simp only [launch, List.append_nil, seen.history]
    | some coreLabel =>
        rw [extend.seen label coreLabel viewed]
        have arrived : small.step? (.arrive coreLabel) core
            = some (small.launch core coreLabel (small.serve coreLabel)
                (fun task => core.tasks ++ [task]) []) := rfl
        exact ⟨_, .step .refl arrived,
          seenPool_launch extend seen viewed _ fun task => seen.tasks.append_seen viewed task⟩
  · obtain ⟨place, coreLabel, task, viewed, same, stored, goesOn⟩ :=
      seen.tasks.exists_core found rfl
    obtain ⟨coreRest, rfl, rfl⟩ := Coroutine.exists_emit_of_map same.symm
    have resumed : small.step? (.resume place) core
        = some (small.launch core coreLabel coreRest (core.tasks.set place) []) := by
      simp [step?, stored]
    exact ⟨_, .step .refl resumed, seenPool_launch extend seen viewed _ goesOn⟩
  · obtain ⟨place, coreLabel, task, viewed, same, stored, goesOn⟩ :=
      seen.tasks.exists_core found rfl
    obtain ⟨coreRest, rfl, rfl⟩ := Coroutine.exists_call_of_map same.symm
    have replied : small.step? (.reply place answer) core
        = some (small.launch core coreLabel (coreRest answer) (core.tasks.set place)
            [(coreLabel, query, answer)]) := by
      simp [step?, stored]
    have answered : seenOf view [(label, query, answer)] = [(coreLabel, query, answer)] := by
      simp [seenOf, viewed]
    refine ⟨_, .step .refl replied, ?_⟩
    rw [← answered]
    exact seenPool_launch extend seen viewed (coreRest answer) goesOn

/-- Every run of the larger system is a run of the smaller one with what is seen of it: the
same state, and the tasks, calls and answers of the seen requests. Witness: run induction;
silent requests leave the smaller system where it is.
-/
theorem Reaches.seen (extend : Extends large small view result) {state : S}
    (run : large.Reaches (.initial state) pool)
    : ∃ core, small.Reaches (.initial state) core ∧ SeenPool view result pool core := by
  induction run with
  | refl => exact ⟨.initial state, .refl, ⟨rfl, .nil, rfl, rfl⟩⟩
  | step _ taken ih =>
      obtain ⟨core, before, seen⟩ := ih
      obtain ⟨core', later, seen'⟩ := step?_seen extend seen taken
      exact ⟨core', before.trans later, seen'⟩

end System

end Library
