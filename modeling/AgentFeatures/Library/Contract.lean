import AgentFeatures.Library.Interleaving

/-! Rely and guarantee for coroutines, and the rule for interleaved runs of them.

A coroutine relies on the states it reads and on the replies to its calls; it guarantees its
writes, its events, its calls and how it ends.
-/

namespace Library

/-- What a coroutine relies on and what it guarantees, except for its end. -/
structure Contract (S W E Q R : Type) where
  reads : S → Prop
  replies : Q → R → Prop
  writes : W → Prop
  emits : E → Prop
  calls : Q → Prop

namespace Coroutine

variable {S W E Q R X α β : Type}

/-- As long as reads and replies are as relied on, everything else is as guaranteed, and each
end satisfies `ends`.
-/
def Keeps (contract : Contract S W E Q R) (ends : Except X α → Prop)
    : Coroutine S W E Q R X α → Prop
  | done value => ends (.ok value)
  | raise fault => ends (.error fault)
  | read next => ∀ state, contract.reads state → (next state).Keeps contract ends
  | write change next => contract.writes change ∧ next.Keeps contract ends
  | emit event next => contract.emits event ∧ next.Keeps contract ends
  | call query next =>
      contract.calls query
      ∧ ∀ reply, contract.replies query reply → (next reply).Keeps contract ends

/-- A weaker promise about the end is kept as well, by coroutine induction. -/
theorem Keeps.mono {contract : Contract S W E Q R} {ends weaker : Except X α → Prop}
    {program : Coroutine S W E Q R X α} (kept : program.Keeps contract ends)
    (implies : ∀ outcome, ends outcome → weaker outcome)
    : program.Keeps contract weaker := by
  induction program with
  | done value => exact implies _ kept
  | raise fault => exact implies _ kept
  | read next ih => exact fun state holds => ih state (kept state holds)
  | write change next ih => exact ⟨kept.1, ih kept.2⟩
  | emit event next ih => exact ⟨kept.1, ih kept.2⟩
  | call query next ih => exact ⟨kept.1, fun reply relied => ih reply (kept.2 reply relied)⟩

/-- A sequence keeps the contract when both parts do, the second from each end of the first,
by coroutine induction. -/
theorem Keeps.bind {contract : Contract S W E Q R} {between : Except X α → Prop}
    {ends : Except X β → Prop} {program : Coroutine S W E Q R X α}
    {k : α → Coroutine S W E Q R X β} (first : program.Keeps contract between)
    (later : ∀ value, between (.ok value) → (k value).Keeps contract ends)
    (raised : ∀ fault, between (.error fault) → ends (.error fault))
    : (program >>= k).Keeps contract ends := by
  induction program with
  | done value => exact later value first
  | raise fault => exact raised fault first
  | read next ih => exact fun state holds => ih state (first state holds)
  | write change next ih => exact ⟨first.1, ih first.2⟩
  | emit event next ih => exact ⟨first.1, ih first.2⟩
  | call query next ih => exact ⟨first.1, fun reply relied => ih reply (first.2 reply relied)⟩

/-- Mapping the result maps the promise about it. -/
theorem Keeps.map {contract : Contract S W E Q R} {ends : Except X β → Prop} (f : α → β)
    {program : Coroutine S W E Q R X α}
    (kept : program.Keeps contract fun outcome => ends (outcome.map f))
    : (f <$> program).Keeps contract ends :=
  kept.bind (fun _ ended => ended) fun _ ended => ended

/-- Up to the next await the state stays one that may be read, and the rest keeps the
contract. Witness: coroutine induction; each write is guaranteed.
-/
theorem Keeps.advance {contract : Contract S W E Q R} {ends : Except X α → Prop}
    {holds : S → Prop} {apply : W → S → S}
    (readable : ∀ state, holds state → contract.reads state)
    (preserved
      : ∀ change state, contract.writes change → holds state → holds (apply change state))
    {program : Coroutine S W E Q R X α} (kept : program.Keeps contract ends) {state : S}
    (here : holds state)
    : holds (program.advance apply state).2
      ∧ (program.advance apply state).1.Keeps contract ends := by
  induction program generalizing state with
  | done value => exact ⟨here, kept⟩
  | raise fault => exact ⟨here, kept⟩
  | read next ih => exact ih state (kept state (readable state here)) here
  | write change next ih => exact ih kept.2 (preserved change state kept.1 here)
  | emit event next _ => exact ⟨here, kept⟩
  | call query next _ => exact ⟨here, kept⟩

/-- How a task ended, if it did. -/
def ended? : Coroutine S W E Q R X α → Option (Except X α)
  | done value => some (.ok value)
  | raise fault => some (.error fault)
  | _ => none

/-- At an await or at its end, as tasks in a pool are. -/
def Suspended : Coroutine S W E Q R X α → Prop
  | read _ => False
  | write _ _ => False
  | _ => True

/-- Running to the next await suspends, by coroutine induction. -/
theorem suspended_advance (apply : W → S → S) (program : Coroutine S W E Q R X α) (state : S)
    : (program.advance apply state).1.Suspended := by
  induction program generalizing state with
  | read next ih => exact ih state state
  | write change next ih => exact ih (apply change state)
  | _ => trivial

/-- An ended task ended as promised. -/
theorem Keeps.ended {contract : Contract S W E Q R} {ends : Except X α → Prop}
    {program : Coroutine S W E Q R X α} (kept : program.Keeps contract ends)
    : ∀ outcome ∈ program.ended?, ends outcome := by
  intro outcome ended
  cases program with
  | done value =>
      cases ended
      exact kept
  | raise fault =>
      cases ended
      exact kept
  | _ => cases ended

/-- The pending call is a guaranteed one. -/
theorem Keeps.pendingCall {contract : Contract S W E Q R} {ends : Except X α → Prop}
    {program : Coroutine S W E Q R X α} (kept : program.Keeps contract ends)
    : ∀ query ∈ program.pendingCall, contract.calls query := by
  intro query pending
  cases program with
  | call asked next =>
      rw [List.mem_singleton.mp pending]
      exact kept.1
  | _ => exact absurd pending List.not_mem_nil

end Coroutine

-----------------------------------------------------------------------------------------
-- Interleaved runs
-----------------------------------------------------------------------------------------

namespace System

variable {L S W E Q R X α : Type}

/-- The labels of the tasks in order of arrival. -/
def arrivals (pool : Pool L S W E Q R X α) : List L := pool.tasks.map Prod.fst

/-- A task that goes on keeps its label. -/
theorem arrivals_set {tasks : List (L × Coroutine S W E Q R X α)} {index : Nat} {label : L}
    {before : Coroutine S W E Q R X α} (found : tasks[index]? = some (label, before))
    (after : Coroutine S W E Q R X α)
    : (tasks.set index (label, after)).map Prod.fst = tasks.map Prod.fst := by
  obtain ⟨bound, here⟩ := List.getElem?_eq_some_iff.mp found
  refine List.ext_getElem? fun place => ?_
  rw [List.map_set, List.getElem?_set]
  split
  · next same =>
      subst same
      simp [bound, here]
  · rfl

/-- A step keeps the arrivals and the answers so far, and may add one of either. -/
theorem step?_extends {system : System L S W E Q R X α} {action : Action L R}
    {pool next : Pool L S W E Q R X α} (taken : system.step? action pool = some next)
    : arrivals pool <+: arrivals next ∧ pool.history <+: next.history := by
  rcases step?_cases taken with
    ⟨label, rfl, rfl⟩ | ⟨index, label, event, rest, rfl, found, rfl⟩
      | ⟨index, label, query, rest, answer, rfl, found, rfl⟩
  · exact ⟨⟨[label], by simp [arrivals, launch]⟩, List.prefix_append _ _⟩
  · exact ⟨by rw [arrivals, arrivals, launch, arrivals_set found], List.prefix_append _ _⟩
  · exact ⟨by rw [arrivals, arrivals, launch, arrivals_set found], List.prefix_append _ _⟩

/-- The tasks of a run are suspended. Witness: run induction; steps add suspended tasks. -/
theorem Reaches.suspended {system : System L S W E Q R X α} {state : S}
    {pool : Pool L S W E Q R X α} (run : system.Reaches (.initial state) pool)
    : TasksSatisfy (fun _ task => task.Suspended) pool := by
  induction run with
  | refl => exact fun _ member => absurd member List.not_mem_nil
  | step _ taken tasks =>
      rcases step?_cases taken with
        ⟨label, rfl, rfl⟩ | ⟨index, label, event, rest, rfl, found, rfl⟩
          | ⟨index, label, query, rest, answer, rfl, found, rfl⟩
      · exact tasks.launch (Coroutine.suspended_advance _ _ _) fun _ _ => mem_append_task
      · exact tasks.launch (Coroutine.suspended_advance _ _ _) fun _ _ => mem_set_task
      · exact tasks.launch (Coroutine.suspended_advance _ _ _) fun _ _ => mem_set_task

section Keeping

variable {system : System L S W E Q R X α} {holds : S → Prop} {admitted : L → Prop}
  {contract : L → Contract S W E Q R} {ends : L → Except X α → Prop}

/-- What holds of a pool whose tasks keep their contracts. -/
structure Kept (holds : S → Prop) (contract : L → Contract S W E Q R)
    (ends : L → Except X α → Prop) (pool : Pool L S W E Q R X α)
    : Prop where
  state : holds pool.state
  tasks : TasksSatisfy (fun label task => task.Keeps (contract label) (ends label)) pool
  issued : ∀ call ∈ pool.issued, (contract call.1).calls call.2

/-- Launching a program that keeps its label's contract keeps the pool. -/
theorem Kept.launch
    (readable : ∀ label state, holds state → (contract label).reads state)
    (preserved
      : ∀ label change state,
          (contract label).writes change
          → holds state
          → holds (system.apply change state))
    {pool : Pool L S W E Q R X α} (kept : Kept holds contract ends pool) {label : L}
    {program : Coroutine S W E Q R X α} (keeps : program.Keeps (contract label) (ends label))
    {place : L × Coroutine S W E Q R X α → List (L × Coroutine S W E Q R X α)}
    {answered : List (L × Q × R)}
    (placed : ∀ task entry, entry ∈ place task → entry ∈ pool.tasks ∨ entry = task)
    : Kept holds contract ends (system.launch pool label program place answered) := by
  obtain ⟨state, suspended⟩ := keeps.advance (readable label) (preserved label) kept.state
  refine ⟨state, kept.tasks.launch suspended placed, fun call member => ?_⟩
  rcases List.mem_append.mp member with old | new
  · exact kept.issued call old
  · obtain ⟨query, pending, rfl⟩ := List.mem_map.mp new
    exact suspended.pendingCall query pending

/-- In every run of admitted requests whose answers are as relied on, the state stays
readable and every task keeps the contract of its request. Witness: run induction; the
answers and arrivals of a run are those of each of its prefixes.
-/
theorem Reaches.keeps
    (readable : ∀ label state, holds state → (contract label).reads state)
    (preserved
      : ∀ label change state,
          (contract label).writes change
          → holds state
          → holds (system.apply change state))
    (served
      : ∀ label, admitted label → (system.serve label).Keeps (contract label) (ends label))
    {state : S} (here : holds state) {pool : Pool L S W E Q R X α}
    (run : system.Reaches (.initial state) pool)
    (admits : ∀ label ∈ arrivals pool, admitted label)
    (relied
      : ∀ answered ∈ pool.history, (contract answered.1).replies answered.2.1 answered.2.2)
    : Kept holds contract ends pool := by
  induction run with
  | refl =>
      exact ⟨here, fun _ member => absurd member List.not_mem_nil,
        fun _ member => absurd member List.not_mem_nil⟩
  | @step action pool next _ taken ih =>
      obtain ⟨earlier, before⟩ := step?_extends taken
      have kept := ih (fun label member => admits label (earlier.subset member))
        fun answered member => relied answered (before.subset member)
      rcases step?_cases taken with
        ⟨label, rfl, rfl⟩ | ⟨index, label, event, rest, rfl, found, rfl⟩
          | ⟨index, label, query, rest, answer, rfl, found, rfl⟩
      · have arrived : admitted label := admits label (by simp [arrivals, launch])
        exact kept.launch readable preserved (served label arrived) fun _ _ => mem_append_task
      · have task := kept.tasks _ (List.mem_of_getElem? found)
        exact kept.launch readable preserved task.2 fun _ _ => mem_set_task
      · have task := kept.tasks _ (List.mem_of_getElem? found)
        have given := relied (label, query, answer) (by simp [launch])
        exact kept.launch readable preserved (task.2 answer given) fun _ _ => mem_set_task

end Keeping

end System

-----------------------------------------------------------------------------------------
-- Writes made at arrival
-----------------------------------------------------------------------------------------

namespace Coroutine

variable {S W E Q R X α β V : Type}

/-- Every write satisfies `P`, whatever states are read and whatever is replied. -/
def AllWrites (P : W → Prop) : Coroutine S W E Q R X α → Prop
  | done _ => True
  | raise _ => True
  | read next => ∀ state, (next state).AllWrites P
  | write change next => P change ∧ next.AllWrites P
  | emit _ next => next.AllWrites P
  | call _ next => ∀ reply, (next reply).AllWrites P

/-- A sequence makes the writes of both parts, by coroutine induction. -/
theorem AllWrites.bind {P : W → Prop} {program : Coroutine S W E Q R X α}
    {k : α → Coroutine S W E Q R X β} (first : program.AllWrites P)
    (later : ∀ value, (k value).AllWrites P)
    : (program >>= k).AllWrites P := by
  induction program with
  | done value => exact later value
  | raise fault => trivial
  | read next ih => exact fun state => ih state (first state)
  | write change next ih => exact ⟨first.1, ih first.2⟩
  | emit event next ih => exact ih first
  | call query next ih => exact fun reply => ih reply (first reply)

/-- Mapping the result makes the same writes. -/
theorem AllWrites.map {P : W → Prop} {program : Coroutine S W E Q R X α} (f : α → β)
    (safe : program.AllWrites P)
    : (f <$> program).AllWrites P :=
  safe.bind fun _ => True.intro

/-- Writes that are not observed settle nothing, by coroutine induction. -/
theorem AllWrites.settles {observe : W → Option V} {program : Coroutine S W E Q R X α}
    (unobserved : program.AllWrites fun change => observe change = none)
    : program.Settles observe (fun _ _ => []) [] := by
  induction program with
  | done value => rfl
  | raise fault => rfl
  | read next ih => exact fun state => ih state (unobserved state)
  | write change next ih =>
      simp only [Settles, unobserved.1]
      exact ih unobserved.2
  | emit event next ih => exact ⟨rfl, ih unobserved⟩
  | call query next ih => exact ⟨rfl, fun reply => ih reply (unobserved reply)⟩

/-- A program without owed writes after its replies makes only owed ones, by coroutine
induction. -/
theorem Settles.allWrites {observe : W → Option V} {owed : List V} {P : W → Prop}
    {program : Coroutine S W E Q R X α}
    (disciplined : program.Settles observe (fun _ _ => []) owed)
    (allowed : ∀ change, (∀ seen ∈ observe change, seen ∈ owed) → P change)
    : program.AllWrites P := by
  induction program generalizing owed with
  | done value => trivial
  | raise fault => trivial
  | read next ih => exact fun state => ih state (disciplined state) allowed
  | write change next ih =>
      simp only [Settles] at disciplined
      cases observed : observe change with
      | none =>
          simp only [observed] at disciplined
          exact ⟨allowed change (by simp [observed]), ih disciplined allowed⟩
      | some seen =>
          simp only [observed] at disciplined
          obtain ⟨rest, rfl, tail⟩ := disciplined
          refine ⟨allowed change (by simp [observed]), ih tail fun other owes => ?_⟩
          exact allowed other fun noted member => List.mem_cons_of_mem _ (owes noted member)
  | emit event next ih =>
      obtain ⟨rfl, tail⟩ := disciplined
      exact ih tail allowed
  | call query next ih =>
      obtain ⟨rfl, tail⟩ := disciplined
      exact fun reply => ih reply (tail reply) allowed

/-- A program keeps a contract that restricts its writes only, by coroutine induction. -/
theorem AllWrites.keeps {contract : Contract S W E Q R} {program : Coroutine S W E Q R X α}
    (written : program.AllWrites contract.writes) (emits : ∀ event, contract.emits event)
    (calls : ∀ query, contract.calls query)
    : program.Keeps contract fun _ => True := by
  induction program with
  | done value => trivial
  | raise fault => trivial
  | read next ih => exact fun state _ => ih state (written state)
  | write change next ih => exact ⟨written.1, ih written.2⟩
  | emit event next ih => exact ⟨emits event, ih written⟩
  | call query next ih => exact ⟨calls query, fun reply _ => ih reply (written reply)⟩

end Coroutine

namespace System

open Coroutine (Observes Settles)

variable {L S W E Q R X α T V : Type}

/-- When all observed writes of a request come before its first await and follow from the
request alone, the observed state is the replay of the arrivals. Witness: run induction; only
an arrival owes writes.
-/
theorem Reaches.replay_arrivals {system : System L S W E Q R X α} {observe : W → Option V}
    {view : S → T} {record : V → T → T} {opening : L → List V}
    (seen : Observes system.apply observe view record)
    (served : ∀ label, (system.serve label).Settles observe (fun _ _ => []) (opening label))
    {state : S} {pool : Pool L S W E Q R X α} (run : system.Reaches (.initial state) pool)
    : TasksSatisfy (fun _ task => task.Settles observe (fun _ _ => []) []) pool
      ∧ view pool.state
        = ((arrivals pool).flatMap opening).foldl (fun seen change => record change seen)
            (view state) := by
  induction run with
  | refl => exact ⟨fun _ member => absurd member List.not_mem_nil, rfl⟩
  | @step action pool next _ taken ih =>
      obtain ⟨tasks, replayed⟩ := ih
      rcases step?_cases taken with
        ⟨label, rfl, rfl⟩ | ⟨index, label, event, rest, rfl, found, rfl⟩
          | ⟨index, label, query, rest, answer, rfl, found, rfl⟩
      · have ran := (served label).advance seen pool.state
        refine ⟨tasks.launch ran.2 fun _ _ => mem_append_task, ?_⟩
        simp only [launch, ran.1, replayed, arrivals, List.map_append, List.map_singleton,
          List.flatMap_append, List.flatMap_singleton, List.foldl_append]
      · have ran := Settles.advance seen (tasks _ (List.mem_of_getElem? found)).2 pool.state
        refine ⟨tasks.launch ran.2 fun _ _ => mem_set_task, ?_⟩
        rw [launch, ran.1, List.foldl_nil, replayed, arrivals, arrivals, arrivals_set found]
      · have ran := Settles.advance seen ((tasks _ (List.mem_of_getElem? found)).2 answer)
          pool.state
        refine ⟨tasks.launch ran.2 fun _ _ => mem_set_task, ?_⟩
        rw [launch, ran.1, List.foldl_nil, replayed, arrivals, arrivals, arrivals_set found]

end System

end Library
