import Mathlib

/-! Coroutines: programs that read and write a shared state between their await points.

An await is either a call to the outside, resumed by its reply, or an emitted event.
-/

namespace Library

/-- A suspended program over states `S`, writes `W`, emitted events `E`, calls `Q` with
replies `R`, and uncaught exceptions `X`. Everything between two awaits runs at once.
-/
inductive Coroutine (S W E Q R X α : Type) : Type where
  | done (value : α)
  | raise (fault : X)
  | read (next : S → Coroutine S W E Q R X α)
  | write (change : W) (next : Coroutine S W E Q R X α)
  | emit (event : E) (next : Coroutine S W E Q R X α)
  | call (query : Q) (next : R → Coroutine S W E Q R X α)

namespace Coroutine

variable {S W E Q R X α β γ : Type}

def bind : Coroutine S W E Q R X α → (α → Coroutine S W E Q R X β)
    → Coroutine S W E Q R X β
  | done value, k => k value
  | raise fault, _ => raise fault
  | read next, k => read fun state => (next state).bind k
  | write change next, k => write change (next.bind k)
  | emit event next, k => emit event (next.bind k)
  | call query next, k => call query fun reply => (next reply).bind k

instance : Monad (Coroutine S W E Q R X) where
  pure := done
  bind := bind

@[simp] theorem pure_eq (value : α)
    : (pure value : Coroutine S W E Q R X α) = done value := rfl

@[simp] theorem bind_done (value : α) (k : α → Coroutine S W E Q R X β)
    : (done value >>= k) = k value := rfl

@[simp] theorem bind_raise (fault : X) (k : α → Coroutine S W E Q R X β)
    : (raise fault >>= k) = raise fault := rfl

@[simp] theorem bind_read (next : S → Coroutine S W E Q R X α)
    (k : α → Coroutine S W E Q R X β)
    : (read next >>= k) = read fun state => next state >>= k := rfl

@[simp] theorem bind_write (change : W) (next : Coroutine S W E Q R X α)
    (k : α → Coroutine S W E Q R X β)
    : (write change next >>= k) = write change (next >>= k) := rfl

@[simp] theorem bind_emit (event : E) (next : Coroutine S W E Q R X α)
    (k : α → Coroutine S W E Q R X β)
    : (emit event next >>= k) = emit event (next >>= k) := rfl

@[simp] theorem bind_call (query : Q) (next : R → Coroutine S W E Q R X α)
    (k : α → Coroutine S W E Q R X β)
    : (call query next >>= k) = call query fun reply => next reply >>= k := rfl

/-- Returning the bound value changes nothing, by coroutine induction. -/
theorem bind_pure_right (program : Coroutine S W E Q R X α)
    : (program >>= done) = program := by
  induction program with
  | done value => rfl
  | raise fault => rfl
  | read next ih => simp only [bind_read, ih]
  | write change next ih => simp only [bind_write, ih]
  | emit event next ih => simp only [bind_emit, ih]
  | call query next ih => simp only [bind_call, ih]

/-- Sequencing is associative, by coroutine induction. -/
theorem bind_associative (program : Coroutine S W E Q R X α)
    (f : α → Coroutine S W E Q R X β) (g : β → Coroutine S W E Q R X γ)
    : (program >>= f) >>= g = program >>= fun value => f value >>= g := by
  induction program with
  | done value => rfl
  | raise fault => rfl
  | read next ih => simp only [bind_read, ih]
  | write change next ih => simp only [bind_write, ih]
  | emit event next ih => simp only [bind_emit, ih]
  | call query next ih => simp only [bind_call, ih]

instance : LawfulMonad (Coroutine S W E Q R X) :=
  LawfulMonad.mk' _ bind_pure_right (fun _ _ => rfl) bind_associative

/-- `try: … except Exception`: the result or the uncaught exception as a value. -/
def attempt : Coroutine S W E Q R X α → Coroutine S W E Q R X (Except X α)
  | done value => done (.ok value)
  | raise fault => done (.error fault)
  | read next => read fun state => (next state).attempt
  | write change next => write change next.attempt
  | emit event next => emit event next.attempt
  | call query next => call query fun reply => (next reply).attempt

/-- Every returned value satisfies `P`, whatever states are read and whatever is replied. -/
def Returns (P : α → Prop) : Coroutine S W E Q R X α → Prop
  | done value => P value
  | raise _ => True
  | read next => ∀ state, (next state).Returns P
  | write _ next => next.Returns P
  | emit _ next => next.Returns P
  | call _ next => ∀ reply, (next reply).Returns P

/-- Nothing is asked of a value by the trivial predicate, by coroutine induction. -/
theorem Returns.trivial (program : Coroutine S W E Q R X α) : program.Returns fun _ => True := by
  induction program with
  | done value => exact True.intro
  | raise fault => exact True.intro
  | read next ih => exact ih
  | write change next ih => exact ih
  | emit event next ih => exact ih
  | call query next ih => exact ih

-----------------------------------------------------------------------------------------
-- Calls a coroutine may make in any environment
-----------------------------------------------------------------------------------------

/-- Every call satisfies `P`, whatever states are read and whatever is replied. -/
def AllCalls (P : Q → Prop) : Coroutine S W E Q R X α → Prop
  | done _ => True
  | raise _ => True
  | read next => ∀ state, (next state).AllCalls P
  | write _ next => next.AllCalls P
  | emit _ next => next.AllCalls P
  | call query next => P query ∧ ∀ reply, (next reply).AllCalls P

/-- A sequence makes the calls of both parts, the second from what the first returns, by
coroutine induction. -/
theorem AllCalls.bind_of_returns {P : Q → Prop} {V : α → Prop}
    {program : Coroutine S W E Q R X α} {k : α → Coroutine S W E Q R X β}
    (first : program.AllCalls P) (returned : program.Returns V)
    (later : ∀ value, V value → (k value).AllCalls P)
    : (program >>= k).AllCalls P := by
  induction program with
  | done value => exact later value returned
  | raise fault => exact True.intro
  | read next ih => exact fun state => ih state (first state) (returned state)
  | write change next ih => exact ih first returned
  | emit event next ih => exact ih first returned
  | call query next ih => exact ⟨first.1, fun reply => ih reply (first.2 reply) (returned reply)⟩

/-- A sequence makes the calls of both parts. -/
theorem AllCalls.bind {P : Q → Prop} {program : Coroutine S W E Q R X α}
    {k : α → Coroutine S W E Q R X β} (first : program.AllCalls P)
    (later : ∀ value, (k value).AllCalls P)
    : (program >>= k).AllCalls P :=
  first.bind_of_returns (Returns.trivial program) fun value _ => later value

/-- Mapping the result makes the same calls. -/
theorem AllCalls.map {P : Q → Prop} {program : Coroutine S W E Q R X α} (f : α → β)
    (safe : program.AllCalls P)
    : (f <$> program).AllCalls P :=
  safe.bind fun _ => True.intro

variable {V : Type}

/-- The coroutine makes the observed writes `owed` before it awaits or ends, and after
each reply exactly the writes `settle` owes for that call and reply.
-/
def Settles (observe : W → Option V) (settle : Q → R → List V)
    : List V → Coroutine S W E Q R X α → Prop
  | owed, done _ => owed = []
  | owed, raise _ => owed = []
  | owed, read next => ∀ state, Settles observe settle owed (next state)
  | owed, write change next =>
      match observe change with
      | none => Settles observe settle owed next
      | some seen => ∃ rest, owed = seen :: rest ∧ Settles observe settle rest next
  | owed, emit _ next => owed = [] ∧ Settles observe settle [] next
  | owed, call query next =>
      owed = [] ∧ ∀ reply, Settles observe settle (settle query reply) (next reply)

/-- A sequence settles when both parts do, the second from what the first returns, by
coroutine induction on the owed writes. -/
theorem Settles.bind_of_returns {observe : W → Option V} {settle : Q → R → List V}
    {owed : List V} {P : α → Prop} {program : Coroutine S W E Q R X α}
    {k : α → Coroutine S W E Q R X β} (first : program.Settles observe settle owed)
    (returned : program.Returns P)
    (later : ∀ value, P value → (k value).Settles observe settle [])
    : (program >>= k).Settles observe settle owed := by
  induction program generalizing owed with
  | done value =>
      cases first
      exact later value returned
  | raise fault => exact first
  | read next ih => exact fun state => ih state (first state) (returned state)
  | write change next ih =>
      simp only [Settles, bind_write] at first ⊢
      cases seen : observe change with
      | none =>
          simp only [seen] at first
          exact ih first returned
      | some change =>
          simp only [seen] at first
          obtain ⟨rest, rfl, tail⟩ := first
          exact ⟨rest, rfl, ih tail returned⟩
  | emit event next ih => exact ⟨first.1, ih first.2 returned⟩
  | call query next ih => exact ⟨first.1, fun reply => ih reply (first.2 reply) (returned reply)⟩

/-- A sequence settles when both parts do. -/
theorem Settles.bind {observe : W → Option V} {settle : Q → R → List V} {owed : List V}
    {program : Coroutine S W E Q R X α} {k : α → Coroutine S W E Q R X β}
    (first : program.Settles observe settle owed)
    (later : ∀ value, (k value).Settles observe settle [])
    : (program >>= k).Settles observe settle owed :=
  first.bind_of_returns (Returns.trivial program) fun value _ => later value

/-- Mapping the result settles the same writes. -/
theorem Settles.map {observe : W → Option V} {settle : Q → R → List V} {owed : List V}
    {program : Coroutine S W E Q R X α} (f : α → β)
    (disciplined : program.Settles observe settle owed)
    : (f <$> program).Settles observe settle owed :=
  disciplined.bind fun _ => rfl

/-- The first call made from a state that nobody else changes, if there is one. -/
def firstCall (apply : W → S → S) : Coroutine S W E Q R X α → S → Option Q
  | done _, _ => none
  | raise _, _ => none
  | read next, state => (next state).firstCall apply state
  | write change next, state => next.firstCall apply (apply change state)
  | emit _ next, state => next.firstCall apply state
  | call query _, _ => some query

/-- Mapping the result keeps the first call, by coroutine induction. -/
theorem firstCall_map (apply : W → S → S) (f : α → β) (program : Coroutine S W E Q R X α)
    (state : S)
    : (f <$> program).firstCall apply state = program.firstCall apply state := by
  change (program >>= fun value => done (f value)).firstCall apply state = _
  induction program generalizing state with
  | done value => rfl
  | raise fault => rfl
  | read next ih => exact ih state state
  | write change next ih => exact ih (apply change state)
  | emit event next ih => exact ih state
  | call query next ih => rfl

-----------------------------------------------------------------------------------------
-- Running alone against a stateful environment
-----------------------------------------------------------------------------------------

/-- What one uninterrupted run leaves behind. -/
structure Execution (S E Q R X σ α : Type) where
  outcome : Except X α
  state : S
  world : σ
  calls : List (Q × R)
  events : List E

variable {σ : Type}

/-- Runs alone: writes apply at once and `answer` replies to every call. -/
def run (apply : W → S → S) (answer : Q → σ → R × σ)
    : Coroutine S W E Q R X α → S → σ → Execution S E Q R X σ α
  | done value, state, world => ⟨.ok value, state, world, [], []⟩
  | raise fault, state, world => ⟨.error fault, state, world, [], []⟩
  | read next, state, world => (next state).run apply answer state world
  | write change next, state, world => next.run apply answer (apply change state) world
  | emit event next, state, world =>
      let rest := next.run apply answer state world
      { rest with events := event :: rest.events }
  | call query next, state, world =>
      let (reply, world) := answer query world
      let rest := (next reply).run apply answer state world
      { rest with calls := (query, reply) :: rest.calls }

/-- An attempted run never faults and has the same effects, by coroutine induction. -/
theorem run_attempt (apply : W → S → S) (answer : Q → σ → R × σ)
    (program : Coroutine S W E Q R X α) (state : S) (world : σ)
    : program.attempt.run apply answer state world
      = (let direct := program.run apply answer state world
         ⟨.ok direct.outcome, direct.state, direct.world, direct.calls, direct.events⟩) := by
  induction program generalizing state world with
  | done value => rfl
  | raise fault => rfl
  | read next ih => exact ih state state world
  | write change next ih => exact ih (apply change state) world
  | emit event next ih => simp only [attempt, run, ih]
  | call query next ih => simp only [attempt, run, ih]

/-- The execution of `later` as the continuation of `first`. -/
def Execution.andThen (first : Execution S E Q R X σ α) (later : Execution S E Q R X σ β)
    : Execution S E Q R X σ β :=
  { later with calls := first.calls ++ later.calls, events := first.events ++ later.events }

/-- A sequence runs its second part from where the first one returned, by coroutine
induction. -/
theorem run_bind (apply : W → S → S) (answer : Q → σ → R × σ)
    (program : Coroutine S W E Q R X α) (k : α → Coroutine S W E Q R X β) (state : S)
    (world : σ)
    : (program >>= k).run apply answer state world
      = (let first := program.run apply answer state world
         match first.outcome with
         | .ok value => first.andThen ((k value).run apply answer first.state first.world)
         | .error fault =>
             ⟨.error fault, first.state, first.world, first.calls, first.events⟩) := by
  induction program generalizing state world with
  | done value => rfl
  | raise fault => rfl
  | read next ih => exact ih state state world
  | write change next ih => exact ih (apply change state) world
  | emit event next ih =>
      simp only [bind_emit, run, ih]
      cases (next.run apply answer state world).outcome <;> rfl
  | call query next ih =>
      simp only [bind_call, run, ih]
      cases ((next (answer query world).1).run apply answer state
        (answer query world).2).outcome <;> rfl

end Coroutine

end Library
