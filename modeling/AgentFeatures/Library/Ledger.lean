import AgentFeatures.Library.Contract

/-! Double-entry accounts of interleaved runs: what the replies are due, the ends pay.

Debts live in any commutative monoid: a count, or a multiset of what was received.
-/

namespace Library

/-- How the replies and the end of a coroutine are accounted for. A coroutine that `carries`
may await while it owes something, and a fault that is excused may leave a debt unpaid.
-/
structure Account (Q R X α M : Type) where
  due : Q → R → M
  pays : Except X α → M
  carries : Prop
  excuses : X → Prop

/-- The account of the first part of a sequence, whose result pays `between`. -/
def Account.until {Q R X α β M : Type} (account : Account Q R X β M) (between : α → M)
    : Account Q R X α M where
  due := account.due
  pays
    | .ok value => between value
    | .error fault => account.pays (.error fault)
  carries := account.carries
  excuses := account.excuses

namespace Coroutine

variable {S W E Q R X α β M : Type} [AddCommMonoid M]

/-- With `owed` still to pay, every reply adds its due and every end pays what is owed. -/
def Balances (account : Account Q R X α M) : M → Coroutine S W E Q R X α → Prop
  | owed, done value => account.pays (.ok value) = owed
  | owed, raise fault => account.excuses fault ∨ account.pays (.error fault) = owed
  | owed, read next => ∀ state, (next state).Balances account owed
  | owed, write _ next => next.Balances account owed
  | owed, emit _ next => (account.carries ∨ owed = 0) ∧ next.Balances account owed
  | owed, call query next =>
      (account.carries ∨ owed = 0)
      ∧ ∀ reply, (next reply).Balances account (owed + account.due query reply)

/-- A sequence balances when its second part pays for what the first one leaves, by coroutine
induction. -/
theorem Balances.bind {account : Account Q R X β M} {between : α → M} {owed : M}
    {program : Coroutine S W E Q R X α} {k : α → Coroutine S W E Q R X β}
    (first : program.Balances (account.until between) owed)
    (later : ∀ value, (k value).Balances account (between value))
    : (program >>= k).Balances account owed := by
  induction program generalizing owed with
  | done value =>
      cases first
      exact later value
  | raise fault => exact first
  | read next ih => exact fun state => ih state (first state)
  | write change next ih => exact ih first
  | emit event next ih => exact ⟨first.1, ih first.2⟩
  | call query next ih => exact ⟨first.1, fun reply => ih reply (first.2 reply)⟩

/-- Mapping the result balances when the mapped result pays the same. -/
theorem Balances.map {account : Account Q R X β M} {f : α → β} {owed : M}
    {program : Coroutine S W E Q R X α}
    (balances
      : program.Balances (account.until fun value => account.pays (.ok (f value))) owed)
    : (f <$> program).Balances account owed :=
  balances.bind fun _ => rfl

/-- Where no reply is due and no end pays, every coroutine balances. Witness: coroutine
induction with nothing owed.
-/
theorem Balances.idle {account : Account Q R X α M}
    (free : ∀ query reply, account.due query reply = 0)
    (unpaid : ∀ outcome, account.pays outcome = 0) (program : Coroutine S W E Q R X α)
    : program.Balances account 0 := by
  induction program with
  | done value => exact unpaid _
  | raise fault => exact Or.inr (unpaid _)
  | read next ih => exact ih
  | write change next ih => exact ih
  | emit event next ih => exact ⟨Or.inr rfl, ih⟩
  | call query next ih =>
      refine ⟨Or.inr rfl, fun reply => ?_⟩
      rw [free, add_zero]
      exact ih reply

/-- Running to the next await keeps the balance, by coroutine induction. -/
theorem Balances.advance {account : Account Q R X α M} {owed : M}
    {program : Coroutine S W E Q R X α} (balances : program.Balances account owed)
    (apply : W → S → S) (state : S)
    : (program.advance apply state).1.Balances account owed := by
  induction program generalizing state with
  | done value => exact balances
  | raise fault => exact balances
  | read next ih => exact ih state (balances state) state
  | write change next ih => exact ih balances (apply change state)
  | emit event next _ => exact balances
  | call query next _ => exact balances

/-- What a task has paid: the pay of its end, once it ended. -/
def paid (account : Account Q R X α M) (task : Coroutine S W E Q R X α) : M :=
  (task.ended?.map account.pays).getD 0

end Coroutine

-----------------------------------------------------------------------------------------
-- Accounts of whole runs
-----------------------------------------------------------------------------------------

namespace System

variable {L S W E Q R X α M : Type} [AddCommMonoid M]

/-- What the answers of a run are due, over all its tasks. -/
def totalDue (account : L → Account Q R X α M) (pool : Pool L S W E Q R X α) : M :=
  (pool.history.map fun answered => (account answered.1).due answered.2.1 answered.2.2).sum

/-- What the tasks of a run have paid. -/
def totalPaid (account : L → Account Q R X α M) (pool : Pool L S W E Q R X α) : M :=
  (pool.tasks.map fun task => task.2.paid (account task.1)).sum

/-- Every task of the pool with what it owes; together they owe what the answers are due. -/
structure Ledger (account : L → Account Q R X α M) (pool : Pool L S W E Q R X α) where
  entries : List ((L × Coroutine S W E Q R X α) × M)
  tasks : entries.map Prod.fst = pool.tasks
  balanced : ∀ entry ∈ entries, entry.1.2.Balances (account entry.1.1) entry.2
  total : totalDue account pool = (entries.map Prod.snd).sum

/-- Replacing an entry by one that owes more raises the sum by as much, by list induction. -/
theorem sum_set_add {K : Type} {entries : List (K × M)} {index : Nat} {key : K} {owed : M}
    (found : entries[index]? = some (key, owed)) (other : K) (more : M)
    : ((entries.set index (other, owed + more)).map Prod.snd).sum
      = (entries.map Prod.snd).sum + more := by
  induction entries generalizing index with
  | nil => cases found
  | cons head tail ih =>
      cases index with
      | zero =>
          cases found
          simp only [List.set_cons_zero, List.map_cons, List.sum_cons]
          abel
      | succ index =>
          have later := ih (by simpa using found)
          simp only [List.set_cons_succ, List.map_cons, List.sum_cons, later]
          abel

section Books

variable {account : L → Account Q R X α M} {pool : Pool L S W E Q R X α}

/-- The entry of a task in the pool. -/
theorem Ledger.entry_of_task (ledger : Ledger account pool) {index : Nat} {label : L}
    {task : Coroutine S W E Q R X α} (found : pool.tasks[index]? = some (label, task))
    : ∃ owed,
        ledger.entries[index]? = some ((label, task), owed)
        ∧ task.Balances (account label) owed := by
  rw [← ledger.tasks, List.getElem?_map] at found
  obtain ⟨⟨key, owed⟩, stored, same⟩ := Option.map_eq_some_iff.mp found
  cases same
  exact ⟨owed, stored, ledger.balanced _ (List.mem_of_getElem? stored)⟩

/-- A task that goes on owing `more` keeps the ledger when the answers are due `more`. -/
theorem Ledger.goOn (ledger : Ledger account pool) {index : Nat} {label : L}
    {before after : Coroutine S W E Q R X α} {owed more : M}
    (found : ledger.entries[index]? = some ((label, before), owed))
    (balances : after.Balances (account label) (owed + more))
    {next : Pool L S W E Q R X α} (tasks : next.tasks = pool.tasks.set index (label, after))
    (answered : totalDue account next = totalDue account pool + more)
    : Nonempty (Ledger account next) := by
  refine ⟨⟨ledger.entries.set index ((label, after), owed + more), ?_, ?_, ?_⟩⟩
  · rw [List.map_set, ledger.tasks, tasks]
  · intro entry member
    rcases List.mem_or_eq_of_mem_set member with old | rfl
    · exact ledger.balanced entry old
    · exact balances
  · rw [answered, ledger.total, sum_set_add found]

/-- In every run of coroutines that balance, the tasks owe what the answers are due. Witness:
run induction; an arrival opens an entry with no debt, and a reply adds its due to one entry.
-/
theorem Reaches.ledger {system : System L S W E Q R X α}
    (served : ∀ label, (system.serve label).Balances (account label) 0) {state : S}
    (run : system.Reaches (.initial state) pool)
    : Nonempty (Ledger account pool) := by
  induction run with
  | refl => exact ⟨⟨[], rfl, fun _ member => absurd member List.not_mem_nil, rfl⟩⟩
  | @step action pool next _ taken ih =>
      obtain ⟨ledger⟩ := ih
      rcases step?_cases taken with
        ⟨label, rfl, rfl⟩ | ⟨index, label, event, rest, rfl, found, rfl⟩
          | ⟨index, label, query, rest, answer, rfl, found, rfl⟩
      · let task := ((system.serve label).advance system.apply pool.state).1
        have balances : task.Balances (account label) 0 := (served label).advance _ _
        refine ⟨⟨ledger.entries ++ [((label, task), 0)], ?_, ?_, ?_⟩⟩
        · rw [List.map_append, ledger.tasks]
          rfl
        · intro entry member
          rcases List.mem_append.mp member with old | new
          · exact ledger.balanced entry old
          · rw [List.mem_singleton.mp new]
            exact balances
        · simpa [totalDue, launch] using ledger.total
      · obtain ⟨owed, stored, balances⟩ := ledger.entry_of_task found
        refine ledger.goOn stored ((add_zero owed).symm ▸ balances.2.advance _ _) rfl ?_
        simp [totalDue, launch]
      · obtain ⟨owed, stored, balances⟩ := ledger.entry_of_task found
        refine ledger.goOn stored ((balances.2 answer).advance _ _) rfl ?_
        simp [totalDue, launch]

/-- Nothing is left to pay: each task has ended, or may not await in debt, and none ended with
an excused fault.
-/
def Cleared (account : L → Account Q R X α M) (pool : Pool L S W E Q R X α) : Prop :=
  ∀ task ∈ pool.tasks,
    match task.2.ended? with
    | some (.ok _) => True
    | some (.error fault) => ¬ (account task.1).excuses fault
    | none => ¬ (account task.1).carries

/-- A suspended task that is cleared has paid what it owes. -/
theorem paid_of_balances {account : Account Q R X α M} {task : Coroutine S W E Q R X α}
    {owed : M} (balances : task.Balances account owed) (suspended : task.Suspended)
    (cleared
      : match task.ended? with
        | some (.ok _) => True
        | some (.error fault) => ¬ account.excuses fault
        | none => ¬ account.carries)
    : task.paid account = owed := by
  cases task with
  | done value => exact balances
  | raise fault => exact balances.resolve_left cleared
  | emit event next => exact (balances.1.resolve_left cleared).symm
  | call query next => exact (balances.1.resolve_left cleared).symm
  | _ => cases suspended

/-- Once everything is cleared, what was paid is what the answers were due. Witness: entry by
entry along the ledger.
-/
theorem Reaches.totalPaid_eq {system : System L S W E Q R X α}
    (served : ∀ label, (system.serve label).Balances (account label) 0) {state : S}
    (run : system.Reaches (.initial state) pool) (cleared : Cleared account pool)
    : totalPaid account pool = totalDue account pool := by
  obtain ⟨ledger⟩ := run.ledger served
  have suspended := run.suspended
  rw [ledger.total, totalPaid, ← ledger.tasks, List.map_map]
  congr 1
  refine List.map_congr_left fun entry member => ?_
  have task : entry.1 ∈ pool.tasks := ledger.tasks ▸ List.mem_map_of_mem member
  exact paid_of_balances (ledger.balanced entry member) (suspended _ task) (cleared _ task)

/-- At any time no more was paid than the answers were due, if excused faults pay nothing.
Witness: an end pays its debt, and tasks in flight pay nothing.
-/
theorem Reaches.totalPaid_le [PartialOrder M] [IsOrderedAddMonoid M] [CanonicallyOrderedAdd M]
    {system : System L S W E Q R X α}
    (served : ∀ label, (system.serve label).Balances (account label) 0)
    (unpaid
      : ∀ label fault, (account label).excuses fault → (account label).pays (.error fault) = 0)
    {state : S} (run : system.Reaches (.initial state) pool)
    : totalPaid account pool ≤ totalDue account pool := by
  obtain ⟨ledger⟩ := run.ledger served
  rw [ledger.total, totalPaid, ← ledger.tasks, List.map_map]
  refine List.sum_le_sum fun entry member => ?_
  have balances := ledger.balanced entry member
  cases task : entry.1.2 with
  | done value =>
      rw [task] at balances
      simpa [task, Coroutine.paid, Coroutine.ended?] using le_of_eq balances
  | raise fault =>
      rw [task] at balances
      rcases balances with excused | paid
      · simp [task, Coroutine.paid, Coroutine.ended?, unpaid _ fault excused]
      · simpa [task, Coroutine.paid, Coroutine.ended?] using le_of_eq paid
  | _ => simp [task, Coroutine.paid, Coroutine.ended?]

end Books

end System

end Library
