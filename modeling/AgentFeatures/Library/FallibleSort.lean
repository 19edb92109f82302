import Mathlib

/-! Sorting by a comparison that may raise, as Python's `sorted` does. -/

namespace Library

variable {α : Type}

/-- Python's `<` on lists: the first position where they differ decides, and else the length. -/
def lexLess? [DecidableEq α] (less? : α → α → Option Bool) : List α → List α → Option Bool
  | _, [] => some false
  | [], _ :: _ => some true
  | a :: left, b :: right => if a = b then lexLess? less? left right else less? a b

/-- A comparison of keys that answers like an order makes the comparison of lists answer like the
lexicographic one, by induction on the lists.
-/
theorem eq_of_lexLess? [LinearOrder α] {less? : α → α → Option Bool}
    (agrees : ∀ a b less, less? a b = some less → less = decide (a < b)) {left right : List α}
    {less : Bool} (known : lexLess? less? left right = some less)
    : less = decide (left < right) := by
  induction left generalizing right with
  | nil => cases right <;> simp_all [lexLess?]
  | cons a left ih =>
      cases right with
      | nil => simp_all [lexLess?]
      | cons b right =>
          rw [lexLess?] at known
          simp only [List.cons_lt_cons_iff]
          split at known
          · next same => simpa [same] using ih known
          · next differs => simpa [differs] using agrees a b less known

/-- Places an item before the first one that is not less. -/
def insert? (less? : α → α → Option Bool) (item : α) : List α → Option (List α)
  | [] => some [item]
  | head :: tail =>
      (less? head item).bind fun less =>
        if less then (insert? less? item tail).map (head :: ·) else some (item :: head :: tail)

/-- `sorted(items)` by comparisons that may raise: equal items keep their order. -/
def sorted? (less? : α → α → Option Bool) : List α → Option (List α)
  | [] => some []
  | item :: rest => (sorted? less? rest).bind (insert? less? item)

variable {less? : α → α → Option Bool} {r : α → α → Prop} [DecidableRel r]

/-- Comparisons that all answer place an item where the order does, by list induction. -/
theorem insert?_eq_orderedInsert {item : α} {items : List α}
    (defined : ∀ other ∈ items, less? other item = some (decide (¬ r item other)))
    : insert? less? item items = some (items.orderedInsert r item) := by
  induction items with
  | nil => rfl
  | cons head tail ih =>
      obtain ⟨here, later⟩ := List.forall_mem_cons.mp defined
      rw [insert?, here, Option.bind_some, ih later, List.orderedInsert_cons]
      by_cases first : r item head
      · simp [first]
      · simp [first]

/-- Comparisons that all answer sort as the order does, by list induction. -/
theorem sorted?_eq_insertionSort {items : List α}
    (defined : ∀ a ∈ items, ∀ b ∈ items, less? a b = some (decide (¬ r b a)))
    : sorted? less? items = some (items.insertionSort r) := by
  induction items with
  | nil => rfl
  | cons item rest ih =>
      have later : ∀ a ∈ rest, ∀ b ∈ rest, less? a b = some (decide (¬ r b a)) :=
        fun a inRest b inRest' =>
          defined a (List.mem_cons_of_mem _ inRest) b (List.mem_cons_of_mem _ inRest')
      rw [sorted?, ih later, Option.bind_some, List.insertionSort_cons]
      refine insert?_eq_orderedInsert fun other member => ?_
      have inRest : other ∈ rest := (List.perm_insertionSort r rest).mem_iff.mp member
      exact defined other (List.mem_cons_of_mem _ inRest) item List.mem_cons_self

end Library
