import AgentFeatures.Operator.Reconcile

/-! The condition list after any history of upserts. -/

namespace AgentFeatures

open Library

namespace Operator

/-- The conditions by their types. -/
def byType (conditions : List Condition) : List (String × Condition) :=
  conditions.map fun c => (c.type, c)

/-- What is stored for a call when `old` is the condition of its type, if there is one. -/
def Condition.upserted (c : Condition) : Option Condition → Condition
  | none => c
  | some old =>
      { c with
        lastTransitionTime :=
          if old.status = c.status then old.lastTransitionTime else c.lastTransitionTime }

/-- An upsert is an assignment at the type of its condition. Witness: induction on the
conditions; the first of that type is the one that is looked up.
-/
theorem byType_setCondition (conditions : List Condition) (c : Condition)
    : byType (setCondition conditions c)
      = Dict.assign c.type (c.upserted ((byType conditions).lookup c.type))
          (byType conditions) := by
  induction conditions with
  | nil => rfl
  | cons old rest ih =>
      by_cases same : old.type = c.type
      · simp [byType, setCondition, Dict.assign, Condition.upserted, same]
      · have differs : (c.type == old.type) = false := by simpa using Ne.symm same
        simp only [byType, setCondition, if_neg same, List.map_cons, Dict.assign,
          List.lookup_cons, differs] at ih ⊢
        rw [ih]

/-- The conditions after a history of calls. -/
def afterCalls (calls : List Condition) : List Condition := calls.foldl setCondition []

theorem afterCalls_append (calls : List Condition) (c : Condition)
    : afterCalls (calls ++ [c]) = setCondition (afterCalls calls) c :=
  List.foldl_append ..

/-- One more item is a first occurrence, or adds nothing. -/
theorem eraseDups_concat {α : Type} [DecidableEq α] (items : List α) (item : α)
    : (items ++ [item]).eraseDups
      = if item ∈ items then items.eraseDups else items.eraseDups ++ [item] := by
  rw [List.eraseDups_append, List.removeAll, List.filter_singleton]
  split
  · next present =>
      have listed : items.elem item = true := List.elem_iff.mpr present
      simp only [listed, Bool.not_true, cond_false, List.eraseDups_nil, List.append_nil]
  · next absent =>
      have unlisted : items.elem item = false :=
        Bool.eq_false_iff.mpr fun listed => absent (List.elem_iff.mp listed)
      simp only [unlisted, Bool.not_false, cond_true]
      rfl

theorem map_fst_byType (conditions : List Condition)
    : (byType conditions).map Prod.fst = conditions.map Condition.type := by
  simp [byType]

/-- An upsert keeps the types, or adds a new one at the end. -/
theorem types_setCondition (conditions : List Condition) (c : Condition)
    : (setCondition conditions c).map Condition.type
      = if c.type ∈ conditions.map Condition.type then conditions.map Condition.type
        else conditions.map Condition.type ++ [c.type] := by
  rw [← map_fst_byType, byType_setCondition, Dict.map_fst_assign, map_fst_byType]

/-- The types of stored conditions stand in the order of their first calls. Witness: induction on
the calls from the last one.
-/
theorem types_afterCalls (calls : List Condition)
    : (afterCalls calls).map Condition.type = (calls.map Condition.type).eraseDups := by
  induction calls using List.reverseRecOn with
  | nil => rfl
  | append_singleton calls c ih =>
      rw [afterCalls_append, types_setCondition, ih, List.map_append, List.map_singleton,
        eraseDups_concat]
      simp only [List.mem_eraseDups]

/-- No type is stored twice, after any calls. -/
theorem nodup_types_afterCalls (calls : List Condition)
    : ((afterCalls calls).map Condition.type).Nodup := by
  induction calls using List.reverseRecOn with
  | nil => exact List.nodup_nil
  | append_singleton calls c ih =>
      rw [← map_fst_byType] at ih ⊢
      rw [afterCalls_append, byType_setCondition]
      exact Dict.nodup_assign _ _ ih

/-- The calls of one type. -/
def callsOf (type : String) (calls : List Condition) : List Condition :=
  calls.filter fun call => call.type = type

/-- The longest run of calls with one status at the end of some calls. -/
def trailingRun (status : ConditionStatus) (calls : List Condition) : List Condition :=
  calls.rtakeWhile fun call => call.status = status

/-- The condition is the last one of these calls, with the time of the first call in the trailing
run of its status.
-/
structure StandsFor (calls : List Condition) (c : Condition) : Prop where
  last
    : ∃ call,
        calls.getLast? = some call
        ∧ c.status = call.status
        ∧ c.reason = call.reason
        ∧ c.message = call.message
  time
    : ∃ call,
        (trailingRun c.status calls).head? = some call
        ∧ c.lastTransitionTime = call.lastTransitionTime

/-- The first call of a type is stored as it is. -/
theorem standsFor_singleton (c : Condition) : StandsFor [c] c where
  last := ⟨c, rfl, rfl, rfl, rfl⟩
  time := ⟨c, by simp [trailingRun, List.rtakeWhile], rfl⟩

/-- A further call of a type continues the trailing run of its status, or starts one. -/
theorem StandsFor.upserted {calls : List Condition} {old : Condition}
    (stands : StandsFor calls old) (c : Condition)
    : StandsFor (calls ++ [c]) (c.upserted (some old)) := by
  refine ⟨⟨c, List.getLast?_concat .., rfl, rfl, rfl⟩, ?_⟩
  have grown : trailingRun c.status (calls ++ [c]) = trailingRun c.status calls ++ [c] :=
    List.rtakeWhile_concat_pos _ _ _ (by simp)
  obtain ⟨call, isLast, sameStatus, -, -⟩ := stands.last
  obtain ⟨front, rfl⟩ := List.getLast?_eq_some_iff.mp isLast
  by_cases same : old.status = c.status
  · obtain ⟨first, isFirst, time⟩ := stands.time
    refine ⟨first, ?_, by simpa [Condition.upserted, same] using time⟩
    change (trailingRun c.status _).head? = _
    rw [grown, ← same, List.head?_append, isFirst]
    rfl
  · have ended : trailingRun c.status (front ++ [call]) = [] :=
      List.rtakeWhile_concat_neg _ _ _ (by simpa [← sameStatus] using same)
    refine ⟨c, ?_, by simp [Condition.upserted, same]⟩
    change (trailingRun c.status _).head? = _
    rw [grown, ended]
    rfl

/-- A stored condition stands for the calls of its type; without one there were no calls of the
type. Witness: induction on the calls from the last one.
-/
theorem lookup_afterCalls (calls : List Condition) (type : String)
    : match (byType (afterCalls calls)).lookup type with
      | none => callsOf type calls = []
      | some c => StandsFor (callsOf type calls) c := by
  induction calls using List.reverseRecOn with
  | nil => rfl
  | append_singleton calls c ih =>
      rw [afterCalls_append, byType_setCondition, Dict.lookup_assign]
      by_cases same : type = c.type
      · subst same
        have more : callsOf c.type (calls ++ [c]) = callsOf c.type calls ++ [c] := by
          simp [callsOf]
        rw [if_pos rfl, more]
        cases found : (byType (afterCalls calls)).lookup c.type with
        | none =>
            rw [found] at ih
            rw [show callsOf c.type calls = [] from ih]
            exact standsFor_singleton c
        | some old =>
            rw [found] at ih
            exact StandsFor.upserted ih c
      · have unchanged : callsOf type (calls ++ [c]) = callsOf type calls := by
          simp [callsOf, Ne.symm same]
        rw [if_neg same, unchanged]
        exact ih

/-- After any calls there is one condition for each type, in the order of the types' first calls,
and it stands for the calls of its type.
-/
theorem setCondition_history (calls : List Condition)
    : let stored := calls.foldl setCondition []
      (stored.map Condition.type).Nodup
      ∧ stored.map Condition.type = (calls.map Condition.type).eraseDups
      ∧ ∀ c ∈ stored, StandsFor (callsOf c.type calls) c := by
  refine ⟨nodup_types_afterCalls calls, types_afterCalls calls, fun c member => ?_⟩
  have unique : ((byType (afterCalls calls)).map Prod.fst).Nodup :=
    (map_fst_byType _).symm ▸ nodup_types_afterCalls calls
  have found : (byType (afterCalls calls)).lookup c.type = some c :=
    (Dict.lookup_eq_some_iff unique).mpr (List.mem_map_of_mem member)
  have stands := lookup_afterCalls calls c.type
  rw [found] at stands
  exact stands

end Operator

end AgentFeatures
