import Mathlib

/-! Filters and stable sorts over lists by functions that may raise. -/

namespace Library

variable {α κ : Type}

/-- `[item for item in items if keep(item)]`; `none` when some test raises. -/
def filterBy (keep : α → Option Bool) : List α → Option (List α)
  | [] => some []
  | item :: rest =>
      match keep item, filterBy keep rest with
      | some true, some kept => some (item :: kept)
      | some false, some kept => some kept
      | _, _ => none

/-- Filtering succeeds iff every test does, and then keeps what passes, by list induction. -/
theorem filterBy_eq_some_iff {keep : α → Option Bool} {items kept : List α}
    : filterBy keep items = some kept
      ↔ (∀ item ∈ items, (keep item).isSome)
        ∧ (items.filter fun item => keep item = some true) = kept := by
  induction items generalizing kept with
  | nil => simp [filterBy]
  | cons item rest ih =>
      cases test : keep item with
      | none => simp [filterBy, test]
      | some passes =>
          cases later : filterBy keep rest with
          | none =>
              have failing : ¬ ∀ item ∈ rest, (keep item).isSome := by
                intro all
                have known := ih.mpr ⟨all, rfl⟩
                rw [later] at known
                cases known
              simp only [filterBy, test, later, List.forall_mem_cons, failing, and_false,
                false_and, iff_false]
              cases passes <;> simp
          | some others =>
              obtain ⟨all, rfl⟩ := ih.mp later
              simp only [filterBy, test, later, List.forall_mem_cons, Option.isSome_some,
                true_and, List.filter_cons]
              cases passes <;> simpa using fun _ => all

/-- Filtering a mapped list maps the filtered one, by list induction. -/
theorem filterBy_map {β : Type} {keep : β → Option Bool} (g : α → β) (items : List α)
    : filterBy keep (items.map g)
      = (filterBy (fun item => keep (g item)) items).map (List.map g) := by
  induction items with
  | nil => rfl
  | cons item rest ih =>
      rw [List.map_cons, filterBy, filterBy, ih]
      cases filterBy (fun item => keep (g item)) rest with
      | none => cases keep (g item) with
        | none => rfl
        | some passes => cases passes <;> rfl
      | some others => cases keep (g item) with
        | none => rfl
        | some passes => cases passes <;> rfl

/-- Mapping a list succeeds with the results item by item, by list induction. -/
theorem mapM_eq_some_iff {β : Type} {f : α → Option β} {items : List α} {results : List β}
    : items.mapM f = some results
      ↔ List.Forall₂ (fun item result => f item = some result) items results := by
  induction items generalizing results with
  | nil => cases results <;> simp
  | cons item rest ih =>
      rw [List.mapM_cons]
      constructor
      · intro mapped
        obtain ⟨first, known, mapped⟩ := Option.bind_eq_some_iff.mp mapped
        obtain ⟨others, later, mapped⟩ := Option.bind_eq_some_iff.mp mapped
        cases mapped
        exact .cons known (ih.mp later)
      · intro mapped
        cases mapped with
        | cons known later => simp [known, ih.mpr later]

/-- A mapping that gives a result for each item gives all of them. -/
theorem mapM_of_eq_some {β : Type} {f : α → Option β} {g : α → β} {items : List α}
    (each : ∀ item ∈ items, f item = some (g item))
    : items.mapM f = some (items.map g) := by
  rw [mapM_eq_some_iff, List.forall₂_map_right_iff, List.forall₂_same]
  exact each

/-- The result for an item is among the results, by induction along the two lists. -/
theorem mem_of_mapM {β : Type} {f : α → Option β} {items : List α} {results : List β}
    (mapped : items.mapM f = some results) {item : α} (member : item ∈ items) {result : β}
    (known : f item = some result)
    : result ∈ results := by
  have pointwise := mapM_eq_some_iff.mp mapped
  clear mapped
  induction pointwise with
  | nil => cases member
  | @cons first value rest values here later ih =>
      rcases List.mem_cons.mp member with rfl | member
      · rw [known] at here
        cases here
        exact List.mem_cons_self
      · exact List.mem_cons_of_mem _ (ih member)

/-- Every result is that of an item, by induction along the two lists. -/
theorem exists_of_mapM {β : Type} {f : α → Option β} {items : List α} {results : List β}
    (mapped : items.mapM f = some results) {result : β} (member : result ∈ results)
    : ∃ item ∈ items, f item = some result := by
  have pointwise := mapM_eq_some_iff.mp mapped
  clear mapped
  induction pointwise with
  | nil => cases member
  | @cons first value rest values here later ih =>
      rcases List.mem_cons.mp member with rfl | member
      · exact ⟨first, List.mem_cons_self, here⟩
      · obtain ⟨item, inRest, known⟩ := ih member
        exact ⟨item, List.mem_cons_of_mem _ inRest, known⟩

/-- Mapping a list succeeds iff it does for every item, by list induction. -/
theorem mapM_isSome_iff {β : Type} {f : α → Option β} {items : List α}
    : (items.mapM f).isSome ↔ ∀ item ∈ items, (f item).isSome := by
  induction items with
  | nil => simp
  | cons item rest ih =>
      rw [List.forall_mem_cons, ← ih, List.mapM_cons]
      cases f item with
      | none => simp
      | some first => cases rest.mapM f <;> simp

/-- Rewriting each result rewrites the list of results, by list induction. -/
theorem mapM_then {β γ : Type} (f : α → Option β) (g : β → γ) (items : List α)
    : items.mapM (fun item => (f item).map g) = (items.mapM f).map (List.map g) := by
  induction items with
  | nil => rfl
  | cons item rest ih =>
      rw [List.mapM_cons, List.mapM_cons, ih]
      cases f item with
      | none => rfl
      | some first => cases rest.mapM f <;> rfl

/-- Each item with its key; `none` when some key cannot be computed. -/
def withKeys (key : α → Option κ) (items : List α) : Option (List (κ × α)) :=
  items.mapM fun item => (key item).map fun k => (k, item)

/-- Keying succeeds exactly with the list's items under their keys. -/
theorem withKeys_eq_some_iff {key : α → Option κ} {items : List α} {keyed : List (κ × α)}
    : withKeys key items = some keyed
      ↔ keyed.map Prod.snd = items ∧ ∀ entry ∈ keyed, key entry.2 = some entry.1 := by
  have each (item : α) (entry : κ × α)
      : (key item).map (fun k => (k, item)) = some entry
        ↔ key entry.2 = some entry.1 ∧ entry.2 = item := by
    refine Option.map_eq_some_iff.trans ?_
    constructor
    · intro computed
      obtain ⟨k, found, rfl⟩ := computed
      exact ⟨found, rfl⟩
    · intro computed
      obtain ⟨found, rfl⟩ := computed
      exact ⟨entry.1, found, rfl⟩
  have flipped : List.Forall₂ (fun item entry => key entry.2 = some entry.1 ∧ entry.2 = item)
        items keyed
      ↔ List.Forall₂ (fun entry item => key entry.2 = some entry.1 ∧ entry.2 = item)
          keyed items :=
    ⟨List.Forall₂.flip, List.Forall₂.flip⟩
  simp only [withKeys, mapM_eq_some_iff, each]
  rw [flipped, List.forall₂_and_left, ← List.forall₂_map_left_iff, List.forall₂_eq_eq_eq, and_comm]

/-- Keying succeeds iff every key computes. -/
theorem withKeys_isSome_iff {key : α → Option κ} {items : List α}
    : (withKeys key items).isSome ↔ ∀ item ∈ items, (key item).isSome := by
  simp [withKeys, mapM_isSome_iff]

section Sorted

variable [LinearOrder κ]

/-- Whether the first keyed item may stand before the second. -/
def keyLe (left right : κ × α) : Prop := left.1 ≤ right.1

instance : DecidableRel (keyLe (α := α) (κ := κ)) :=
  fun left right => inferInstanceAs (Decidable (left.1 ≤ right.1))

instance : Std.Total (keyLe (α := α) (κ := κ)) := ⟨fun left right => le_total left.1 right.1⟩

instance : IsTrans (κ × α) keyLe := ⟨fun _ _ _ => le_trans⟩

/-- `sorted(items, key=key)`: all keys are computed first, equal keys keep their order. -/
def sortedBy (key : α → Option κ) (items : List α) : Option (List α) :=
  (withKeys key items).map fun keyed => (keyed.insertionSort keyLe).map Prod.snd

/-- Sorting fails iff some key does. -/
theorem sortedBy_isSome_iff {key : α → Option κ} {items : List α}
    : (sortedBy key items).isSome ↔ ∀ item ∈ items, (key item).isSome := by
  rw [sortedBy, Option.isSome_map, withKeys_isSome_iff]

/-- Sorting permutes the items. -/
theorem sortedBy_perm {key : α → Option κ} {items sorted : List α}
    (h : sortedBy key items = some sorted)
    : sorted.Perm items := by
  obtain ⟨keyed, computed, rfl⟩ := Option.map_eq_some_iff.mp h
  rw [← (withKeys_eq_some_iff.mp computed).1]
  exact (List.perm_insertionSort keyLe keyed).map Prod.snd

/-- Sorting a mapped list maps the sorted one. -/
theorem sortedBy_map {β : Type} {key : β → Option κ} (g : α → β) (items : List α)
    : sortedBy key (items.map g)
      = (sortedBy (fun item => key (g item)) items).map (List.map g) := by
  have keyed : withKeys key (items.map g)
      = (withKeys (fun item => key (g item)) items).map
          (List.map fun entry => (entry.1, g entry.2)) := by
    rw [withKeys, withKeys, List.mapM_map, ← mapM_then]
    congr 1
    funext item
    simp [Option.map_map, Function.comp_def]
  rw [sortedBy, sortedBy, keyed, Option.map_map, Option.map_map]
  congr 1
  funext entries
  rw [Function.comp_apply, Function.comp_apply,
    ← List.map_insertionSort keyLe keyLe (fun entry => (entry.1, g entry.2)) entries
      fun _ _ _ _ => Iff.rfl, List.map_map, List.map_map]
  rfl

/-- `head` has the least key of `before ++ head :: after` and is the first to have it. -/
def Leads (key : α → Option κ) (before : List α) (head : α) (after : List α) : Prop :=
  ∃ least,
    key head = some least
    ∧ (∀ item ∈ before, ∃ k, key item = some k ∧ least < k)
    ∧ ∀ item ∈ after, ∃ k, key item = some k ∧ least ≤ k

/-- The head of a stable sort has the least key, and strictly less than all before it.
Witness: list induction along the insertions.
-/
theorem insertionSort_head {keyed : List (κ × α)} {head tail}
    (h : keyed.insertionSort keyLe = head :: tail)
    : ∃ before after,
        keyed = before ++ head :: after
        ∧ (∀ entry ∈ before, head.1 < entry.1)
        ∧ ∀ entry ∈ after, head.1 ≤ entry.1 := by
  induction keyed generalizing head tail with
  | nil => simp at h
  | cons entry rest ih =>
      rw [List.insertionSort_cons] at h
      cases sorted : rest.insertionSort keyLe with
      | nil =>
          have empty : rest = [] := by
            have size := List.length_insertionSort (keyLe (α := α) (κ := κ)) rest
            rw [sorted] at size
            exact List.eq_nil_of_length_eq_zero size.symm
          rw [sorted, List.orderedInsert_nil] at h
          obtain ⟨rfl, -⟩ := List.cons.inj h
          exact ⟨[], rest, rfl, by simp, by simp [empty]⟩
      | cons first others =>
          obtain ⟨before, after, split, strict, weak⟩ := ih sorted
          rw [sorted, List.orderedInsert_cons] at h
          by_cases small : keyLe entry first
          · rw [if_pos small] at h
            obtain ⟨rfl, -⟩ := List.cons.inj h
            refine ⟨[], rest, rfl, by simp, ?_⟩
            intro other member
            rw [split] at member
            have small : entry.1 ≤ first.1 := small
            rcases List.mem_append.mp member with early | late
            · exact le_trans small (le_of_lt (strict other early))
            · rcases List.mem_cons.mp late with rfl | late
              · exact small
              · exact le_trans small (weak other late)
          · rw [if_neg small] at h
            obtain ⟨rfl, -⟩ := List.cons.inj h
            refine ⟨entry :: before, after, by simp [split], ?_, weak⟩
            intro other member
            rcases List.mem_cons.mp member with rfl | member
            · exact lt_of_not_ge small
            · exact strict other member

/-- The first sorted item leads the list it comes from. -/
theorem sortedBy_head {key : α → Option κ} {items : List α} {head tail}
    (h : sortedBy key items = some (head :: tail))
    : ∃ before after, items = before ++ head :: after ∧ Leads key before head after := by
  obtain ⟨keyed, computed, sorted⟩ := Option.map_eq_some_iff.mp h
  obtain ⟨list, keys⟩ := withKeys_eq_some_iff.mp computed
  obtain ⟨first, others, shape, rfl, -⟩ := List.map_eq_cons_iff.mp sorted
  obtain ⟨before, after, split, strict, weak⟩ := insertionSort_head shape
  subst split
  refine ⟨before.map Prod.snd, after.map Prod.snd, by simpa using list.symm, first.1,
    keys first (by simp), ?_, ?_⟩
  · intro item member
    obtain ⟨entry, early, rfl⟩ := List.mem_map.mp member
    exact ⟨entry.1, keys entry (by simp [early]), strict entry early⟩
  · intro item member
    obtain ⟨entry, late, rfl⟩ := List.mem_map.mp member
    exact ⟨entry.1, keys entry (by simp [late]), weak entry late⟩

/-- Only one place of a list leads it: an earlier leader would be strictly larger than the
later one, and not larger. -/
theorem Leads.unique {key : α → Option κ} {before other : List α} {head next : α}
    {after rest : List α} (first : Leads key before head after)
    (second : Leads key other next rest)
    (same : before ++ head :: after = other ++ next :: rest)
    : head = next := by
  obtain ⟨least, headKey, strict, weak⟩ := first
  obtain ⟨bound, nextKey, above, below⟩ := second
  rcases List.append_eq_append_iff.mp same with
    ⟨gap, otherSplit, tailSplit⟩ | ⟨gap, beforeSplit, tailSplit⟩
  · cases gap with
    | nil => exact (List.cons.inj tailSplit).1
    | cons middle gap =>
        obtain ⟨rfl, afterSplit⟩ := List.cons.inj tailSplit
        obtain ⟨k, found, larger⟩ := above head (by simp [otherSplit])
        obtain ⟨k', found', smaller⟩ := weak next (by simp [afterSplit])
        rw [headKey] at found
        rw [nextKey] at found'
        cases found
        cases found'
        exact absurd smaller (not_le_of_gt larger)
  · cases gap with
    | nil => exact (List.cons.inj tailSplit).1.symm
    | cons middle gap =>
        obtain ⟨rfl, restSplit⟩ := List.cons.inj tailSplit
        obtain ⟨k, found, larger⟩ := strict next (by simp [beforeSplit])
        obtain ⟨k', found', smaller⟩ := below head (by simp [restSplit])
        rw [nextKey] at found
        rw [headKey] at found'
        cases found
        cases found'
        exact absurd smaller (not_le_of_gt larger)

/-- The item that leads a list heads its sort. -/
theorem sortedBy_of_leads {key : α → Option κ} {before : List α} {head : α} {after : List α}
    (leads : Leads key before head after)
    : ∃ others, sortedBy key (before ++ head :: after) = some (head :: others) := by
  have keys : ∀ item ∈ before ++ head :: after, (key item).isSome := by
    obtain ⟨least, known, strict, weak⟩ := leads
    intro item member
    rcases List.mem_append.mp member with early | late
    · obtain ⟨k, computed, -⟩ := strict item early
      exact Option.isSome_iff_exists.mpr ⟨k, computed⟩
    · rcases List.mem_cons.mp late with rfl | late
      · exact Option.isSome_iff_exists.mpr ⟨least, known⟩
      · obtain ⟨k, computed, -⟩ := weak item late
        exact Option.isSome_iff_exists.mpr ⟨k, computed⟩
  obtain ⟨sorted, known⟩ := Option.isSome_iff_exists.mp (sortedBy_isSome_iff.mpr keys)
  cases sorted with
  | nil =>
      have size := (sortedBy_perm known).length_eq
      simp at size
  | cons first others =>
      obtain ⟨left, right, split, leads'⟩ := sortedBy_head known
      exact ⟨others, by rw [known, leads'.unique leads split.symm]⟩

end Sorted

end Library
