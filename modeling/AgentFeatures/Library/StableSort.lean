import AgentFeatures.Library.Selection

/-! What a stable sort does to an order that its list already has. -/

namespace Library

variable {α κ : Type} [LinearOrder κ]

/-- `a` may stand before `b` in a stable sort: it has the smaller key, or the same key and
stood before it already.
-/
def Stably (key : α → Option κ) (r : α → α → Prop) (a b : α) : Prop :=
  ∃ k l, key a = some k ∧ key b = some l ∧ (k < l ∨ k = l ∧ r a b)

/-- Where the list's own order is asymmetric, so is the order of its stable sort. -/
theorem Stably.asymm {key : α → Option κ} {r : α → α → Prop}
    (asymm : ∀ a b, r a b → ¬ r b a) {a b : α} (ahead : Stably key r a b)
    : ¬ Stably key r b a := by
  intro behind
  obtain ⟨k, l, known, known', order⟩ := ahead
  obtain ⟨l', k', other, other', reverse⟩ := behind
  cases known.symm.trans other'
  cases known'.symm.trans other
  rcases order with less | ⟨same, first⟩
  · rcases reverse with more | ⟨same, -⟩
    · exact lt_asymm less more
    · exact absurd same (ne_of_gt less)
  · rcases reverse with more | ⟨-, second⟩
    · exact absurd same (ne_of_gt more)
    · exact asymm a b first second

/-- The order of keyed items after a stable sort. -/
def keyedBefore (r : α → α → Prop) (a b : κ × α) : Prop :=
  a.1 < b.1 ∨ a.1 = b.1 ∧ r a.2 b.2

/-- An item that stood before a sorted list is inserted right before the first one whose key is
not smaller, by list induction. -/
theorem pairwise_orderedInsert {r : α → α → Prop} {item : κ × α} {sorted : List (κ × α)}
    (first : ∀ other ∈ sorted, r item.2 other.2) (order : sorted.Pairwise (keyedBefore r))
    : (sorted.orderedInsert keyLe item).Pairwise (keyedBefore r) := by
  induction order with
  | nil => simp
  | @cons head tail before later ih =>
      rw [List.orderedInsert_cons]
      split
      · next small =>
          refine List.pairwise_cons.mpr ⟨?_, List.pairwise_cons.mpr ⟨before, later⟩⟩
          intro other member
          have notLess : item.1 ≤ other.1 := by
            rcases List.mem_cons.mp member with rfl | member
            · exact small
            · rcases before other member with less | ⟨same, -⟩
              · exact le_trans small (le_of_lt less)
              · exact le_trans small (le_of_eq same)
          rcases lt_or_eq_of_le notLess with less | same
          · exact Or.inl less
          · exact Or.inr ⟨same, first other member⟩
      · next large =>
          refine List.pairwise_cons.mpr
            ⟨?_, ih fun other member => first other (List.mem_cons_of_mem _ member)⟩
          intro other member
          rcases List.mem_cons.mp ((List.perm_orderedInsert keyLe item tail).mem_iff.mp member)
            with rfl | member
          · exact Or.inl (lt_of_not_ge large)
          · exact before other member

/-- Keyed items keep their order among equal keys, by list induction. -/
theorem pairwise_insertionSort {r : α → α → Prop} {keyed : List (κ × α)}
    (order : keyed.Pairwise fun a b => r a.2 b.2)
    : (keyed.insertionSort keyLe).Pairwise (keyedBefore r) := by
  induction order with
  | nil => exact .nil
  | @cons item rest first later ih =>
      exact pairwise_orderedInsert
        (fun other member => first other ((List.mem_insertionSort keyLe).mp member)) ih

/-- A sorted list stands in the stable order of its keys. -/
theorem sortedBy_pairwise {key : α → Option κ} {r : α → α → Prop} {items sorted : List α}
    (h : sortedBy key items = some sorted) (order : items.Pairwise r)
    : sorted.Pairwise (Stably key r) := by
  obtain ⟨keyed, computed, rfl⟩ := Option.map_eq_some_iff.mp h
  obtain ⟨list, keys⟩ := withKeys_eq_some_iff.mp computed
  rw [← list, List.pairwise_map] at order
  rw [List.pairwise_map]
  refine (pairwise_insertionSort order).imp_of_mem ?_
  intro a b member member' before
  exact ⟨a.1, b.1, keys a ((List.mem_insertionSort keyLe).mp member),
    keys b ((List.mem_insertionSort keyLe).mp member'), before⟩

/-- A permutation in the stable order of the keys is what the sort returns: only one list
stands in an asymmetric order.
-/
theorem sortedBy_eq_some_of_pairwise {key : α → Option κ} {r : α → α → Prop}
    {items sorted : List α} (asymm : ∀ a b, r a b → ¬ r b a) (order : items.Pairwise r)
    (keys : ∀ item ∈ items, (key item).isSome) (perm : sorted.Perm items)
    (stable : sorted.Pairwise (Stably key r))
    : sortedBy key items = some sorted := by
  obtain ⟨other, known⟩ := Option.isSome_iff_exists.mp (sortedBy_isSome_iff.mpr keys)
  have same : other = sorted :=
    ((sortedBy_perm known).trans perm.symm).eq_of_pairwise
      (fun _ _ _ _ ahead behind => absurd behind (ahead.asymm asymm))
      (sortedBy_pairwise known order) stable
  rw [known, same]

/-- Sorting by a strictly monotone image of the keys sorts alike. -/
theorem sortedBy_strictMono {κ' : Type} [LinearOrder κ'] {h : κ → κ'} (mono : StrictMono h)
    (key : α → Option κ) (items : List α)
    : sortedBy (fun item => (key item).map h) items = sortedBy key items := by
  have keyed : withKeys (fun item => (key item).map h) items
      = (withKeys key items).map (List.map fun entry => (h entry.1, entry.2)) := by
    rw [withKeys, withKeys, ← mapM_then]
    congr 1
    funext item
    rw [Option.map_map, Option.map_map]
    rfl
  rw [sortedBy, sortedBy, keyed, Option.map_map]
  congr 1
  funext entries
  have moved := List.map_insertionSort keyLe keyLe (fun entry : κ × α => (h entry.1, entry.2))
    entries fun _ _ _ _ => mono.le_iff_le.symm
  rw [Function.comp_apply, ← moved, List.map_map]
  rfl

/-- Sorting looks only at the keys of the items it is given. -/
theorem sortedBy_congr {key other : α → Option κ} {items : List α}
    (agree : ∀ item ∈ items, key item = other item)
    : sortedBy key items = sortedBy other items := by
  have keyed : withKeys key items = withKeys other items := by
    refine Option.ext fun entries => ?_
    simp only [withKeys_eq_some_iff]
    refine and_congr_right fun list => forall₂_congr fun entry member => ?_
    rw [agree entry.2 (list ▸ List.mem_map_of_mem member)]
  rw [sortedBy, sortedBy, keyed]

/-- A list whose keys do not fall is sorted already. -/
theorem sortedBy_of_sorted {key : α → Option κ} {items : List α}
    (keys : ∀ item ∈ items, (key item).isSome)
    (sorted : items.Pairwise fun a b => ∃ k l, key a = some k ∧ key b = some l ∧ k ≤ l)
    : sortedBy key items = some items := by
  obtain ⟨keyed, computed⟩ := Option.isSome_iff_exists.mp (withKeys_isSome_iff.mpr keys)
  obtain ⟨list, known⟩ := withKeys_eq_some_iff.mp computed
  have inOrder : keyed.Pairwise keyLe := by
    rw [← list, List.pairwise_map] at sorted
    refine sorted.imp_of_mem fun {a b} member member' below => ?_
    obtain ⟨k, l, first, second, le⟩ := below
    cases (known a member).symm.trans first
    cases (known b member').symm.trans second
    exact le
  rw [sortedBy, computed, Option.map_some, inOrder.insertionSort_eq, list]

-----------------------------------------------------------------------------------------
-- Selections
-----------------------------------------------------------------------------------------

/-- Filtering a sorted list after an insertion inserts into the filtered list, or not at all.
Witness: induction on the list; what comes before a kept item in the sorted list stays before it.
-/
theorem filter_orderedInsert (keep : κ × α → Bool) (item : κ × α) {sorted : List (κ × α)}
    (order : sorted.Pairwise keyLe)
    : (sorted.orderedInsert keyLe item).filter keep
      = if keep item then (sorted.filter keep).orderedInsert keyLe item
        else sorted.filter keep := by
  induction order with
  | nil => cases kept : keep item <;> simp [kept]
  | @cons head tail below later ih =>
      rw [List.orderedInsert_cons]
      by_cases small : keyLe item head
      · rw [if_pos small, List.filter_cons]
        split
        · have least : ∀ other ∈ (head :: tail).filter keep, keyLe item other := by
            intro other member
            rcases List.mem_cons.mp (List.mem_of_mem_filter member) with rfl | member
            · exact small
            · exact le_trans small (below other member)
          cases rest : (head :: tail).filter keep with
          | nil => rfl
          | cons first others =>
              have inFront : keyLe item first := least first (rest ▸ List.mem_cons_self)
              rw [List.orderedInsert_cons, if_pos inFront]
        · rfl
      · rw [if_neg small, List.filter_cons, ih, List.filter_cons]
        split
        · split
          · rw [List.orderedInsert_cons, if_neg small]
          · rfl
        · rfl

/-- Sorting a selection selects from the sorted list, by list induction. -/
theorem filter_insertionSort (keep : κ × α → Bool) (keyed : List (κ × α))
    : (keyed.insertionSort keyLe).filter keep = (keyed.filter keep).insertionSort keyLe := by
  induction keyed with
  | nil => rfl
  | cons item rest ih =>
      rw [List.insertionSort_cons,
        filter_orderedInsert keep item (List.pairwise_insertionSort keyLe rest), ih,
        List.filter_cons]
      split <;> rfl

/-- Sorting a selection of a list selects from its sort. -/
theorem sortedBy_filter {key : α → Option κ} {items sorted : List α}
    (h : sortedBy key items = some sorted) (keep : α → Bool)
    : sortedBy key (items.filter keep) = some (sorted.filter keep) := by
  obtain ⟨keyed, computed, rfl⟩ := Option.map_eq_some_iff.mp h
  obtain ⟨rfl, keys⟩ := withKeys_eq_some_iff.mp computed
  have selected : withKeys key ((keyed.map Prod.snd).filter keep)
      = some (keyed.filter fun entry => keep entry.2) := by
    refine withKeys_eq_some_iff.mpr ⟨?_, fun entry member => ?_⟩
    · rw [List.filter_map]
      rfl
    · exact keys entry (List.mem_of_mem_filter member)
  rw [sortedBy, selected, Option.map_some, ← filter_insertionSort, List.filter_map]
  rfl

/-- Items of one key keep the order of the list. -/
theorem filter_key_sortedBy [DecidableEq κ] {key : α → Option κ} {items sorted : List α}
    (h : sortedBy key items = some sorted) (k : κ)
    : (sorted.filter fun item => key item = some k)
      = items.filter fun item => key item = some k := by
  have selected := sortedBy_filter h fun item => key item = some k
  have alike : ∀ item ∈ items.filter fun item => key item = some k, key item = some k :=
    fun item member => of_decide_eq_true (List.mem_filter.mp member).2
  have already : sortedBy key (items.filter fun item => key item = some k)
      = some (items.filter fun item => key item = some k) := by
    refine sortedBy_of_sorted (fun item member => by simp [alike item member]) ?_
    refine List.pairwise_of_forall_mem_list fun a member b member' => ?_
    exact ⟨k, k, alike a member, alike b member', le_refl k⟩
  exact Option.some.inj (selected.symm.trans already)

/-- With distinct marks each item is found at its own place. -/
theorem findIdx_getElem {β : Type} [DecidableEq β] {mark : α → β} {items : List α}
    (distinct : (items.map mark).Nodup) {place : Nat} (bound : place < items.length)
    : (items.findIdx fun other => mark other = mark items[place]) = place := by
  rw [List.findIdx_eq bound]
  refine ⟨by simp, fun earlier before => ?_⟩
  have differs : mark items[earlier] ≠ mark items[place] := by
    intro same
    have places := @List.Nodup.getElem_inj_iff _ _ distinct earlier
      (by simpa using before.trans bound) place (by simpa using bound)
    simp only [List.getElem_map] at places
    exact absurd (places.mp same) (ne_of_lt before)
  simpa using differs

/-- In a list that stands in an asymmetric order, the place of an item is smaller than that of
an item behind it in that order.
-/
theorem findIdx_lt_findIdx {β : Type} [DecidableEq β] {mark : α → β} {r : α → α → Prop}
    {items : List α} (distinct : (items.map mark).Nodup) (order : items.Pairwise r)
    (asymm : ∀ a b, r a b → ¬ r b a) {a b : α} (member : a ∈ items) (member' : b ∈ items)
    (before : r a b)
    : (items.findIdx fun other => mark other = mark a)
      < items.findIdx fun other => mark other = mark b := by
  obtain ⟨i, bound, rfl⟩ := List.mem_iff_getElem.mp member
  obtain ⟨j, bound', rfl⟩ := List.mem_iff_getElem.mp member'
  rw [findIdx_getElem distinct bound, findIdx_getElem distinct bound']
  rcases lt_trichotomy i j with less | rfl | greater
  · exact less
  · exact absurd before (asymm _ _ before)
  · exact absurd before (asymm _ _ (List.pairwise_iff_getElem.mp order j i bound' bound greater))

-----------------------------------------------------------------------------------------
-- Pairs
-----------------------------------------------------------------------------------------

/-- Of two different items of a list one stands before the other. -/
theorem pair_sublist_or {items : List α} {a b : α} (member : a ∈ items) (member' : b ∈ items)
    (differs : a ≠ b)
    : [a, b].Sublist items ∨ [b, a].Sublist items := by
  obtain ⟨before, after, rfl⟩ := List.mem_iff_append.mp member
  rcases List.mem_append.mp member' with early | late
  · exact .inr ((List.singleton_sublist.mpr early).append
      (List.Sublist.cons_cons a (List.nil_sublist after)))
  · rcases List.mem_cons.mp late with same | late
    · exact absurd same.symm differs
    · exact .inl ((List.Sublist.cons_cons a (List.singleton_sublist.mpr late)).trans
        (List.sublist_append_right before _))

/-- No two items of a list without repetitions stand in both orders, by list induction. -/
theorem pair_sublist_asymm {items : List α} (distinct : items.Nodup) {a b : α}
    (first : [a, b].Sublist items)
    : ¬ [b, a].Sublist items := by
  induction items with
  | nil => cases first
  | cons head tail ih =>
      obtain ⟨absent, later⟩ := List.nodup_cons.mp distinct
      intro second
      rcases List.cons_sublist_cons'.mp first with inTail | ⟨rfl, rest⟩
      · rcases List.cons_sublist_cons'.mp second with inTail' | ⟨rfl, -⟩
        · exact ih later inTail inTail'
        · exact absent (inTail.subset (by simp))
      · rcases List.cons_sublist_cons'.mp second with inTail' | ⟨rfl, -⟩
        · exact absent (inTail'.subset (by simp))
        · exact absent (rest.subset (by simp))

/-- Where items have no smaller keys and those behind them no larger ones, the order stays. -/
theorem Stably.mono {key other : α → Option κ} {r : α → α → Prop} {a b : α}
    (ahead : Stably key r a b) (first : ∃ k k', key a = some k ∧ other a = some k' ∧ k' ≤ k)
    (second : ∃ l l', key b = some l ∧ other b = some l' ∧ l ≤ l')
    : Stably other r a b := by
  obtain ⟨k, l, known, known', order⟩ := ahead
  obtain ⟨k₀, k', known₀, first, below⟩ := first
  obtain ⟨l₀, l', known₁, second, above⟩ := second
  cases known.symm.trans known₀
  cases known'.symm.trans known₁
  refine ⟨k', l', first, second, ?_⟩
  rcases order with less | ⟨rfl, before⟩
  · exact .inl (lt_of_le_of_lt below (lt_of_lt_of_le less above))
  · rcases lt_or_eq_of_le (le_trans below above) with less | same
    · exact .inl less
    · exact .inr ⟨same, before⟩

/-- In the sort of a list without repetitions an item stands before another one exactly when
it is stably ahead of it.
-/
theorem pair_sublist_sortedBy_iff {key : α → Option κ} {items sorted : List α}
    (h : sortedBy key items = some sorted) (distinct : items.Nodup) {a b : α}
    : [a, b].Sublist sorted
      ↔ a ∈ items ∧ b ∈ items ∧ Stably key (fun a b => [a, b].Sublist items) a b := by
  have stable := sortedBy_pairwise h (List.pairwise_iff_forall_sublist.mpr fun pair => pair)
  have asymm (a b : α) : [a, b].Sublist items → ¬ [b, a].Sublist items :=
    pair_sublist_asymm distinct
  constructor
  · intro before
    have inItems := (sortedBy_perm h).subset
    exact ⟨inItems (before.subset (by simp)), inItems (before.subset (by simp)),
      List.pairwise_pair.mp (stable.sublist before)⟩
  · intro ahead
    obtain ⟨member, member', ahead⟩ := ahead
    have inSorted := (sortedBy_perm h).symm.subset
    have differs : a ≠ b := by
      intro same
      subst same
      exact ahead.asymm asymm ahead
    refine (pair_sublist_or (inSorted member) (inSorted member') differs).resolve_right ?_
    exact fun behind => ahead.asymm asymm (List.pairwise_pair.mp (stable.sublist behind))

/-- A list in the order of a key is determined by its items of each key. Witness: list
induction; the first items have the same least key, and one of them starts its class.
-/
theorem eq_of_filter_eq [DecidableEq κ] {key : α → κ} {left right : List α}
    (order : left.Pairwise fun a b => key a ≤ key b)
    (order' : right.Pairwise fun a b => key a ≤ key b)
    (classes : ∀ k, (left.filter fun item => key item = k) = right.filter fun item => key item = k)
    : left = right := by
  have subset {list other : List α}
      (same : ∀ k, (list.filter fun item => key item = k) = other.filter fun item => key item = k)
      : list ⊆ other := by
    intro item member
    have kept : item ∈ list.filter fun other => key other = key item := by simp [member]
    rw [same] at kept
    exact List.mem_of_mem_filter kept
  induction order generalizing right with
  | nil => exact (List.eq_nil_of_subset_nil (subset fun k => (classes k).symm)).symm
  | @cons head tail below later ih =>
      cases order' with
      | nil => exact absurd (subset classes List.mem_cons_self) List.not_mem_nil
      | @cons first rest above later' =>
          have least : key head ≤ key first := by
            rcases List.mem_cons.mp (subset (fun k => (classes k).symm) List.mem_cons_self)
              with rfl | member
            · exact le_refl _
            · exact below first member
          have least' : key first ≤ key head := by
            rcases List.mem_cons.mp (subset classes List.mem_cons_self) with rfl | member
            · exact le_refl _
            · exact above head member
          have tied : key first = key head := le_antisymm least' least
          have heads := classes (key head)
          simp only [List.filter_cons, tied, decide_true, if_true, List.cons.injEq] at heads
          obtain ⟨rfl, tails⟩ := heads
          refine congrArg (head :: ·) (ih later' fun k => ?_)
          by_cases here : key head = k
          · rw [← here, tails]
          · simpa [List.filter_cons, here] using classes k

-----------------------------------------------------------------------------------------
-- Distinct keys
-----------------------------------------------------------------------------------------

section Distinct

variable {β : Type} {key : β → κ}

/-- Items with distinct keys are sorted in strictly increasing order of their keys. -/
theorem insertionSort_strict {items : List β} (distinct : (items.map key).Nodup)
    : (items.insertionSort fun a b => key a ≤ key b).Pairwise fun a b => key a < key b := by
  let byKey (a b : β) : Prop := key a ≤ key b
  have total : Std.Total byKey := ⟨fun a b => le_total (key a) (key b)⟩
  have trans : IsTrans β byKey := ⟨fun _ _ _ => le_trans⟩
  have sorted := List.pairwise_insertionSort byKey items
  have apart : (items.insertionSort byKey).Pairwise fun a b => key a ≠ key b := by
    rw [← List.pairwise_map]
    exact ((List.perm_insertionSort byKey items).map key).nodup_iff.mpr distinct
  exact (sorted.and apart).imp fun below => lt_of_le_of_ne below.1 below.2

/-- Only one order of items is strictly increasing in their keys. -/
theorem eq_of_perm_of_strict {left right : List β} (perm : left.Perm right)
    (increasing : left.Pairwise fun a b => key a < key b)
    (increasing' : right.Pairwise fun a b => key a < key b)
    : left = right :=
  perm.eq_of_pairwise (fun _ _ _ _ less more => absurd more (lt_asymm less)) increasing
    increasing'

/-- Lists of items with distinct keys sort alike exactly when they have the same items. -/
theorem insertionSort_eq_iff {left right : List β} (distinct : (left.map key).Nodup)
    (distinct' : (right.map key).Nodup)
    : left.insertionSort (fun a b => key a ≤ key b)
          = right.insertionSort (fun a b => key a ≤ key b)
        ↔ ∀ item, item ∈ left ↔ item ∈ right := by
  constructor
  · intro same item
    rw [← List.mem_insertionSort (fun a b => key a ≤ key b), same, List.mem_insertionSort]
  · intro same
    have perm : left.Perm right :=
      (List.perm_ext_iff_of_nodup (.of_map key distinct) (.of_map key distinct')).mpr same
    have sorted := (List.perm_insertionSort (fun a b => key a ≤ key b) left).trans
      (perm.trans (List.perm_insertionSort (fun a b => key a ≤ key b) right).symm)
    exact eq_of_perm_of_strict sorted (insertionSort_strict distinct)
      (insertionSort_strict distinct')

end Distinct

end Library
