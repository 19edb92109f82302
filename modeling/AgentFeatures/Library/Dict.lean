import Mathlib

/-! Insertion-ordered dictionaries with distinct keys, as Python's `dict` keeps them. -/

namespace Library

/-- Entries stand in the order of their keys' first insertion; no key occurs twice. -/
structure Dict (κ α : Type) where
  entries : List (κ × α)
  nodup : (entries.map Prod.fst).Nodup
deriving DecidableEq

namespace Dict

variable {κ α β ε : Type}

/-- Dictionaries are equal when their ordered entries are. -/
@[ext]
theorem ext {left right : Dict κ α} (h : left.entries = right.entries) : left = right := by
  cases left
  cases right
  cases h
  rfl

def empty : Dict κ α := ⟨[], List.nodup_nil⟩

instance : EmptyCollection (Dict κ α) := ⟨empty⟩

def keys (dict : Dict κ α) : List κ := dict.entries.map Prod.fst

@[simp] theorem entries_empty : (∅ : Dict κ α).entries = [] := rfl

@[simp] theorem keys_empty : (∅ : Dict κ α).keys = [] := rfl

variable [DecidableEq κ]

/-- `d.get(k)`: the value stored under `key`, if any. -/
def get? (dict : Dict κ α) (key : κ) : Option α := dict.entries.lookup key

@[simp] theorem get?_empty (key : κ) : (∅ : Dict κ α).get? key = none := rfl

/-- Lookup in a list with distinct keys finds exactly its members, by list induction. -/
theorem lookup_eq_some_iff {entries : List (κ × α)} (unique : (entries.map Prod.fst).Nodup)
    {key : κ} {value : α}
    : entries.lookup key = some value ↔ (key, value) ∈ entries := by
  induction entries with
  | nil => simp
  | cons head tail ih =>
      obtain ⟨absent, rest⟩ := List.nodup_cons.mp unique
      rcases head with ⟨headKey, headValue⟩
      by_cases same : key = headKey
      · subst same
        have notLater : (key, value) ∉ tail :=
          fun member => absent (List.mem_map.mpr ⟨_, member, rfl⟩)
        simp only [List.lookup_cons, beq_self_eq_true, Option.some.injEq, List.mem_cons,
          Prod.mk.injEq, true_and, notLater, or_false]
        exact eq_comm
      · have differs : (key == headKey) = false := by simpa using same
        simp only [List.lookup_cons, differs, ih rest, List.mem_cons, Prod.mk.injEq, same,
          false_and, false_or]

/-- A dictionary answers a key with `value` iff that entry is stored. -/
theorem get?_eq_some_iff {dict : Dict κ α} {key : κ} {value : α}
    : dict.get? key = some value ↔ (key, value) ∈ dict.entries :=
  lookup_eq_some_iff dict.nodup

/-- Lookup misses exactly the keys that are not stored, by list induction. -/
theorem get?_eq_none_iff {dict : Dict κ α} {key : κ}
    : dict.get? key = none ↔ key ∉ dict.keys := by
  simp only [get?, List.lookup_eq_none_iff, keys, List.mem_map, not_exists, not_and]
  constructor
  · intro h entry member same
    simpa [same] using h entry member
  · intro h entry member
    simpa using fun same => h entry member same.symm

/-- A stored key has a value, by contraposing the missing-key lemma. -/
theorem isSome_get?_iff {dict : Dict κ α} {key : κ}
    : (dict.get? key).isSome ↔ key ∈ dict.keys := by
  rw [Option.isSome_iff_ne_none, ne_eq, get?_eq_none_iff, not_not]

-----------------------------------------------------------------------------------------
-- Assignment
-----------------------------------------------------------------------------------------

/-- The entry list after `d[key] = value`: an existing key keeps its place. -/
def assign (key : κ) (value : α) : List (κ × α) → List (κ × α)
  | [] => [(key, value)]
  | head :: tail =>
      if head.1 = key then (key, value) :: tail else head :: assign key value tail

/-- Assignment adds the key at the end unless it is present, by list induction. -/
theorem map_fst_assign (key : κ) (value : α) (entries : List (κ × α))
    : (assign key value entries).map Prod.fst
      = if key ∈ entries.map Prod.fst then entries.map Prod.fst
        else entries.map Prod.fst ++ [key] := by
  induction entries with
  | nil => simp [assign]
  | cons head tail ih =>
      by_cases same : head.1 = key
      · simp [assign, same]
      · have differs : key ≠ head.1 := fun h => same h.symm
        simp only [assign, same, if_false, List.map_cons, ih, List.mem_cons, differs,
          false_or]
        split <;> simp

/-- Assignment keeps the keys distinct, by the shape of the new key list. -/
theorem nodup_assign (key : κ) (value : α) {entries : List (κ × α)}
    (unique : (entries.map Prod.fst).Nodup)
    : ((assign key value entries).map Prod.fst).Nodup := by
  rw [map_fst_assign]
  split
  · exact unique
  · next absent =>
      exact List.nodup_append.mpr ⟨unique, List.nodup_singleton key, by
        intro other member last inLast same
        rw [List.mem_singleton] at inLast
        exact absent (inLast ▸ same ▸ member)⟩

/-- `d[key] = value`. -/
def set (dict : Dict κ α) (key : κ) (value : α) : Dict κ α :=
  ⟨assign key value dict.entries, nodup_assign key value dict.nodup⟩

/-- The entries of a set dictionary are those of the list assignment. -/
theorem entries_set (dict : Dict κ α) (key : κ) (value : α)
    : (dict.set key value).entries = assign key value dict.entries := rfl

/-- List assignment answers the new value at its key and the old one elsewhere, by list
induction. -/
theorem lookup_assign (key other : κ) (value : α) (entries : List (κ × α))
    : (assign key value entries).lookup other
      = if other = key then some value else entries.lookup other := by
  induction entries with
  | nil =>
      by_cases same : other = key
      · simp [assign, same]
      · have differs : (other == key) = false := by simpa using same
        simp [assign, List.lookup_cons, same, differs]
  | cons head tail ih =>
      rcases head with ⟨headKey, headValue⟩
      by_cases here : headKey = key
      · subst here
        by_cases same : other = headKey
        · simp [assign, same]
        · have differs : (other == headKey) = false := by simpa using same
          simp [assign, List.lookup_cons, same, differs]
      · by_cases first : other = headKey
        · subst first
          simp [assign, here]
        · have differs : (other == headKey) = false := by simpa using first
          simp only [assign, here, if_false, List.lookup_cons, differs, ih]

/-- The assigned key answers the assigned value. -/
@[simp] theorem get?_set_self (dict : Dict κ α) (key : κ) (value : α)
    : (dict.set key value).get? key = some value := by
  simp [get?, entries_set, lookup_assign]

/-- Other keys keep their answer. -/
theorem get?_set_ne (dict : Dict κ α) {key other : κ} (value : α) (differs : other ≠ key)
    : (dict.set key value).get? other = dict.get? other := by
  simp [get?, entries_set, lookup_assign, differs]

/-- Reading after a write, as one conditional. -/
theorem get?_set (dict : Dict κ α) (key other : κ) (value : α)
    : (dict.set key value).get? other = if other = key then some value else dict.get? other := by
  simp [get?, entries_set, lookup_assign]

/-- The keys after a write. -/
theorem keys_set (dict : Dict κ α) (key : κ) (value : α)
    : (dict.set key value).keys
      = if key ∈ dict.keys then dict.keys else dict.keys ++ [key] :=
  map_fst_assign key value dict.entries

/-- A write adds its key and no other. -/
theorem mem_keys_set {dict : Dict κ α} {key other : κ} {value : α}
    : other ∈ (dict.set key value).keys ↔ other ∈ dict.keys ∨ other = key := by
  rw [keys_set]
  split
  · next present => exact ⟨.inl, fun either => either.elim id fun same => same ▸ present⟩
  · rw [List.mem_append, List.mem_singleton]

/-- A new key is appended, by list induction over the assignment. -/
theorem entries_set_of_not_mem {dict : Dict κ α} {key : κ} (absent : key ∉ dict.keys)
    (value : α)
    : (dict.set key value).entries = dict.entries ++ [(key, value)] := by
  have step : ∀ entries : List (κ × α), key ∉ entries.map Prod.fst
      → assign key value entries = entries ++ [(key, value)] := by
    intro entries
    induction entries with
    | nil => intro _; rfl
    | cons head tail ih =>
        intro missing
        simp only [List.map_cons, List.mem_cons, not_or] at missing
        simp [assign, Ne.symm missing.1, ih missing.2]
  exact step dict.entries absent

/-- `{k: v for k, v in items}`: later items win, first insertions fix the order. -/
def ofList (items : List (κ × α)) : Dict κ α :=
  items.foldl (fun dict item => dict.set item.1 item.2) ∅

/-- A write adds at most its own entry, by list induction over the assignment. -/
theorem mem_entries_set {dict : Dict κ α} {key : κ} {value : α} {entry : κ × α}
    (member : entry ∈ (dict.set key value).entries)
    : entry ∈ dict.entries ∨ entry = (key, value) := by
  have step : ∀ entries : List (κ × α), entry ∈ assign key value entries
      → entry ∈ entries ∨ entry = (key, value) := by
    intro entries
    induction entries with
    | nil => simp [assign]
    | cons head tail ih =>
        simp only [assign, List.mem_cons]
        split
        · rw [List.mem_cons]
          tauto
        · rw [List.mem_cons]
          exact fun either => either.elim (fun same => .inl (.inl same))
            fun later => (ih later).imp_left .inr
  exact step dict.entries member

/-- What holds of all items holds of the entries built from them. -/
theorem forall_entries_ofList {P : κ × α → Prop} {items : List (κ × α)}
    (all : ∀ item ∈ items, P item)
    : ∀ entry ∈ (ofList items).entries, P entry := by
  have step : ∀ (items : List (κ × α)) (dict : Dict κ α), (∀ item ∈ items, P item)
      → (∀ entry ∈ dict.entries, P entry)
      → ∀ entry ∈ (items.foldl (fun dict item => dict.set item.1 item.2) dict).entries,
          P entry := by
    intro items
    induction items with
    | nil => exact fun dict _ kept => kept
    | cons head tail ih =>
        intro dict all kept
        refine ih _ (fun item member => all item (List.mem_cons_of_mem head member)) ?_
        intro entry member
        rcases mem_entries_set member with old | rfl
        · exact kept entry old
        · exact all head List.mem_cons_self
  exact step items ∅ all (by simp)

/-- The keys of a dictionary built from items. -/
theorem mem_keys_ofList {items : List (κ × α)} {key : κ}
    : key ∈ (ofList items).keys ↔ key ∈ items.map Prod.fst := by
  have step : ∀ (items : List (κ × α)) (dict : Dict κ α),
      key ∈ (items.foldl (fun dict item => dict.set item.1 item.2) dict).keys
        ↔ key ∈ dict.keys ∨ key ∈ items.map Prod.fst := by
    intro items
    induction items with
    | nil => simp
    | cons head tail ih =>
        intro dict
        rw [List.foldl_cons, ih, mem_keys_set, List.map_cons, List.mem_cons, or_assoc]
  simpa [ofList] using step items ∅

/-- A dictionary keeps all items it is built from iff no key comes with two values. -/
theorem forall_mem_ofList_iff {items : List (κ × α)}
    : (∀ item ∈ items, item ∈ (ofList items).entries)
      ↔ ∀ first ∈ items, ∀ second ∈ items, first.1 = second.1 → first.2 = second.2 := by
  constructor
  · intro kept first inFirst second inSecond same
    have firstFound := get?_eq_some_iff.mpr (kept first inFirst)
    have secondFound := get?_eq_some_iff.mpr (kept second inSecond)
    rw [same, secondFound] at firstFound
    exact (Option.some.inj firstFound).symm
  · intro consistent item member
    have stored : item.1 ∈ (ofList items).keys :=
      mem_keys_ofList.mpr (List.mem_map_of_mem member)
    obtain ⟨entry, inEntries, same⟩ := List.mem_map.mp stored
    have written : entry ∈ items :=
      forall_entries_ofList (fun item inItems => inItems) entry inEntries
    have values := consistent entry written item member same
    rwa [Prod.ext same values] at inEntries

/-- Adding items with fresh, distinct keys appends them in order, by list induction. -/
theorem entries_foldl_set (items : List (κ × α)) (dict : Dict κ α)
    (unique : (dict.keys ++ items.map Prod.fst).Nodup)
    : (items.foldl (fun dict item => dict.set item.1 item.2) dict).entries
      = dict.entries ++ items := by
  induction items generalizing dict with
  | nil => simp
  | cons head tail ih =>
      have absent : head.1 ∉ dict.keys := by
        intro member
        have separate := (List.nodup_append.mp unique).2.2
        exact separate head.1 member head.1 (by simp) rfl
      have keys : (dict.set head.1 head.2).keys = dict.keys ++ [head.1] := by
        rw [keys_set, if_neg absent]
      rw [List.foldl_cons, ih _ (by simpa [keys] using unique),
        entries_set_of_not_mem absent]
      simp

/-- Building from items with distinct keys keeps exactly the items. -/
theorem entries_ofList {items : List (κ × α)} (unique : (items.map Prod.fst).Nodup)
    : (ofList items).entries = items := by
  simpa [ofList] using entries_foldl_set items ∅ (by simpa using unique)

/-- Rewrites values left to right; the first failure is the result. -/
def mapValues (f : α → Except ε β) : List (κ × α) → Except ε (List (κ × β))
  | [] => .ok []
  | (key, value) :: tail =>
      match f value with
      | .error failure => .error failure
      | .ok result =>
          match mapValues f tail with
          | .error failure => .error failure
          | .ok rest => .ok ((key, result) :: rest)

omit [DecidableEq κ] in
/-- A completed rewriting relates the lists entry by entry, by list induction. -/
theorem mapValues_forall₂ {f : α → Except ε β} {items : List (κ × α)}
    {results : List (κ × β)} (done : mapValues f items = .ok results)
    : List.Forall₂ (fun item result => item.1 = result.1 ∧ f item.2 = .ok result.2)
        items results := by
  induction items generalizing results with
  | nil =>
      cases done
      exact .nil
  | cons head tail ih =>
      simp only [mapValues] at done
      cases value : f head.2 with
      | error failure => simp [value] at done
      | ok result =>
          cases rest : mapValues f tail with
          | error failure => simp [value, rest] at done
          | ok others =>
              simp only [value, rest, Except.ok.injEq] at done
              subst done
              exact .cons ⟨rfl, value⟩ (ih rest)

omit [DecidableEq κ] in
/-- A completed rewriting keeps the keys in order. -/
theorem mapValues_keys {f : α → Except ε β} {items : List (κ × α)}
    {results : List (κ × β)} (done : mapValues f items = .ok results)
    : results.map Prod.fst = items.map Prod.fst := by
  have related := mapValues_forall₂ done
  clear done
  induction related with
  | nil => rfl
  | cons head _ ih => simp [ih, head.1]

omit [DecidableEq κ] in
/-- Rewriting completes iff every value does, by list induction. -/
theorem mapValues_isOk_iff {f : α → Except ε β} {items : List (κ × α)}
    : (∃ results, mapValues f items = .ok results)
      ↔ ∀ item ∈ items, ∃ result, f item.2 = .ok result := by
  induction items with
  | nil => simp [mapValues]
  | cons head tail ih =>
      simp only [List.forall_mem_cons, ← ih, mapValues]
      cases value : f head.2 with
      | error failure => simp
      | ok result =>
          cases rest : mapValues f tail with
          | error failure => simp
          | ok others => simp

/-- The dictionary with every value rewritten by `f`, or the first failure. -/
def mapM (f : α → Except ε β) (dict : Dict κ α) : Except ε (Dict κ β) :=
  match done : mapValues f dict.entries with
  | .error failure => .error failure
  | .ok results => .ok ⟨results, by rw [mapValues_keys done]; exact dict.nodup⟩

omit [DecidableEq κ] in
/-- The rewritten dictionary has the rewritten entries. -/
theorem mapM_eq_ok_iff {f : α → Except ε β} {dict : Dict κ α} {result : Dict κ β}
    : dict.mapM f = .ok result ↔ mapValues f dict.entries = .ok result.entries := by
  unfold mapM
  split
  · next failure done => simp [done]
  · next results done =>
      simp only [done, Except.ok.injEq]
      exact ⟨fun same => same ▸ rfl, fun same => ext same⟩

omit [DecidableEq κ] in
/-- Rewriting a dictionary fails with the first failure. -/
theorem mapM_eq_error_iff {f : α → Except ε β} {dict : Dict κ α} {failure : ε}
    : dict.mapM f = .error failure ↔ mapValues f dict.entries = .error failure := by
  unfold mapM
  split
  · next other failed => simp [failed]
  · next results done => simp [done]

omit [DecidableEq κ] in
/-- Values that are rewritten alike give the same list, by list induction. -/
theorem mapValues_congr {f g : α → Except ε β} {items : List (κ × α)}
    (agree : ∀ item ∈ items, f item.2 = g item.2)
    : mapValues f items = mapValues g items := by
  induction items with
  | nil => rfl
  | cons head tail ih =>
      obtain ⟨here, later⟩ := List.forall_mem_cons.mp agree
      simp only [mapValues, here, ih later]

omit [DecidableEq κ] in
/-- Values that are rewritten alike give the same dictionary. -/
theorem mapM_congr {f g : α → Except ε β} {dict : Dict κ α}
    (agree : ∀ entry ∈ dict.entries, f entry.2 = g entry.2)
    : dict.mapM f = dict.mapM g := by
  cases rewritten : dict.mapM g with
  | error failure =>
      rw [mapM_eq_error_iff] at rewritten ⊢
      exact (mapValues_congr agree).trans rewritten
  | ok result =>
      rw [mapM_eq_ok_iff] at rewritten ⊢
      exact (mapValues_congr agree).trans rewritten

omit [DecidableEq κ] in
/-- The rewritten dictionary keeps the keys in order. -/
theorem keys_of_mapM {f : α → Except ε β} {dict : Dict κ α} {result : Dict κ β}
    (done : dict.mapM f = .ok result)
    : result.keys = dict.keys :=
  mapValues_keys (mapM_eq_ok_iff.mp done)

/-- Each rewritten value stands under its key. -/
theorem get?_of_mapM {f : α → Except ε β} {dict : Dict κ α} {result : Dict κ β}
    (done : dict.mapM f = .ok result) {key : κ} {value : α}
    (member : (key, value) ∈ dict.entries)
    : ∃ rewritten, f value = .ok rewritten ∧ result.get? key = some rewritten := by
  have related := mapValues_forall₂ (mapM_eq_ok_iff.mp done)
  obtain ⟨index, bound, found⟩ := List.mem_iff_getElem.mp member
  have bound' : index < result.entries.length := related.length_eq ▸ bound
  have step := related.get bound bound'
  simp only [List.get_eq_getElem, found] at step
  refine ⟨(result.entries[index]).2, step.2, get?_eq_some_iff.mpr ?_⟩
  rw [step.1]
  exact List.getElem_mem bound'

omit [DecidableEq κ] in
/-- Rewriting succeeds iff every value can be rewritten. -/
theorem mapM_isOk_iff {f : α → Except ε β} {dict : Dict κ α}
    : (∃ result, dict.mapM f = .ok result)
      ↔ ∀ entry ∈ dict.entries, ∃ value, f entry.2 = .ok value := by
  rw [← mapValues_isOk_iff]
  constructor
  · intro some
    rcases some with ⟨result, done⟩
    exact ⟨_, mapM_eq_ok_iff.mp done⟩
  · intro some
    rcases some with ⟨results, done⟩
    exact ⟨⟨results, by rw [mapValues_keys done]; exact dict.nodup⟩,
      mapM_eq_ok_iff.mpr done⟩

-----------------------------------------------------------------------------------------
-- Mapped entries
-----------------------------------------------------------------------------------------

/-- A key has one value in a list with distinct keys. -/
theorem value_unique {entries : List (κ × α)} (unique : (entries.map Prod.fst).Nodup)
    {key : κ} {value other : α} (member : (key, value) ∈ entries)
    (member' : (key, other) ∈ entries)
    : value = other := by
  have found := (lookup_eq_some_iff unique).mpr member
  rw [(lookup_eq_some_iff unique).mpr member'] at found
  exact (Option.some.inj found).symm

omit [DecidableEq κ] in
/-- Entries that agree with those under their keys in another list are among them, once mapped. -/
theorem mem_map_of_agree {left right : List (κ × α)} {f : α → β}
    (keys : ∀ key ∈ left.map Prod.fst, key ∈ right.map Prod.fst)
    (agree : ∀ key l r, (key, l) ∈ left → (key, r) ∈ right → f l = f r) {entry : κ × β}
    (member : entry ∈ left.map (Prod.map id f))
    : entry ∈ right.map (Prod.map id f) := by
  obtain ⟨⟨key, l⟩, atLeft, rfl⟩ := List.mem_map.mp member
  obtain ⟨⟨key', r⟩, atRight, same⟩ :=
    List.mem_map.mp (keys key (List.mem_map_of_mem (f := Prod.fst) atLeft))
  cases same
  rw [Prod.map, agree key' l r atLeft atRight]
  exact List.mem_map_of_mem (f := Prod.map id f) atRight

/-- Mapped entries are the same exactly when their keys are and each key's values are mapped
alike.
-/
theorem mem_map_iff_mem_map {left right : List (κ × α)} (unique : (right.map Prod.fst).Nodup)
    {f : α → β}
    : (∀ entry, entry ∈ left.map (Prod.map id f) ↔ entry ∈ right.map (Prod.map id f))
      ↔ (∀ key, key ∈ left.map Prod.fst ↔ key ∈ right.map Prod.fst)
        ∧ ∀ key l r, (key, l) ∈ left → (key, r) ∈ right → f l = f r := by
  constructor
  · intro same
    have keys (entries : List (κ × α))
        : (entries.map (Prod.map id f)).map Prod.fst = entries.map Prod.fst := by simp
    refine ⟨fun key => ?_, fun key l r atLeft atRight => ?_⟩
    · rw [← keys left, ← keys right]
      simp only [List.mem_map (f := Prod.fst), same]
    · have mapped : (key, f l) ∈ left.map (Prod.map id f) :=
        List.mem_map_of_mem (f := Prod.map id f) atLeft
      obtain ⟨⟨_, value⟩, member, alike⟩ := List.mem_map.mp ((same _).mp mapped)
      obtain ⟨rfl, agree⟩ := Prod.mk.inj alike
      rw [← agree, value_unique unique member atRight]
  · intro parts entry
    obtain ⟨keys, agree⟩ := parts
    exact ⟨mem_map_of_agree (fun key => (keys key).mp) agree,
      mem_map_of_agree (fun key => (keys key).mpr)
        fun key r l atRight atLeft => (agree key l r atLeft atRight).symm⟩

end Dict

end Library
