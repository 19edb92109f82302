import AgentFeatures.Json
import AgentFeatures.Library.StableSort

/-! JSON documents up to the order of the fields of their objects. -/

namespace AgentFeatures

open Library

namespace Json

/-- A number: an integer or a finite float. -/
inductive IsNumber : Json → Prop
  | int (value : Int) : IsNumber (int value)
  | float {bits : BitVec 64} (finite : bits.extractLsb' 52 11 ≠ 0x7ff#11) : IsNumber (float bits)

/-- A value of JSON documents: names are unique in each object, and floats are finite. -/
inductive IsDocument : Json → Prop
  | null : IsDocument null
  | bool (value : Bool) : IsDocument (bool value)
  | number {value : Json} (number : IsNumber value) : IsDocument value
  | str (text : String) : IsDocument (str text)
  | arr {items : List Json} (each : ∀ item ∈ items, IsDocument item) : IsDocument (arr items)
  | obj {fields : List (String × Json)} (unique : (fields.map Prod.fst).Nodup)
    (each : ∀ field ∈ fields, IsDocument field.2)
    : IsDocument (obj fields)

/-- Equality up to the order of the fields of objects, at every depth. -/
inductive SameUpToOrder : Json → Json → Prop
  | null : SameUpToOrder null null
  | bool (value : Bool) : SameUpToOrder (bool value) (bool value)
  | int (value : Int) : SameUpToOrder (int value) (int value)
  | float (bits : BitVec 64) : SameUpToOrder (float bits) (float bits)
  | str (text : String) : SameUpToOrder (str text) (str text)
  | arr {left right : List Json} (length : left.length = right.length)
    (each : ∀ (i : Nat) l r, left[i]? = some l → right[i]? = some r → SameUpToOrder l r)
    : SameUpToOrder (arr left) (arr right)
  | obj {left right : List (String × Json)}
    (names : ∀ name, name ∈ left.map Prod.fst ↔ name ∈ right.map Prod.fst)
    (each : ∀ name l r, (name, l) ∈ left → (name, r) ∈ right → SameUpToOrder l r)
    : SameUpToOrder (obj left) (obj right)

mutual

/-- The value with the fields of each object sorted by name. -/
def sortKeys : Json → Json
  | null => null
  | bool value => bool value
  | int value => int value
  | float bits => float bits
  | str text => str text
  | arr items => arr (sortItems items)
  | obj fields => obj ((sortFields fields).insertionSort fun l r => l.1 ≤ r.1)

def sortItems : List Json → List Json
  | [] => []
  | item :: rest => sortKeys item :: sortItems rest

def sortFields : List (String × Json) → List (String × Json)
  | [] => []
  | (name, value) :: rest => (name, sortKeys value) :: sortFields rest

end

-----------------------------------------------------------------------------------------
-- Documents
-----------------------------------------------------------------------------------------

theorem IsDocument.item {items : List Json} (document : IsDocument (.arr items))
    : ∀ item ∈ items, IsDocument item := by
  cases document with
  | number number => cases number
  | arr each => exact each

theorem IsDocument.names {fields : List (String × Json)} (document : IsDocument (.obj fields))
    : (fields.map Prod.fst).Nodup := by
  cases document with
  | number number => cases number
  | obj unique each => exact unique

theorem IsDocument.field {fields : List (String × Json)} (document : IsDocument (.obj fields))
    : ∀ field ∈ fields, IsDocument field.2 := by
  cases document with
  | number number => cases number
  | obj unique each => exact each

-----------------------------------------------------------------------------------------
-- Sorting the fields at every depth
-----------------------------------------------------------------------------------------

theorem sortItems_eq (items : List Json) : sortItems items = items.map sortKeys := by
  induction items with
  | nil => rfl
  | cons item rest ih => simp [sortItems, ih]

theorem sortFields_eq (fields : List (String × Json))
    : sortFields fields = fields.map (Prod.map id sortKeys) := by
  induction fields with
  | nil => rfl
  | cons field rest ih => simp [sortFields, ih, Prod.map]

theorem map_fst_sortFields (fields : List (String × Json))
    : (sortFields fields).map Prod.fst = fields.map Prod.fst := by
  simp [sortFields_eq]

/-- Sorting keeps a document one, by induction on the document. -/
theorem isDocument_sortKeys {value : Json} (document : IsDocument value)
    : IsDocument value.sortKeys := by
  induction document with
  | null => exact .null
  | bool value => exact .bool value
  | number number =>
      cases number with
      | int value => exact .number (.int value)
      | float finite => exact .number (.float finite)
  | str text => exact .str text
  | arr _ ih =>
      simp only [sortKeys, sortItems_eq]
      exact .arr (List.forall_mem_map.mpr ih)
  | @obj fields unique _ ih =>
      simp only [sortKeys]
      have perm := List.perm_insertionSort (fun l r => l.1 ≤ r.1) (sortFields fields)
      refine .obj ((perm.map Prod.fst).nodup_iff.mpr ?_) fun field member => ?_
      · rwa [map_fst_sortFields]
      · have member := perm.mem_iff.mp member
        simp only [sortFields_eq] at member
        obtain ⟨source, atSource, rfl⟩ := List.mem_map.mp member
        exact ih source atSource

/-- Only an array is sorted to an array. -/
theorem eq_arr_of_sortKeys {value : Json} {items : List Json} (sorted : value.sortKeys = arr items)
    : ∃ source, value = arr source := by
  cases value with
  | arr source => exact ⟨source, rfl⟩
  | _ => cases sorted

/-- Only an object is sorted to an object. -/
theorem eq_obj_of_sortKeys {value : Json} {fields : List (String × Json)}
    (sorted : value.sortKeys = obj fields)
    : ∃ source, value = obj source := by
  cases value with
  | obj source => exact ⟨source, rfl⟩
  | _ => cases sorted

/-- A value without parts is sorted to itself, and no other value is. -/
theorem eq_of_sortKeys {part value : Json} (noArray : ∀ items, part ≠ arr items)
    (noObject : ∀ fields, part ≠ obj fields) (same : part.sortKeys = value.sortKeys)
    : part = value := by
  have self : part.sortKeys = part := by
    cases part with
    | arr items => exact absurd rfl (noArray items)
    | obj fields => exact absurd rfl (noObject fields)
    | _ => rfl
  rw [self] at same
  cases value with
  | arr items => exact absurd same (noArray _)
  | obj fields => exact absurd same (noObject _)
  | _ => exact same

/-- Arrays are sorted alike when their items are, place by place. -/
theorem sortKeys_arr_eq_iff {left right : List Json}
    : sortKeys (arr left) = sortKeys (arr right)
      ↔ left.length = right.length
        ∧ ∀ (i : Nat) l r, left[i]? = some l → right[i]? = some r → sortKeys l = sortKeys r := by
  simp only [sortKeys, sortItems_eq, arr.injEq]
  constructor
  · intro same
    refine ⟨by simpa using congrArg List.length same, fun i l r atLeft atRight => ?_⟩
    have at_i := congrArg (fun items => items[i]?) same
    simpa [atLeft, atRight] using at_i
  · intro parts
    obtain ⟨length, agree⟩ := parts
    refine List.ext_getElem (by simpa using length) fun i inLeft inRight => ?_
    rw [List.getElem_map, List.getElem_map]
    exact agree i _ _ (List.getElem?_eq_getElem _) (List.getElem?_eq_getElem _)

/-- Objects are sorted alike when they have the same names with values sorted alike. -/
theorem sortKeys_obj_eq_iff {left right : List (String × Json)}
    (unique : (left.map Prod.fst).Nodup) (unique' : (right.map Prod.fst).Nodup)
    : sortKeys (obj left) = sortKeys (obj right)
      ↔ (∀ name, name ∈ left.map Prod.fst ↔ name ∈ right.map Prod.fst)
        ∧ ∀ name l r, (name, l) ∈ left → (name, r) ∈ right → sortKeys l = sortKeys r := by
  have distinct : ((sortFields left).map Prod.fst).Nodup := by rwa [map_fst_sortFields]
  have distinct' : ((sortFields right).map Prod.fst).Nodup := by rwa [map_fst_sortFields]
  rw [← Dict.mem_map_iff_mem_map unique', ← sortFields_eq, ← sortFields_eq,
    ← insertionSort_eq_iff distinct distinct', sortKeys, sortKeys, obj.injEq]

/-- Documents are sorted alike exactly when they are equal up to the order of fields. Witness:
induction on the left document, and on the equality.
-/
theorem sortKeys_eq_iff {left right : Json} (leftDocument : IsDocument left)
    (rightDocument : IsDocument right)
    : left.sortKeys = right.sortKeys ↔ SameUpToOrder left right := by
  constructor
  · intro same
    induction leftDocument generalizing right with
    | null =>
        cases eq_of_sortKeys (by simp) (by simp) same
        exact .null
    | bool value =>
        cases eq_of_sortKeys (by simp) (by simp) same
        exact .bool value
    | number number =>
        cases number with
        | int value =>
            cases eq_of_sortKeys (by simp) (by simp) same
            exact .int value
        | float _ =>
            cases eq_of_sortKeys (by simp) (by simp) same
            exact .float _
    | str text =>
        cases eq_of_sortKeys (by simp) (by simp) same
        exact .str text
    | arr _ ih =>
        obtain ⟨items, rfl⟩ := eq_arr_of_sortKeys same.symm
        obtain ⟨length, agree⟩ := sortKeys_arr_eq_iff.mp same
        refine .arr length fun i l r atLeft atRight => ?_
        exact ih l (List.mem_of_getElem? atLeft)
          (rightDocument.item r (List.mem_of_getElem? atRight)) (agree i l r atLeft atRight)
    | obj unique _ ih =>
        obtain ⟨fields, rfl⟩ := eq_obj_of_sortKeys same.symm
        obtain ⟨names, agree⟩ := (sortKeys_obj_eq_iff unique rightDocument.names).mp same
        refine .obj names fun name l r atLeft atRight => ?_
        exact ih (name, l) atLeft (rightDocument.field (name, r) atRight)
          (agree name l r atLeft atRight)
  · intro same
    induction same with
    | null => rfl
    | bool value => rfl
    | int value => rfl
    | float bits => rfl
    | str text => rfl
    | arr length _ ih =>
        refine sortKeys_arr_eq_iff.mpr ⟨length, fun i l r atLeft atRight => ?_⟩
        exact ih i l r atLeft atRight (leftDocument.item l (List.mem_of_getElem? atLeft))
          (rightDocument.item r (List.mem_of_getElem? atRight))
    | obj names _ ih =>
        refine (sortKeys_obj_eq_iff leftDocument.names rightDocument.names).mpr
          ⟨names, fun name l r atLeft atRight => ?_⟩
        exact ih name l r atLeft atRight (leftDocument.field (name, l) atLeft)
          (rightDocument.field (name, r) atRight)

-----------------------------------------------------------------------------------------
-- Equality up to order, by constructor
-----------------------------------------------------------------------------------------

theorem sameUpToOrder_str_iff {left right : String}
    : SameUpToOrder (.str left) (.str right) ↔ left = right := by
  constructor
  · intro same
    cases same
    rfl
  · rintro rfl
    exact .str left

/-- Lists of strings are the same only when they are equal, item by item. -/
theorem sameUpToOrder_strings_iff {left right : List String}
    : SameUpToOrder (.arr (left.map .str)) (.arr (right.map .str)) ↔ left = right := by
  constructor
  · intro same
    cases same with
    | arr length each =>
        simp only [List.length_map] at length
        refine List.ext_getElem length fun i inLeft inRight => ?_
        exact sameUpToOrder_str_iff.mp (each i (.str left[i]) (.str right[i]) (by simp) (by simp))
  · rintro rfl
    refine .arr rfl fun i l r atLeft atRight => ?_
    cases atLeft.symm.trans atRight
    obtain ⟨text, -, rfl⟩ := List.mem_map.mp (List.mem_of_getElem? atLeft)
    exact .str text

/-- Objects with the same distinct names in the same order are the same exactly when their values
are, pair by pair. Witness: induction on the fields.
-/
theorem sameUpToOrder_obj_iff {left right : List (String × Json)}
    (names : left.map Prod.fst = right.map Prod.fst) (unique : (left.map Prod.fst).Nodup)
    : SameUpToOrder (.obj left) (.obj right)
      ↔ List.Forall₂ (fun l r => SameUpToOrder l.2 r.2) left right := by
  constructor
  · intro same
    cases same with
    | obj _ each =>
        have length : left.length = right.length := by simpa using congrArg List.length names
        refine List.forall₂_iff_get.mpr ⟨length, fun i inLeft inRight => ?_⟩
        have name : left[i].1 = right[i].1 := by
          have := List.getElem_of_eq names (i := i) (by simpa using inLeft)
          simpa using this
        refine each left[i].1 _ _ (List.getElem_mem inLeft) ?_
        rw [name]
        exact List.getElem_mem inRight
  · intro pairs
    refine .obj (fun name => by rw [names]) fun name l r atLeft atRight => ?_
    induction pairs with
    | nil => exact absurd atLeft List.not_mem_nil
    | @cons first second lefts rights head _ ih =>
        obtain ⟨sameName, sameNames⟩ := List.cons_eq_cons.mp names
        obtain ⟨fresh, distinct⟩ := List.nodup_cons.mp unique
        rcases List.mem_cons.mp atLeft with rfl | inLeft
        · rcases List.mem_cons.mp atRight with rfl | inRight
          · exact head
          · have later := List.mem_map_of_mem (f := Prod.fst) inRight
            rw [← sameNames] at later
            exact absurd later fresh
        · rcases List.mem_cons.mp atRight with rfl | inRight
          · have later := List.mem_map_of_mem (f := Prod.fst) inLeft
            exact absurd (sameName ▸ later) fresh
          · exact ih sameNames distinct inLeft inRight

end Json

end AgentFeatures
