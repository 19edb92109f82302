import AgentFeatures.Library.Text

/-! Version keys and version ranges. A `none` result is a `ValueError` of `int`. -/

namespace AgentFeatures

open Library
open Library.Text

/-- One dotted part: `int(p) if p.isdigit() else 0`. -/
def versionPart (part : Text) : Option Nat := if isdigit part then int? part else some 0

/-- Parses `x.y.z` into comparable parts; what follows the first `-` is dropped. -/
def semverKey (version : Text) : Option (List Nat) :=
  ((version.takeWhile (· != '-')).splitOn '.').mapM versionPart

/-- The first `size` parts, padded with zeros. -/
def padded (size : Nat) (key : List Nat) : List Nat := (key ++ List.replicate size 0).take size

/-- Normalizes a version to (major, minor, patch), compared as a tuple. -/
def triple (version : Text) : Option (List Nat) := (semverKey version).map (padded 3)

/-- The exclusive upper bound of a caret range. -/
def caretUpper : List Nat → List Nat
  | [major, minor, patch] =>
      if major > 0 then [major + 1, 0, 0]
      else if minor > 0 then [0, minor + 1, 0]
      else [0, 0, patch + 1]
  | base => base

/-- The exclusive upper bound of a tilde range written with `comps` dotted parts. -/
def tildeUpper (comps : Nat) : List Nat → List Nat
  | major :: minor :: _ => if comps ≥ 2 then [major, minor + 1, 0] else [major + 1, 0, 0]
  | base => base

/-- The comparators in the order `match_version` tries them. -/
inductive Comparator where
  | ge
  | le
  | gt
  | lt
  | eq
deriving DecidableEq

namespace Comparator

def all : List Comparator := [ge, le, gt, lt, eq]

def text : Comparator → Text
  | ge => ['>', '=']
  | le => ['<', '=']
  | gt => ['>']
  | lt => ['<']
  | eq => ['=', '=']

def holds : Comparator → List Nat → List Nat → Bool
  | ge, v, base => base ≤ v
  | le, v, base => v ≤ base
  | gt, v, base => base < v
  | lt, v, base => v < base
  | eq, v, base => v = base

end Comparator

/-- The specs that any version satisfies. -/
def anyVersion : List Text := [[], ['*'], ['l', 'a', 't', 'e', 's', 't'], ['x'], ['X']]

/-- Whether `v` satisfies a stripped spec that does not accept any version. -/
def matchRange (v : List Nat) (spec : Text) : Option Bool :=
  if spec.head? = some '^' then
    (triple spec.tail).map fun base => base ≤ v && v < caretUpper base
  else if spec.head? = some '~' then
    (triple spec.tail).map fun base =>
      base ≤ v && v < tildeUpper (spec.tail.splitOn '.').length base
  else
    match Comparator.all.find? fun op => op.text.isPrefixOf spec with
    | some op => (triple (spec.drop op.text.length)).map (op.holds v)
    | none => (triple spec).map fun base => v = base

/-- Does `version` satisfy `spec`? -/
def matchVersion (version spec : Text) : Option Bool :=
  let spec := strip spec
  if spec ∈ anyVersion then some true else (triple version).bind fun v => matchRange v spec

example : matchVersion "0.2.5".toList "^0.2.0".toList = some true := by decide

/-- `tuple(-n for n in key)`, which sorts newer versions first. -/
def negated (key : List Nat) : List Int := key.map fun (part : Nat) => -(part : Int)

theorem padded_cons (size part : Nat) (rest : List Nat)
    : padded (size + 1) (part :: rest) = part :: padded size rest := by
  simp only [padded, List.cons_append, List.take_succ_cons, List.cons.injEq, true_and,
    List.replicate_succ', ← List.append_assoc]
  rw [List.take_append_of_le_length]
  simp

/-- Tuples compare by their first parts, then by the rest. -/
theorem cons_le_cons_iff_lex {α : Type} [LinearOrder α] {a b : α} {rest other : List α}
    : a :: rest ≤ b :: other ↔ a < b ∨ a = b ∧ rest ≤ other := by
  rw [← not_lt, List.cons_lt_cons_iff, ← @not_lt _ _ other rest]
  constructor
  · intro h
    rcases lt_trichotomy a b with less | rfl | greater
    · exact Or.inl less
    · exact Or.inr ⟨rfl, fun later => h (Or.inr ⟨rfl, later⟩)⟩
    · exact absurd (Or.inl greater) h
  · rintro (less | ⟨rfl, order⟩) (greater | ⟨same, later⟩)
    · exact lt_asymm less greater
    · exact absurd same (ne_of_gt less)
    · exact lt_irrefl _ greater
    · exact order later

/-- Raising the last part raises the padded key, by induction on the padded size. -/
theorem padded_concat_le (size : Nat) (parts : List Nat) (last : Nat)
    : padded size (parts ++ [0]) ≤ padded size (parts ++ [last]) := by
  induction size generalizing parts with
  | zero => simp [padded]
  | succ size ih =>
      cases parts with
      | nil =>
          rw [List.nil_append, List.nil_append, padded_cons, padded_cons, cons_le_cons_iff_lex]
          rcases Nat.eq_zero_or_pos last with rfl | positive
          · exact Or.inr ⟨rfl, le_refl _⟩
          · exact Or.inl positive
      | cons part rest =>
          rw [List.cons_append, List.cons_append, padded_cons, padded_cons,
            cons_le_cons_iff_lex]
          exact Or.inr ⟨rfl, ih rest⟩

/-- When the raw order puts `left` first although `right` is newer as a padded key, `left`
is a proper prefix of `right` with too few parts. Witness: induction on the padded size;
a first difference inside both keys would order them alike in both views.
-/
theorem prefix_of_shadowed {size : Nat} {left right : List Nat}
    (order : negated left ≤ negated right) (newer : padded size left < padded size right)
    : left <+: right ∧ left.length < size := by
  induction size generalizing left right with
  | zero => simp [padded] at newer
  | succ size ih =>
      cases left with
      | nil => exact ⟨List.nil_prefix, Nat.succ_pos size⟩
      | cons part rest =>
          cases right with
          | nil => exact absurd order (not_le_of_gt (List.nil_lt_cons _ _))
          | cons other later =>
              rw [negated, List.map_cons, negated, List.map_cons, cons_le_cons_iff_lex] at order
              rw [padded_cons, padded_cons, List.cons_lt_cons_iff] at newer
              have same : part = other := by
                rcases order with smaller | ⟨same, -⟩ <;> rcases newer with larger | ⟨same', -⟩
                  <;> omega
              subst same
              obtain ⟨initial, short⟩ := ih (order.resolve_left (lt_irrefl _)).2
                (newer.resolve_left (lt_irrefl _)).2
              exact ⟨by simpa using initial, by simpa using short⟩

/-- Spaces after a text without them only lengthen its last dotted part, by list induction. -/
theorem splitOn_append {sep : Char} (text tail : Text) (absent : sep ∉ tail)
    : ∃ initial last,
        text.splitOn sep = initial ++ [last]
        ∧ (text ++ tail).splitOn sep = initial ++ [last ++ tail] := by
  induction text with
  | nil => exact ⟨[], [], by simp, by simp [List.splitOn_eq_singleton absent]⟩
  | cons head rest ih =>
      obtain ⟨initial, last, split, extended⟩ := ih
      simp only [List.cons_append, List.splitOn_cons_eq_if_modifyHead, split, extended]
      by_cases here : (head == sep) = true
      · exact ⟨[] :: initial, last, by simp [here], by simp [here]⟩
      · cases initial with
        | nil => exact ⟨[], head :: last, by simp [here], by simp [here]⟩
        | cons first others =>
            exact ⟨(head :: first) :: others, last, by simp [here], by simp [here]⟩

/-- Mapping a list and one more item succeeds with the parts' results. -/
theorem mapM_concat {α β : Type} {f : α → Option β} {items : List α} {item : α}
    {results : List β} (h : (items ++ [item]).mapM f = some results)
    : ∃ initial last,
        items.mapM f = some initial ∧ f item = some last ∧ results = initial ++ [last] := by
  rw [List.mapM_append] at h
  obtain ⟨initial, first, h⟩ := Option.bind_eq_some_iff.mp h
  obtain ⟨rest, second, h⟩ := Option.bind_eq_some_iff.mp h
  rw [List.mapM_cons, List.mapM_nil] at second
  obtain ⟨last, value, second⟩ := Option.bind_eq_some_iff.mp second
  cases second
  cases h
  exact ⟨initial, last, first, value, rfl⟩

/-- Stripping trailing spaces from a version never lowers its padded key: the last part
may turn from a non-number into a number. -/
theorem padded_rstrip {version : Text} {key stripped : List Nat}
    (raw : semverKey version = some key) (cut : semverKey (rstrip version) = some stripped)
    : padded 3 key ≤ padded 3 stripped := by
  obtain ⟨tail, split, spaces⟩
      : ∃ tail, version = rstrip version ++ tail ∧ ∀ c ∈ tail, isSpace c = true :=
    ⟨version.rtakeWhile isSpace, (List.rdropWhile_append_rtakeWhile ..).symm,
      fun c member => List.mem_rtakeWhile_imp member⟩
  generalize rstrip version = text at split cut
  subst split
  have noDash : ∀ c ∈ tail, (c != '-') = true := by
    intro c member
    rw [bne_iff_ne]
    intro same
    subst same
    exact absurd (spaces _ member) (by decide)
  have noDot : '.' ∉ tail := fun member => absurd (spaces _ member) (by decide)
  by_cases dashed : ∀ c ∈ text, (c != '-') = true
  · rw [semverKey, List.takeWhile_append_of_pos dashed,
      List.takeWhile_eq_self_iff.mpr noDash] at raw
    rw [semverKey, List.takeWhile_eq_self_iff.mpr dashed] at cut
    obtain ⟨initial, last, split, extended⟩ := splitOn_append text tail noDot
    rw [extended] at raw
    rw [split] at cut
    obtain ⟨parts, rawLast, known, rawValue, rfl⟩ := mapM_concat raw
    obtain ⟨parts', cutLast, known', cutValue, rfl⟩ := mapM_concat cut
    cases known.symm.trans known'
    cases tail with
    | nil =>
        rw [List.append_nil] at rawValue
        cases rawValue.symm.trans cutValue
        exact le_refl _
    | cons c rest =>
        have notDigits : isdigit (last ++ c :: rest) = false := by
          simp [isdigit, not_isDigitChar_of_isSpace (spaces c (by simp))]
        rw [versionPart, notDigits] at rawValue
        cases rawValue
        exact padded_concat_le 3 parts cutLast
  · have shorter : (text.takeWhile (· != '-')).length ≠ text.length := by
      intro full
      have cut : text.takeWhile (· != '-') <+: text := List.takeWhile_prefix _
      have whole := cut.eq_of_length full
      exact dashed (List.takeWhile_eq_self_iff.mp whole)
    have same : (text ++ tail).takeWhile (· != '-') = text.takeWhile (· != '-') := by
      rw [List.takeWhile_append, if_neg shorter]
    rw [semverKey, same] at raw
    cases raw.symm.trans cut
    exact le_refl _

/-- `'>' + other` compares with the right-stripped text, unless that spells `>=`. -/
theorem matchVersion_gt {version other : Text} (plain : other.head? ≠ some '=')
    : matchVersion version ('>' :: other)
      = (triple version).bind fun v =>
          (triple (rstrip other)).map fun base => decide (base < v) := by
  have stripped : strip ('>' :: other) = '>' :: rstrip other := by
    rw [strip, lstrip_cons (by decide), rstrip_cons (by decide)]
  have notEq : (['='] : Text).isPrefixOf (rstrip other) = false := by
    cases cut : rstrip other with
    | nil => rfl
    | cons head rest =>
        obtain ⟨tail, rejoined⟩ : rstrip other <+: other := List.rdropWhile_prefix _ _
        rw [cut] at rejoined
        subst rejoined
        simpa [List.isPrefixOf] using fun same : '=' = head => plain (by simp [← same])
  have picked : Comparator.all.find? (fun op => op.text.isPrefixOf ('>' :: rstrip other))
      = some .gt := by
    simp [Comparator.all, Comparator.text, notEq, List.isPrefixOf]
  rw [matchVersion, stripped, if_neg (by simp [anyVersion])]
  simp only [matchRange, List.head?_cons, Option.some.injEq, Char.reduceEq, if_false, picked]
  rfl

end AgentFeatures
