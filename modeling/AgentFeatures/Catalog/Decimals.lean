import AgentFeatures.Catalog.Version
import AgentFeatures.Library.Selection

/-! Dotted texts of decimal numbers as version keys. -/

namespace AgentFeatures

open Library
open Library.Text

/-- A decimal number as it is written: at least one decimal digit, of any script. -/
structure Decimal where
  digits : Text
  nonempty : digits ≠ []
  decimal : ∀ c ∈ digits, (digitValue? c).isSome

/-- A part with another character than digits is read as zero. -/
theorem versionPart_eq_zero {part : Text} {c : Char} (member : c ∈ part)
    (noDigit : isDigitChar c = false)
    : versionPart part = some 0 := by
  have noNumber : isdigit part = false := by
    simp only [isdigit, Bool.and_eq_false_iff, List.all_eq_false]
    exact Or.inr ⟨c, member, by simp [noDigit]⟩
  rw [versionPart, noNumber]
  rfl

namespace Decimal

def value (number : Decimal) : Nat :=
  number.digits.foldl (fun value c => value * 10 + (digitValue? c).getD 0) 0

/-- `int` converts the number: it has no more digits than CPython's limit. -/
def Short (number : Decimal) : Prop := number.digits.length ≤ maxStrDigits

instance : DecidablePred Short := fun number =>
  inferInstanceAs (Decidable (number.digits.length ≤ maxStrDigits))

/-- The number that `int` converts its digits to, by induction on the digits. -/
theorem foldlM_digits {digits : Text} (decimal : ∀ c ∈ digits, (digitValue? c).isSome)
    (start : Nat)
    : digits.foldlM (fun value c => (digitValue? c).map fun digit => value * 10 + digit) start
      = some (digits.foldl (fun value c => value * 10 + (digitValue? c).getD 0) start) := by
  induction digits generalizing start with
  | nil => rfl
  | cons c rest ih =>
      obtain ⟨here, later⟩ := List.forall_mem_cons.mp decimal
      obtain ⟨digit, known⟩ := Option.isSome_iff_exists.mp here
      rw [List.foldlM_cons, List.foldl_cons, known, Option.map_some, Option.getD_some]
      exact ih later _

theorem isdigit_digits (number : Decimal) : isdigit number.digits = true := by
  simp only [isdigit, Bool.and_eq_true, Bool.not_eq_true', List.isEmpty_eq_false_iff,
    List.all_eq_true]
  refine ⟨number.nonempty, fun c member => ?_⟩
  simp only [isDigitChar, number.decimal c member, Bool.true_or]

/-- A short number is read as its value; a longer one raises. -/
theorem versionPart_digits (number : Decimal)
    : versionPart number.digits = if number.Short then some number.value else none := by
  simp only [versionPart, number.isdigit_digits, if_true, int?]
  by_cases short : number.Short
  · simp only [if_neg (not_lt.mpr short), if_pos short, foldlM_digits number.decimal, value]
  · simp only [if_pos (not_le.mp short), if_neg short]

/-- A number that is read is read as its value. -/
theorem value_of_read {number : Decimal} {value : Nat}
    (read : versionPart number.digits = some value)
    : value = number.value := by
  simp only [number.versionPart_digits, Option.ite_none_right_eq_some, Option.some.injEq] at read
  exact read.2.symm

/-- A character that stands for no digit is in no number. -/
theorem not_mem (number : Decimal) {c : Char} (noDigit : digitValue? c = none)
    : c ∉ number.digits := by
  intro member
  have digit := number.decimal c member
  simp [noDigit] at digit

/-- Digits are no white space. -/
theorem isSpace_digit {number : Decimal} {c : Char} (member : c ∈ number.digits)
    : isSpace c = false := by
  by_contra space
  have noDigit := not_isDigitChar_of_isSpace (Bool.not_eq_false _ ▸ space)
  simp [isDigitChar, number.decimal c member] at noDigit

end Decimal

-----------------------------------------------------------------------------------------
-- Dotted texts
-----------------------------------------------------------------------------------------

/-- A text of dotted parts holds dots and the characters of its parts, by induction on them. -/
theorem mem_intercalate {parts : List Text} {c : Char} (member : c ∈ ['.'].intercalate parts)
    : c = '.' ∨ ∃ part ∈ parts, c ∈ part := by
  induction parts with
  | nil => simp at member
  | cons first rest ih =>
      cases rest with
      | nil => exact Or.inr ⟨first, List.mem_cons_self, by simpa using member⟩
      | cons second rest =>
          rw [List.intercalate_cons_cons, List.append_assoc] at member
          rcases List.mem_append.mp member with here | later
          · exact Or.inr ⟨first, List.mem_cons_self, here⟩
          · rcases List.mem_cons.mp later with dot | later
            · exact Or.inl dot
            · rcases ih later with dot | ⟨part, inRest, inPart⟩
              · exact Or.inl dot
              · exact Or.inr ⟨part, List.mem_cons_of_mem _ inRest, inPart⟩

/-- What stands between separators is a part of the text, by list induction. -/
theorem subset_of_mem_splitOn {sep : Char} {text part : Text} (member : part ∈ text.splitOn sep)
    : part ⊆ text := by
  induction text generalizing part with
  | nil => simp_all
  | cons head rest ih =>
      rw [List.splitOn_cons_eq_if_modifyHead] at member
      cases split : rest.splitOn sep with
      | nil => exact absurd split (List.splitOn_ne_nil sep rest)
      | cons first others =>
          have firstPart : first ⊆ rest := ih (split ▸ List.mem_cons_self)
          have otherPart {other : Text} (inOthers : other ∈ others) : other ⊆ rest :=
            ih (split ▸ List.mem_cons_of_mem first inOthers)
          rw [split] at member
          by_cases here : (head == sep) = true
          · rw [if_pos here] at member
            rcases List.mem_cons.mp member with rfl | member
            · exact List.nil_subset _
            · rcases List.mem_cons.mp member with rfl | member
              · exact List.subset_cons_of_subset head firstPart
              · exact List.subset_cons_of_subset head (otherPart member)
          · rw [if_neg here, List.modifyHead_cons] at member
            rcases List.mem_cons.mp member with rfl | member
            · exact List.cons_subset_cons head firstPart
            · exact List.subset_cons_of_subset head (otherPart member)

/-- A text without separators in front is in front of the first part, by list induction. -/
theorem splitOn_front {sep : Char} {front : Text} (absent : sep ∉ front) (tail : Text)
    : ∃ rest more, (front ++ tail).splitOn sep = (front ++ rest) :: more := by
  induction front with
  | nil =>
      obtain ⟨rest, more, split⟩ := List.exists_cons_of_ne_nil (List.splitOn_ne_nil sep tail)
      exact ⟨rest, more, split⟩
  | cons head front ih =>
      obtain ⟨rest, more, split⟩ := ih (List.not_mem_of_not_mem_cons absent)
      have differs : (head == sep) = false := by
        simpa using (List.ne_of_not_mem_cons absent).symm
      refine ⟨rest, more, ?_⟩
      rw [List.cons_append, List.splitOn_cons_eq_if_modifyHead, differs, split]
      rfl

/-- The key of dotted parts that hold no dot and no dash is read part by part. -/
theorem semverKey_intercalate {parts : List Text} (nonempty : parts ≠ [])
    (plain : ∀ part ∈ parts, '.' ∉ part ∧ '-' ∉ part)
    : semverKey (['.'].intercalate parts) = parts.mapM versionPart := by
  have noDash : (['.'].intercalate parts).takeWhile (· != '-') = ['.'].intercalate parts := by
    refine List.takeWhile_eq_self_iff.mpr fun c member => bne_iff_ne.mpr fun dash => ?_
    subst dash
    rcases mem_intercalate member with dot | ⟨part, inParts, inPart⟩
    · exact absurd dot (by decide)
    · exact (plain part inParts).2 inPart
  rw [semverKey, noDash,
    List.splitOn_intercalate '.' (fun part member => (plain part member).1) nonempty]

/-- `M.m.p` for the numbers `M`, `m` and `p`, and so on. -/
def dotted (numbers : List Decimal) : Text :=
  ['.'].intercalate (numbers.map Decimal.digits)

section Dotted

variable {numbers : List Decimal}

/-- A dotted text holds dots and the digits of its numbers. -/
theorem mem_dotted {c : Char} (member : c ∈ dotted numbers)
    : c = '.' ∨ ∃ number : Decimal, c ∈ number.digits := by
  rcases mem_intercalate member with dot | ⟨part, inParts, inPart⟩
  · exact Or.inl dot
  · obtain ⟨number, -, rfl⟩ := List.mem_map.mp inParts
    exact Or.inr ⟨number, inPart⟩

/-- A dotted text starts with a digit. -/
theorem head_dotted {first : Decimal} {rest : List Decimal}
    : ∃ c tail, dotted (first :: rest) = c :: tail ∧ (digitValue? c).isSome := by
  obtain ⟨c, tail, digits⟩ := List.exists_cons_of_ne_nil first.nonempty
  have decimal := first.decimal c (digits ▸ List.mem_cons_self)
  cases rest with
  | nil => exact ⟨c, tail, by simpa [dotted] using digits, decimal⟩
  | cons second rest =>
      have spelled : dotted (first :: second :: rest)
          = c :: (tail ++ '.' :: dotted (second :: rest)) := by
        simp [dotted, List.intercalate_cons_cons, digits]
      exact ⟨c, _, spelled, decimal⟩

/-- No white space stands in a dotted text. -/
theorem isSpace_dotted {c : Char} (member : c ∈ dotted numbers) : isSpace c = false := by
  rcases mem_dotted member with rfl | ⟨number, inDigits⟩
  · rfl
  · exact Decimal.isSpace_digit inDigits

/-- Splitting a dotted text at its dots gives its numbers. -/
theorem splitOn_dotted (nonempty : numbers ≠ [])
    : (dotted numbers).splitOn '.' = numbers.map Decimal.digits := by
  refine List.splitOn_intercalate '.' (fun part member => ?_) (by simpa using nonempty)
  obtain ⟨number, -, rfl⟩ := List.mem_map.mp member
  exact number.not_mem rfl

/-- The key of a dotted text is that of its numbers, if they are short. -/
theorem semverKey_dotted (nonempty : numbers ≠ [])
    : semverKey (dotted numbers)
      = if ∀ number ∈ numbers, number.Short then some (numbers.map Decimal.value) else none := by
  have plain : ∀ part ∈ numbers.map Decimal.digits, '.' ∉ part ∧ '-' ∉ part := by
    intro part member
    obtain ⟨number, -, rfl⟩ := List.mem_map.mp member
    exact ⟨number.not_mem rfl, number.not_mem rfl⟩
  rw [dotted, semverKey_intercalate (by simpa using nonempty) plain, List.mapM_map]
  split
  · next short =>
      refine mapM_of_eq_some fun number member => ?_
      simp only [Function.comp_apply, Decimal.versionPart_digits, if_pos (short number member)]
  · next long =>
      rw [← Option.not_isSome_iff_eq_none, mapM_isSome_iff]
      intro all
      refine long fun number member => ?_
      have read := all number member
      simpa only [Function.comp_apply, Decimal.versionPart_digits, Option.isSome_ite] using read

/-- The triple of a dotted text of short numbers. -/
theorem triple_dotted (nonempty : numbers ≠ [])
    : triple (dotted numbers)
      = if ∀ number ∈ numbers, number.Short then some (padded 3 (numbers.map Decimal.value))
        else none := by
  rw [triple, semverKey_dotted nonempty]
  split <;> rfl

end Dotted

end AgentFeatures
