import AgentFeatures.Catalog.Ranges

/-! What comparators denote, however many spaces follow them. -/

namespace AgentFeatures

open Library
open Library.Text

namespace Comparator

/-- The comparator as the documentation of `match_version` writes it. -/
def documented : Comparator → Text
  | eq => ['=']
  | op => op.text

/-- `v` lies where the comparator tells two thresholds apart. -/
def Separates : Comparator → List Nat → List Nat → List Nat → Prop
  | ge, v, below, base => below ≤ v ∧ v < base
  | lt, v, below, base => below ≤ v ∧ v < base
  | gt, v, below, base => below < v ∧ v ≤ base
  | le, v, below, base => below < v ∧ v ≤ base
  | eq, v, below, base => v = below ∨ v = base

/-- Two thresholds compare alike iff they are one, or the comparator does not tell them apart. -/
theorem holds_congr_iff {op : Comparator} {v below base : List Nat} (order : below ≤ base)
    : (op.holds v below = true ↔ op.holds v base = true)
      ↔ below = base ∨ ¬ op.Separates v below base := by
  rcases eq_or_lt_of_le order with rfl | less
  · simp
  · have differ : below ≠ base := ne_of_lt less
    cases op <;> simp only [holds, Separates, decide_eq_true_eq, differ, false_or]
    · grind
    · grind
    · grind
    · grind
    · grind

end Comparator

/-- A comparator, so many spaces, and a base. -/
def comparison (op : Comparator) (spaces : Nat) (base : Release) : Text :=
  op.documented ++ (List.replicate spaces ' ' ++ base.text)

/-- What is parsed as the base does not start with the base's first digit. -/
def Misread (op : Comparator) (spaces : Nat) : Prop := op = .eq ∨ 0 < spaces

/-- The threshold that a misread base is compared as. -/
def Release.withoutMajor (base : Release) : List Nat := [0, base.minor.value, base.patch.value]

/-- A first part that does not consist of digits is read as zero. -/
theorem triple_misread {front : Text} (plain : '.' ∉ front ∧ '-' ∉ front) {c : Char}
    (member : c ∈ front) (noDigit : isDigitChar c = false) (base : Release)
    : triple (front ++ base.text)
      = if base.minor.Short ∧ base.patch.Short then some base.withoutMajor else none := by
  have parts : front ++ base.text
      = ['.'].intercalate [front ++ base.major.digits, base.minor.digits, base.patch.digits] := by
    simp [dotted, List.intercalate_cons_cons]
  have major : versionPart (front ++ base.major.digits) = some 0 :=
    versionPart_eq_zero (List.mem_append_left _ member) noDigit
  have dot (number : Decimal) : '.' ∉ number.digits := number.not_mem rfl
  have dash (number : Decimal) : '-' ∉ number.digits := number.not_mem rfl
  rw [triple, parts, semverKey_intercalate (by simp) (by simp [plain, dot, dash]), List.mapM_cons,
    major]
  by_cases minor : base.minor.Short
  · by_cases patch : base.patch.Short
    · simp [Decimal.versionPart_digits, minor, patch]
      rfl
    · simp [Decimal.versionPart_digits, minor, patch]
  · simp [Decimal.versionPart_digits, minor]

/-- Nothing is stripped from a comparison. -/
theorem strip_comparison (op : Comparator) (spaces : Nat) (base : Release)
    : strip (comparison op spaces base) = comparison op spaces base := by
  obtain ⟨c, front, spelled, visible⟩
      : ∃ c front,
          comparison op spaces base = c :: (front ++ base.text) ∧ isSpace c = false := by
    cases op with
    | ge => exact ⟨'>', '=' :: List.replicate spaces ' ', rfl, rfl⟩
    | le => exact ⟨'<', '=' :: List.replicate spaces ' ', rfl, rfl⟩
    | gt => exact ⟨'>', List.replicate spaces ' ', rfl, rfl⟩
    | lt => exact ⟨'<', List.replicate spaces ' ', rfl, rfl⟩
    | eq => exact ⟨'=', List.replicate spaces ' ', rfl, rfl⟩
  obtain ⟨first, tail, digits, -⟩ := @head_dotted base.major [base.minor, base.patch]
  have filled : base.text ≠ [] := by simp [digits]
  obtain ⟨initial, last, ends⟩ : ∃ initial last, base.text = initial ++ [last] :=
    ⟨_, _, (List.dropLast_append_getLast filled).symm⟩
  have visible' : isSpace last = false := isSpace_dotted (ends ▸ List.mem_concat_self)
  rw [spelled, strip, lstrip_cons visible, ends, ← List.append_assoc, ← List.cons_append, rstrip,
    List.rdropWhile_concat_neg _ _ _ (by simp [visible'])]

/-- Before anything but an `=`, the first comparator that a text starts with is the one it was
written with.
-/
theorem find?_comparator {op : Comparator} (recognised : op ≠ .eq) {c : Char} (noMark : c ≠ '=')
    (tail : Text)
    : Comparator.all.find? (fun other => other.text.isPrefixOf (op.text ++ c :: tail))
      = some op := by
  have unequal : ('=' == c) = false := by simpa using noMark.symm
  cases op <;> simp [Comparator.all, Comparator.text, List.isPrefixOf, unequal] at recognised ⊢

/-- One `=` is no comparator. -/
theorem find?_equals {c : Char} (noMark : c ≠ '=') (tail : Text)
    : Comparator.all.find? (fun other => other.text.isPrefixOf ('=' :: c :: tail)) = none := by
  have unequal : ('=' == c) = false := by simpa using noMark.symm
  simp [Comparator.all, Comparator.text, List.isPrefixOf, unequal]

/-- What follows a comparator does not start with an `=`. -/
theorem spaces_head (spaces : Nat) (base : Release)
    : ∃ c tail, List.replicate spaces ' ' ++ base.text = c :: tail ∧ c ≠ '=' := by
  cases spaces with
  | zero =>
      obtain ⟨c, tail, spelled, digit⟩ := @head_dotted base.major [base.minor, base.patch]
      refine ⟨c, tail, by simpa using spelled, ?_⟩
      intro same
      subst same
      exact absurd digit (by decide)
  | succ spaces => exact ⟨' ', _, rfl, by decide⟩

/-- Of the documented comparators all but `=` are recognised. -/
theorem matchVersion_comparison (version : Text) {op : Comparator} (recognised : op ≠ .eq)
    (spaces : Nat) (base : Release)
    : matchVersion version (comparison op spaces base)
      = (triple version).bind fun v =>
          (triple (List.replicate spaces ' ' ++ base.text)).map fun b => op.holds v b := by
  obtain ⟨c, tail, spelled, noMark⟩ := spaces_head spaces base
  have written : comparison op spaces base = op.text ++ c :: tail := by
    rw [comparison, spelled]
    cases op <;> first | rfl | exact absurd rfl recognised
  have unranged : op.text ++ c :: tail ∉ anyVersion := by
    cases op <;> simp [anyVersion, Comparator.text]
  have noCaret : (op.text ++ c :: tail).head? ≠ some '^' := by
    cases op <;> simp [Comparator.text]
  have noTilde : (op.text ++ c :: tail).head? ≠ some '~' := by
    cases op <;> simp [Comparator.text]
  rw [matchVersion, strip_comparison, written, if_neg unranged, spelled]
  simp only [matchRange, if_neg noCaret, if_neg noTilde, find?_comparator recognised noMark,
    List.drop_left]

/-- The documented `=` is read as part of a bare base. -/
theorem matchVersion_equals (version : Text) (spaces : Nat) (base : Release)
    : matchVersion version (comparison .eq spaces base)
      = (triple version).bind fun v =>
          (triple (comparison .eq spaces base)).map fun b => Comparator.eq.holds v b := by
  obtain ⟨c, tail, spelled, noMark⟩ := spaces_head spaces base
  have written : comparison .eq spaces base = '=' :: c :: tail := by
    rw [comparison, spelled]
    rfl
  rw [matchVersion, strip_comparison, written, if_neg (by simp [anyVersion])]
  simp only [matchRange, List.head?_cons, Option.some.injEq, Char.reduceEq, if_false,
    find?_equals noMark]
  rfl

-----------------------------------------------------------------------------------------
-- Comparisons
-----------------------------------------------------------------------------------------

/-- What is parsed as the base of a comparison. -/
def parsedBase (op : Comparator) (spaces : Nat) (base : Release) : Text :=
  if op = .eq then comparison .eq spaces base else List.replicate spaces ' ' ++ base.text

/-- A comparison compares with what is parsed as its base. -/
theorem matchVersion_parsedBase (version : Text) (op : Comparator) (spaces : Nat)
    (base : Release)
    : matchVersion version (comparison op spaces base)
      = (triple version).bind fun v =>
          (triple (parsedBase op spaces base)).map fun b => op.holds v b := by
  rw [parsedBase]
  split
  · next equals =>
      subst equals
      exact matchVersion_equals version spaces base
  · next recognised => exact matchVersion_comparison version recognised spaces base

/-- A misread base is compared without its major number. -/
theorem triple_parsedBase {op : Comparator} {spaces : Nat} (misread : Misread op spaces)
    (base : Release)
    : triple (parsedBase op spaces base)
      = if base.minor.Short ∧ base.patch.Short then some base.withoutMajor else none := by
  have spacesPlain : '.' ∉ List.replicate spaces ' ' ∧ '-' ∉ List.replicate spaces ' ' := by simp
  rw [parsedBase]
  split
  · have plain : '.' ∉ '=' :: List.replicate spaces ' '
        ∧ '-' ∉ '=' :: List.replicate spaces ' ' := by simp
    exact triple_misread plain List.mem_cons_self (by decide) base
  · next recognised =>
      have positive := misread.resolve_left recognised
      exact triple_misread spacesPlain (List.mem_replicate.mpr ⟨positive.ne', rfl⟩)
        (by decide) base

/-- The comparison returns, with the truth of what its comparator says of the triples. -/
def ComparesAsWritten (op : Comparator) (spaces : Nat) (v base : Release) : Prop :=
  Denotes (matchVersion v.text (comparison op spaces base)) (op.holds v.key base.key = true)

/-- A comparison means what it says iff the numbers it parses are short enough for `int` and, when
it is written with a single `=` or with spaces, the base has major number zero or the version does
not lie between the base and the base with major number zero. Witness: such a base is compared
without its major number.
-/
theorem comparesAsWritten_iff {op : Comparator} {spaces : Nat} {v base : Release}
    : ComparesAsWritten op spaces v base
      ↔ v.Short
        ∧ (base.minor.Short ∧ base.patch.Short)
        ∧ (¬ Misread op spaces → base.major.Short)
        ∧ (Misread op spaces
          → base.major.value = 0 ∨ ¬ op.Separates v.key base.withoutMajor base.key) := by
  have matched := matchVersion_parsedBase v.text op spaces base
  by_cases misread : Misread op spaces
  · have order : base.withoutMajor ≤ base.key := by
      rw [Release.withoutMajor, Release.key, three_le_iff]
      omega
    have zero : base.withoutMajor = base.key ↔ base.major.value = 0 := by
      simp [Release.withoutMajor, Release.key, eq_comm]
    have read := triple_parsedBase misread base
    simp only [misread, not_true_eq_false, false_implies, true_and, true_implies]
    constructor
    · intro denotes
      obtain ⟨short, parsed⟩ := read_of_denotes matched denotes
      have short' : base.minor.Short ∧ base.patch.Short := by
        simpa only [read, Option.isSome_ite] using parsed
      have read := read.trans (if_pos short')
      have congr := (denotes_iff matched short.triple_text read).mp denotes
      rw [Comparator.holds_congr_iff order, zero] at congr
      exact ⟨short, short', congr⟩
    · intro condition
      obtain ⟨short, short', apart⟩ := condition
      have read := read.trans (if_pos short')
      refine (denotes_iff matched short.triple_text read).mpr ?_
      rw [Comparator.holds_congr_iff order, zero]
      exact apart
  · obtain ⟨recognised, none⟩ := not_or.mp misread
    have parsed : parsedBase op spaces base = base.text := by
      rw [parsedBase, if_neg recognised, Nat.eq_zero_of_not_pos none]
      rfl
    rw [parsed] at matched
    simp only [misread, not_false_eq_true, true_implies, false_implies, and_true]
    constructor
    · intro denotes
      obtain ⟨short, read⟩ := read_of_denotes matched denotes
      have short' := short_of_read (by simp) read
      exact ⟨short, ⟨short' _ (by simp), short' _ (by simp)⟩, short' _ (by simp)⟩
    · intro condition
      obtain ⟨short, short', major⟩ := condition
      have short' : base.Short := ⟨major, short'⟩
      exact (denotes_iff matched short.triple_text short'.triple_text).mpr Iff.rfl

/-- A space after `>=` lets `0.2.3` pass for `1.2.3`. -/
theorem spaced_comparison_misread
    : ¬ ∀ (op : Comparator) (spaces : Nat) (v base : Release),
        ComparesAsWritten op spaces v base := by
  intro all
  have written := (all .ge 1 ⟨digit '0' rfl, digit '2' rfl, digit '3' rfl⟩
    oneTwoThree).holds_iff.mp (by decide)
  exact absurd written (by decide)

end AgentFeatures
