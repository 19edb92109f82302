import AgentFeatures.Catalog.Decimals

/-! What caret, tilde and exact ranges denote, for versions of decimal numbers. -/

namespace AgentFeatures

open Library
open Library.Text

/-- A version of three decimal numbers. -/
structure Release where
  major : Decimal
  minor : Decimal
  patch : Decimal

namespace Release

/-- `M.m.p`. -/
abbrev text (release : Release) : Text := dotted [release.major, release.minor, release.patch]

def key (release : Release) : List Nat :=
  [release.major.value, release.minor.value, release.patch.value]

/-- `int` converts all three numbers. -/
def Short (release : Release) : Prop :=
  release.major.Short ∧ release.minor.Short ∧ release.patch.Short

instance : DecidablePred Short := fun release =>
  inferInstanceAs (Decidable (release.major.Short ∧ release.minor.Short ∧ release.patch.Short))

/-- The triple of a release is its key, unless a number is too long. -/
theorem triple_text (release : Release)
    : triple release.text = if release.Short then some release.key else none := by
  rw [triple_dotted (by simp)]
  simp only [List.forall_mem_cons, List.not_mem_nil, false_implies, implies_true, and_true, Short]
  rfl

/-- The triple of a short release is its key. -/
theorem Short.triple_text {release : Release} (short : release.Short)
    : triple release.text = some release.key :=
  release.triple_text.trans (if_pos short)

end Release

/-- A missing patch number is read as zero. -/
theorem triple_minor {major minor : Decimal} (short : major.Short) (short' : minor.Short)
    : triple (dotted [major, minor]) = some [major.value, minor.value, 0] :=
  (triple_dotted (by simp)).trans (if_pos (by simp [short, short']))

/-- Missing minor and patch numbers are read as zero. -/
theorem triple_major {major : Decimal} (short : major.Short)
    : triple (dotted [major]) = some [major.value, 0, 0] :=
  (triple_dotted (by simp)).trans (if_pos (by simp [short]))

/-- A base that is read has short numbers only. -/
theorem short_of_read {numbers : List Decimal} (nonempty : numbers ≠ [])
    (read : (triple (dotted numbers)).isSome)
    : ∀ number ∈ numbers, number.Short := by
  simpa only [triple_dotted nonempty, Option.isSome_ite] using read

/-- The match returns, with the truth of `P`. -/
def Denotes (outcome : Option Bool) (P : Prop) : Prop :=
  ∃ answer, outcome = some answer ∧ (answer = true ↔ P)

theorem denotes_some_iff {answer : Bool} {P : Prop}
    : Denotes (some answer) P ↔ (answer = true ↔ P) := by
  simp [Denotes]

/-- A match that denotes `P` holds iff `P` does. -/
theorem Denotes.holds_iff {outcome : Option Bool} {P : Prop} (denotes : Denotes outcome P)
    : outcome = some true ↔ P := by
  obtain ⟨answer, rfl, truth⟩ := denotes
  simpa only [Option.some.injEq] using truth

section Matched

variable {version base : Text} {outcome : Option Bool} {compare : List Nat → List Nat → Bool}
variable {P : Prop}

/-- A match of texts that are read denotes what the comparison says. -/
theorem denotes_iff
    (matched : outcome = (triple version).bind fun v => (triple base).map fun b => compare v b)
    {v b : List Nat} (read : triple version = some v) (read' : triple base = some b)
    : Denotes outcome P ↔ (compare v b = true ↔ P) := by
  simp only [matched, read, read', Option.bind_some, Option.map_some, denotes_some_iff]

/-- A match that returns has read both texts. -/
theorem isSome_of_denotes
    (matched : outcome = (triple version).bind fun v => (triple base).map fun b => compare v b)
    (denotes : Denotes outcome P)
    : (triple version).isSome ∧ (triple base).isSome := by
  obtain ⟨answer, returned, -⟩ := denotes
  obtain ⟨key, read, compared⟩ := Option.bind_eq_some_iff.mp (matched.symm.trans returned)
  obtain ⟨b, read', -⟩ := Option.map_eq_some_iff.mp compared
  simp only [read, read', Option.isSome_some, and_self]

/-- A match of a release that returns has read its numbers and the base. -/
theorem read_of_denotes {v : Release}
    (matched : outcome = (triple v.text).bind fun v => (triple base).map fun b => compare v b)
    (denotes : Denotes outcome P)
    : v.Short ∧ (triple base).isSome := by
  obtain ⟨read, read'⟩ := isSome_of_denotes matched denotes
  have short : v.Short := by simpa only [v.triple_text, Option.isSome_ite] using read
  exact ⟨short, read'⟩

end Matched

-----------------------------------------------------------------------------------------
-- The bounds of a range
-----------------------------------------------------------------------------------------

section Spec

variable {version : Text} {numbers : List Decimal}

/-- Nothing is stripped from a mark and a base. -/
theorem strip_mark {mark : Char} (visible : isSpace mark = false)
    : strip (mark :: dotted numbers) = mark :: dotted numbers := by
  refine strip_eq fun c member => ?_
  rcases List.mem_cons.mp member with rfl | member
  · exact visible
  · exact isSpace_dotted member

/-- A caret range compares with the base and with its upper bound. -/
theorem matchVersion_caret
    : matchVersion version ('^' :: dotted numbers)
      = (triple version).bind fun v =>
          (triple (dotted numbers)).map fun base => base ≤ v && v < caretUpper base := by
  rw [matchVersion, strip_mark rfl, if_neg (by simp [anyVersion])]
  simp only [matchRange, List.head?_cons, List.tail_cons, if_true]

/-- A tilde range compares with the base and with the upper bound for its number of parts. -/
theorem matchVersion_tilde (nonempty : numbers ≠ [])
    : matchVersion version ('~' :: dotted numbers)
      = (triple version).bind fun v =>
          (triple (dotted numbers)).map fun base =>
            base ≤ v && v < tildeUpper numbers.length base := by
  rw [matchVersion, strip_mark rfl, if_neg (by simp [anyVersion])]
  simp only [matchRange, List.head?_cons, List.tail_cons, Option.some.injEq, Char.reduceEq,
    if_false, if_true, splitOn_dotted nonempty, List.length_map]

/-- A text without spaces that starts with a digit is compared for equality. Witness: no range and
no comparator starts with a digit.
-/
theorem matchVersion_bare {spec : Text} (visible : ∀ c ∈ spec, isSpace c = false)
    (starts : ∃ c tail, spec = c :: tail ∧ (digitValue? c).isSome)
    : matchVersion version spec
      = (triple version).bind fun v => (triple spec).map fun base => decide (v = base) := by
  obtain ⟨c, tail, spelled, digit⟩ := starts
  have differs (other : Char) (noDigit : digitValue? other = none) : c ≠ other := by
    intro same
    simp [same, noDigit] at digit
  have ranged : spec ∉ anyVersion := by
    simp [anyVersion, spelled, differs '*' rfl, differs 'l' rfl,
      differs 'x' rfl, differs 'X' rfl]
  have unmarked (mark : Char) (noDigit : digitValue? mark = none) : spec.head? ≠ some mark := by
    simp [spelled, differs mark noDigit]
  have bare : Comparator.all.find? (fun op => op.text.isPrefixOf spec) = none := by
    simp [Comparator.all, Comparator.text, spelled, List.isPrefixOf,
      (differs '>' rfl).symm, (differs '<' rfl).symm,
      (differs '=' rfl).symm]
  rw [matchVersion, strip_eq visible, if_neg ranged]
  simp only [matchRange, if_neg (unmarked '^' rfl), if_neg (unmarked '~' rfl),
    bare]

/-- A bare dotted text is compared for equality. -/
theorem matchVersion_dotted (nonempty : numbers ≠ [])
    : matchVersion version (dotted numbers)
      = (triple version).bind fun v =>
          (triple (dotted numbers)).map fun base => decide (v = base) := by
  obtain ⟨first, rest, rfl⟩ := List.exists_cons_of_ne_nil nonempty
  exact matchVersion_bare (fun c member => isSpace_dotted member) head_dotted

end Spec

theorem three_le_iff {a b c x y z : Nat}
    : [a, b, c] ≤ [x, y, z] ↔ a < x ∨ a = x ∧ (b < y ∨ b = y ∧ c ≤ z) := by
  simp only [cons_le_cons_iff_lex, le_refl, and_true, ← le_iff_lt_or_eq]

theorem three_lt_iff {a b c x y z : Nat}
    : [a, b, c] < [x, y, z] ↔ a < x ∨ a = x ∧ (b < y ∨ b = y ∧ c < z) := by
  simp [List.cons_lt_cons_iff]

/-- `v` agrees with the base on every component up to and including the left-most one that is not
zero, and on all of them when none is.
-/
def AgreesToNonzero : List Nat → List Nat → Prop
  | [], [] => True
  | b :: base, c :: v => c = b ∧ (b = 0 → AgreesToNonzero base v)
  | _, _ => False

/-- Below its upper bound a caret range holds the versions that agree with the base up to its
left-most component that is not zero. Witness: which component that is.
-/
theorem caret_iff {a b c x y z : Nat}
    : (decide ([x, y, z] ≤ [a, b, c]) && decide ([a, b, c] < caretUpper [x, y, z])) = true
      ↔ [x, y, z] ≤ [a, b, c] ∧ AgreesToNonzero [x, y, z] [a, b, c] := by
  simp only [Bool.and_eq_true, decide_eq_true_eq, three_le_iff]
  simp only [caretUpper, AgreesToNonzero, implies_true, and_true]
  split
  · simp only [three_lt_iff]
    omega
  · split
    · simp only [three_lt_iff]
      omega
    · simp only [three_lt_iff]
      omega

/-- Below its upper bound a tilde range with a minor number holds the later patches of that
minor version.
-/
theorem tilde_iff {a b c x y z comps : Nat} (minor : comps ≥ 2)
    : (decide ([x, y, z] ≤ [a, b, c]) && decide ([a, b, c] < tildeUpper comps [x, y, z])) = true
      ↔ [x, y, z] ≤ [a, b, c] ∧ a = x ∧ b = y := by
  simp only [Bool.and_eq_true, decide_eq_true_eq, tildeUpper, if_pos minor, three_le_iff,
    three_lt_iff]
  omega

/-- Below its upper bound a tilde range without one holds the versions of its major number. -/
theorem tildeMajor_iff {a b c x : Nat}
    : (decide ([x, 0, 0] ≤ [a, b, c]) && decide ([a, b, c] < tildeUpper 1 [x, 0, 0])) = true
      ↔ a = x := by
  have noMinor : ¬ 1 ≥ 2 := by omega
  simp only [Bool.and_eq_true, decide_eq_true_eq, tildeUpper, if_neg noMinor, three_le_iff,
    three_lt_iff]
  omega

-----------------------------------------------------------------------------------------
-- Caret, tilde and exact ranges
-----------------------------------------------------------------------------------------

/-- The ranges over a base denote what is documented for them. -/
structure DocumentedRanges (v base : Release) : Prop where
  caret
    : Denotes (matchVersion v.text ('^' :: base.text))
        (base.key ≤ v.key ∧ AgreesToNonzero base.key v.key)
  tilde
    : Denotes (matchVersion v.text ('~' :: base.text))
        (base.key ≤ v.key
          ∧ v.major.value = base.major.value
          ∧ v.minor.value = base.minor.value)
  tildeMinor
    : Denotes (matchVersion v.text ('~' :: dotted [base.major, base.minor]))
        (v.major.value = base.major.value ∧ v.minor.value = base.minor.value)
  tildeMajor
    : Denotes (matchVersion v.text ('~' :: dotted [base.major]))
        (v.major.value = base.major.value)
  exact : Denotes (matchVersion v.text base.text) (v.key = base.key)

/-- Matches that return have read all numbers. -/
theorem DocumentedRanges.short {v base : Release} (ranges : DocumentedRanges v base)
    : v.Short ∧ base.Short := by
  obtain ⟨short, read⟩ := read_of_denotes matchVersion_caret ranges.caret
  have short' := short_of_read (by simp) read
  exact ⟨short, short' _ (by simp), short' _ (by simp), short' _ (by simp)⟩

/-- A caret range over a base that is read. -/
theorem denotes_caret {v base : Release} (short : v.Short) (short' : base.Short)
    : Denotes (matchVersion v.text ('^' :: base.text))
        (base.key ≤ v.key ∧ AgreesToNonzero base.key v.key) :=
  (denotes_iff matchVersion_caret short.triple_text short'.triple_text).mpr caret_iff

/-- The ranges over a base denote what is documented for them iff no number of the version and of
the base is too long for `int`. Witness: which component of the base is the left-most one that is
not zero.
-/
theorem documentedRanges_iff {v base : Release}
    : DocumentedRanges v base ↔ v.Short ∧ base.Short := by
  constructor
  · exact DocumentedRanges.short
  · intro short
    obtain ⟨short, short'⟩ := short
    have read := short.triple_text
    have full := short'.triple_text
    have minorBase := triple_minor short'.1 short'.2.1
    have majorBase := triple_major short'.1
    constructor
    · exact denotes_caret short short'
    · exact (denotes_iff (matchVersion_tilde (by simp)) read full).mpr (tilde_iff (by simp))
    · refine (denotes_iff (matchVersion_tilde (by simp)) read minorBase).mpr ?_
      refine (tilde_iff (by simp)).trans ?_
      simp only [three_le_iff]
      omega
    · exact (denotes_iff (matchVersion_tilde (by simp)) read majorBase).mpr tildeMajor_iff
    · exact (denotes_iff (matchVersion_dotted (by simp)) read full).mpr decide_eq_true_iff

/-- The decimal number of one digit. -/
def digit (c : Char) (decimal : (digitValue? c).isSome) : Decimal where
  digits := [c]
  nonempty := by simp
  decimal := by simpa using decimal

/-- `1.2.3`. -/
def oneTwoThree : Release where
  major := digit '1' rfl
  minor := digit '2' rfl
  patch := digit '3' rfl

/-- A number that is one digit too long for `int`. -/
def overlong : Decimal where
  digits := List.replicate (maxStrDigits + 1) '1'
  nonempty := by simp
  decimal c member := by
    rw [List.eq_of_mem_replicate member]
    decide

/-- A version of overlong numbers does not match itself: the match raises. -/
theorem overlong_not_documented : ¬ ∀ v base : Release, DocumentedRanges v base := by
  intro all
  have short := (all ⟨overlong, overlong, overlong⟩ oneTwoThree).short.1.1
  simp only [Decimal.Short, overlong, List.length_replicate] at short
  omega

-----------------------------------------------------------------------------------------
-- Caret ranges over fewer numbers
-----------------------------------------------------------------------------------------

/-- Caret ranges over one and two numbers denote what the npm rule says, and leaving out the last
number of a base loses no version.
-/
structure NpmCarets (v : Release) (major minor : Decimal) : Prop where
  caretMajor
    : Denotes (matchVersion v.text ('^' :: dotted [major])) (v.major.value = major.value)
  caretMinor
    : Denotes (matchVersion v.text ('^' :: dotted [major, minor]))
        (v.major.value = major.value
          ∧ if major.value > 0 then minor.value ≤ v.minor.value
            else v.minor.value = minor.value)
  dropsPatch
    : ∀ patch,
        matchVersion v.text ('^' :: dotted [major, minor, patch]) = some true
        → matchVersion v.text ('^' :: dotted [major, minor]) = some true
  dropsMinor
    : matchVersion v.text ('^' :: dotted [major, minor]) = some true
      → matchVersion v.text ('^' :: dotted [major]) = some true

/-- A caret range over `M` holds the versions of that major number, except that over zero it holds
`0.0.0` only.
-/
theorem caretMajor_iff {a b c x : Nat}
    : (decide ([x, 0, 0] ≤ [a, b, c]) && decide ([a, b, c] < caretUpper [x, 0, 0])) = true
      ↔ a = x ∧ (x = 0 → b = 0 ∧ c = 0) := by
  refine caret_iff.trans ?_
  simp only [three_le_iff, AgreesToNonzero, implies_true, and_true, forall_const]
  omega

/-- A caret range over `M.m` holds the later minor versions of a major number, or the patches of
that minor version when `M` is zero, except that over zeros it holds `0.0.0` only.
-/
theorem caretMinor_iff {a b c x y : Nat}
    : (decide ([x, y, 0] ≤ [a, b, c]) && decide ([a, b, c] < caretUpper [x, y, 0])) = true
      ↔ a = x ∧ (if x > 0 then y ≤ b else b = y) ∧ (x = 0 → y = 0 → c = 0) := by
  refine caret_iff.trans ?_
  simp only [three_le_iff, AgreesToNonzero, implies_true, and_true]
  rcases Nat.eq_zero_or_pos x with rfl | positive
  · simp only [lt_irrefl, if_false, forall_const]
    omega
  · simp only [positive, if_true, positive.ne', false_implies, and_true]
    omega

/-- Caret ranges over `M` and `M.m` follow the npm rule iff all numbers are short enough for `int`
and, when `M` is zero, the version is not another `0.m.p` than `0.0.0`. Witness: omitted numbers are
read as zeros, and the left-most number that is not zero is then missing.
-/
theorem npmCarets_iff {v : Release} {major minor : Decimal}
    : NpmCarets v major minor
      ↔ (v.Short ∧ major.Short ∧ minor.Short)
        ∧ (major.value = 0 → v.major.value = 0 → v.minor.value = 0 ∧ v.patch.value = 0) := by
  constructor
  · intro npm
    obtain ⟨short, read⟩ := read_of_denotes matchVersion_caret npm.caretMinor
    have short' := short_of_read (by simp) read
    have majorShort := short' major (by simp)
    refine ⟨⟨short, majorShort, short' minor (by simp)⟩, fun zero zero' => ?_⟩
    have caretMajor :=
      (denotes_iff matchVersion_caret short.triple_text (triple_major majorShort)).mp npm.caretMajor
    exact (caretMajor_iff.mp (caretMajor.mpr (zero'.trans zero.symm))).2 zero
  · intro condition
    obtain ⟨⟨short, majorShort, minorShort⟩, zeros⟩ := condition
    have holdsMajor : Denotes (matchVersion v.text ('^' :: dotted [major]))
        (v.major.value = major.value) := by
      have majorBase := triple_major majorShort
      refine (denotes_iff matchVersion_caret short.triple_text majorBase).mpr ?_
      refine caretMajor_iff.trans (and_iff_left_of_imp fun same zero => ?_)
      exact zeros zero (same.trans zero)
    have holdsMinor : Denotes (matchVersion v.text ('^' :: dotted [major, minor]))
        (v.major.value = major.value
          ∧ if major.value > 0 then minor.value ≤ v.minor.value
            else v.minor.value = minor.value) := by
      have minorBase := triple_minor majorShort minorShort
      refine (denotes_iff matchVersion_caret short.triple_text minorBase).mpr ?_
      refine caretMinor_iff.trans (and_congr_right fun same => ?_)
      refine and_iff_left_of_imp fun _ zero _ => ?_
      exact (zeros zero (same.trans zero)).2
    refine ⟨holdsMajor, holdsMinor, fun patch matched => ?_, fun matched => ?_⟩
    · have patchShort : patch.Short := by
        have read := (read_of_denotes (P := True) matchVersion_caret ⟨true, matched, by simp⟩).2
        exact short_of_read (by simp) read patch (by simp)
      have within := (@denotes_caret v ⟨major, minor, patch⟩ short
        ⟨majorShort, minorShort, patchShort⟩).holds_iff.mp matched
      simp only [Release.key, AgreesToNonzero, three_le_iff] at within
      refine holdsMinor.holds_iff.mpr ⟨within.2.1, ?_⟩
      split <;> omega
    · exact holdsMajor.holds_iff.mpr (holdsMinor.holds_iff.mp matched).1

/-- `0.1.0`. -/
def zeroOneZero : Release where
  major := digit '0' rfl
  minor := digit '1' rfl
  patch := digit '0' rfl

/-- The range over zero leaves out `0.1.0`, although their major numbers agree. -/
theorem zeroOneZero_not_npm
    : ¬ ∀ (v : Release) (major minor : Decimal), NpmCarets v major minor := by
  intro all
  have npm := all zeroOneZero (digit '0' rfl) (digit '0' rfl)
  have refused : matchVersion zeroOneZero.text
      ('^' :: dotted [digit '0' rfl]) = some false := by decide
  have holds := npm.caretMajor.holds_iff.mpr rfl
  cases refused.symm.trans holds

end AgentFeatures
