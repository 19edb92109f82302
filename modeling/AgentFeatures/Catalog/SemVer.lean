import AgentFeatures.Catalog.Ranges

/-! Semantic versions, their precedence, and how versions are compared instead. -/

namespace AgentFeatures

open Library
open Library.Text

-----------------------------------------------------------------------------------------
-- The grammar
-----------------------------------------------------------------------------------------

/-- `<numeric identifier>`: ASCII digits without a leading zero. -/
structure NumericIdentifier extends Decimal where
  ascii : ∀ c ∈ digits, c.isDigit
  canonical : digits.head? = some '0' → digits = ['0']

/-- `<build identifier>`: ASCII letters, digits and hyphens. -/
structure Identifier where
  text : Text
  nonempty : text ≠ []
  chars : ∀ c ∈ text, c.isAlphanum || c == '-'

/-- `<pre-release identifier>`: a number, or an identifier that is no row of digits. -/
inductive PreIdentifier where
  | numeric (number : NumericIdentifier)
  | alphanumeric (identifier : Identifier) (other : ∃ c ∈ identifier.text, ¬ c.isDigit)

def PreIdentifier.text : PreIdentifier → Text
  | numeric number => number.digits
  | alphanumeric identifier _ => identifier.text

/-- `<valid semver>`; there is a pre-release, or build metadata, iff its list is not empty. -/
structure SemVer where
  major : NumericIdentifier
  minor : NumericIdentifier
  patch : NumericIdentifier
  preRelease : List PreIdentifier := []
  build : List Identifier := []

namespace SemVer

/-- `<version core>`. -/
def core (version : SemVer) : Release where
  major := version.major.toDecimal
  minor := version.minor.toDecimal
  patch := version.patch.toDecimal

/-- A part that follows a mark, when it is there. -/
def marked (mark : Char) : List Text → Text
  | [] => []
  | parts => mark :: ['.'].intercalate parts

def text (version : SemVer) : Text :=
  version.core.text
    ++ (marked '-' (version.preRelease.map PreIdentifier.text)
      ++ marked '+' (version.build.map Identifier.text))

end SemVer

-----------------------------------------------------------------------------------------
-- Precedence
-----------------------------------------------------------------------------------------

/-- Numbers compare as numbers and stand below other identifiers, which compare as texts. -/
def PreIdentifier.key : PreIdentifier → Nat ⊕ₗ Text
  | numeric number => toLex (.inl number.value)
  | alphanumeric identifier _ => toLex (.inr identifier.text)

namespace SemVer

/-- Pre-releases compare identifier by identifier, and stand below the version without one. -/
def preKey (version : SemVer) : WithTop (List (Nat ⊕ₗ Text)) :=
  match version.preRelease with
  | [] => ⊤
  | identifiers => ↑(identifiers.map PreIdentifier.key)

/-- The precedence of a version: the triple, then the pre-release. -/
def precedence (version : SemVer) : List Nat ×ₗ WithTop (List (Nat ⊕ₗ Text)) :=
  toLex (version.core.key, version.preKey)

/-- A greater match is a higher precedence, and an exact match an equal one. -/
structure ComparesBySemVer (a b : SemVer) : Prop where
  higher : Denotes (matchVersion a.text ('>' :: b.text)) (b.precedence < a.precedence)
  equal : Denotes (matchVersion a.text b.text) (a.precedence = b.precedence)

-----------------------------------------------------------------------------------------
-- How versions are read
-----------------------------------------------------------------------------------------

/-- The version has build metadata right after its patch number. -/
def PatchMisread (version : SemVer) : Prop := version.preRelease = [] ∧ version.build ≠ []

instance : DecidablePred PatchMisread := fun version =>
  decidable_of_iff (version.preRelease.isEmpty ∧ ¬ version.build.isEmpty) (by
    simp [PatchMisread])

/-- `int` converts the dotted parts before the first dash that are rows of digits. -/
def Convertible (version : SemVer) : Prop :=
  ∀ part ∈ (version.text.takeWhile (· != '-')).splitOn '.',
    isdigit part → part.length ≤ maxStrDigits

instance : DecidablePred Convertible := fun version =>
  inferInstanceAs (Decidable (∀ part ∈ (version.text.takeWhile (· != '-')).splitOn '.',
    isdigit part → part.length ≤ maxStrDigits))

/-- The triple that a version is compared by. -/
def readKey (version : SemVer) : List Nat :=
  [version.major.value, version.minor.value,
    if version.PatchMisread then 0 else version.patch.value]

/-- The characters of versions stand from `+` on in ASCII. -/
def Plain (text : Text) : Prop := ∀ c ∈ text, 0x2b ≤ c.toNat ∧ c.toNat < 0x80

theorem plain_alphanum {c : Char} (char : c.isAlphanum)
    : 0x2b ≤ c.toNat ∧ c.toNat < 0x80 := by
  simp only [Char.isAlphanum, Char.isAlpha, Char.isUpper, Char.isLower, Char.isDigit,
    Bool.or_eq_true, Bool.and_eq_true, decide_eq_true_eq, UInt32.le_iff_toNat_le, ge_iff_le]
    at char
  have point : c.toNat = c.val.toNat := rfl
  have bounds : 'A'.val.toNat = 65 ∧ 'Z'.val.toNat = 90 ∧ 'a'.val.toNat = 97
      ∧ 'z'.val.toNat = 122 ∧ '0'.val.toNat = 48 ∧ '9'.val.toNat = 57 := by decide
  omega

theorem plain_digits (number : NumericIdentifier) : Plain number.digits := by
  intro c member
  exact plain_alphanum (by simp [Char.isAlphanum, number.ascii c member])

theorem plain_identifier (identifier : Identifier) : Plain identifier.text := by
  intro c member
  rcases Bool.or_eq_true_iff.mp (identifier.chars c member) with char | hyphen
  · exact plain_alphanum char
  · rw [beq_iff_eq.mp hyphen]
    decide

theorem Plain.append {left right : Text} (first : Plain left) (second : Plain right)
    : Plain (left ++ right) := by
  intro c member
  rcases List.mem_append.mp member with here | later
  · exact first c here
  · exact second c later

/-- Dotted parts of plain characters are plain, and so they are behind a mark. -/
theorem plain_intercalate {parts : List Text} (plain : ∀ part ∈ parts, Plain part)
    : Plain (['.'].intercalate parts) := by
  intro c member
  rcases mem_intercalate member with rfl | ⟨part, inParts, inPart⟩
  · decide
  · exact plain part inParts c inPart

theorem plain_marked {mark : Char} (plainMark : 0x2b ≤ mark.toNat ∧ mark.toNat < 0x80)
    {parts : List Text} (plain : ∀ part ∈ parts, Plain part)
    : Plain (marked mark parts) := by
  cases parts with
  | nil => exact fun c member => absurd member List.not_mem_nil
  | cons first rest =>
      intro c member
      rcases List.mem_cons.mp member with rfl | member
      · exact plainMark
      · exact plain_intercalate plain c member

/-- Versions are plain texts. -/
theorem plain_text (version : SemVer) : Plain version.text := by
  have numbers : Plain version.core.text := by
    refine plain_intercalate fun part member => ?_
    simp only [core, List.map_cons, List.map_nil, List.mem_cons, List.not_mem_nil, or_false]
      at member
    rcases member with rfl | rfl | rfl
    · exact plain_digits version.major
    · exact plain_digits version.minor
    · exact plain_digits version.patch
  refine numbers.append ((plain_marked (by decide) fun part member => ?_).append
    (plain_marked (by decide) fun part member => ?_))
  · obtain ⟨identifier, -, rfl⟩ := List.mem_map.mp member
    cases identifier with
    | numeric number => exact plain_digits number
    | alphanumeric identifier other => exact plain_identifier identifier
  · obtain ⟨identifier, -, rfl⟩ := List.mem_map.mp member
    exact plain_identifier identifier

/-- Plain texts hold no white space. -/
theorem Plain.isSpace {text : Text} (plain : Plain text) {c : Char} (member : c ∈ text)
    : isSpace c = false := by
  have range := plain c member
  simp only [Text.isSpace, Bool.or_eq_false_iff, Bool.and_eq_false_iff, decide_eq_false_iff_not,
    beq_eq_false_iff_ne]
  omega

/-- The digits of a plain text are decimal. -/
theorem Plain.decimal {text : Text} (plain : Plain text) (digits : isdigit text = true)
    : ∀ c ∈ text, (digitValue? c).isSome := by
  intro c member
  have digit := List.all_eq_true.mp (Bool.and_eq_true_iff.mp digits).2 c member
  rcases Bool.or_eq_true_iff.mp digit with decimal | other
  · exact decimal
  · have high : ∀ range ∈ otherDigits, 0x80 ≤ range.1 := by decide
    obtain ⟨range, listed, within⟩ := List.any_eq_true.mp other
    have bound := of_decide_eq_true (Bool.and_eq_true_iff.mp within).1
    exact absurd (le_trans (high range listed) bound) (not_le_of_gt (plain c member).2)

/-- A plain part is read unless it is a row of digits that is too long. -/
theorem Plain.versionPart_isSome_iff {part : Text} (plain : Plain part)
    : (versionPart part).isSome ↔ (isdigit part → part.length ≤ maxStrDigits) := by
  cases digits : isdigit part with
  | false => simp [versionPart, digits]
  | true =>
      have nonempty : part ≠ [] := by
        intro empty
        simp [empty, isdigit] at digits
      have read := Decimal.versionPart_digits ⟨part, nonempty, plain.decimal digits⟩
      rw [read]
      split
      · next short => exact ⟨fun _ _ => short, fun _ => rfl⟩
      · next long => exact ⟨fun none => absurd none (by simp), fun fits => absurd (fits rfl) long⟩

theorem core_noDash (version : SemVer) : ∀ c ∈ version.core.text, (c != '-') = true := by
  intro c member
  refine bne_iff_ne.mpr fun dash => ?_
  subst dash
  rcases mem_dotted member with dot | ⟨number, inDigits⟩
  · exact absurd dot (by decide)
  · exact number.not_mem rfl inDigits

/-- Build metadata that is misread stands right behind the core. -/
theorem text_of_misread {version : SemVer} (misread : version.PatchMisread)
    : ∃ metadata, version.text = version.core.text ++ '+' :: metadata := by
  obtain ⟨first, others, build⟩ := List.exists_cons_of_ne_nil misread.2
  rw [text, misread.1, build]
  exact ⟨_, rfl⟩

/-- Otherwise the core ends at a `-` or at the end of the text. -/
theorem takeWhile_text {version : SemVer} (wellRead : ¬ version.PatchMisread)
    : version.text.takeWhile (· != '-') = version.core.text := by
  cases pre : version.preRelease with
  | nil =>
      have none : version.build = [] := by
        by_contra some
        exact wellRead ⟨pre, some⟩
      have spelled : version.text = version.core.text := by simp [text, pre, none, marked]
      rw [spelled, List.takeWhile_eq_self_iff.mpr version.core_noDash]
  | cons first others =>
      have spelled : ∃ later, version.text = version.core.text ++ '-' :: later :=
        ⟨_, by simp [text, pre, marked]; rfl⟩
      obtain ⟨later, spelled⟩ := spelled
      rw [spelled, List.takeWhile_append_of_pos version.core_noDash]
      simp

/-- The dotted parts that a version is read by: three numbers, or with misread build metadata in
and behind the third part.
-/
theorem parts_text (version : SemVer)
    : ∃ third more,
        (version.text.takeWhile (· != '-')).splitOn '.'
          = version.major.digits :: version.minor.digits :: third :: more
        ∧ ∀ value,
            versionPart third = some value
            → value = if version.PatchMisread then 0 else version.patch.value := by
  have dot (number : NumericIdentifier) : '.' ∉ number.digits := number.not_mem rfl
  by_cases misread : version.PatchMisread
  · obtain ⟨metadata, spelled⟩ := text_of_misread misread
    have cut : version.text.takeWhile (· != '-')
        = version.major.digits
          ++ '.' :: (version.minor.digits
            ++ '.' :: (version.patch.digits ++ '+' :: metadata.takeWhile (· != '-'))) := by
      rw [spelled, List.takeWhile_append_of_pos version.core_noDash]
      simp [core, dotted, List.intercalate_cons_cons]
    obtain ⟨rest, more, split⟩ := @splitOn_front '.' (version.patch.digits ++ ['+'])
      (by simp [dot]) (metadata.takeWhile (· != '-'))
    refine ⟨version.patch.digits ++ '+' :: rest, more, ?_, fun value read => ?_⟩
    · rw [cut, List.splitOn_append_cons_self_of_not_mem (dot version.major),
        List.splitOn_append_cons_self_of_not_mem (dot version.minor)]
      simpa using split
    · have zero : versionPart (version.patch.digits ++ '+' :: rest) = some 0 :=
        versionPart_eq_zero (List.mem_append_right _ List.mem_cons_self) rfl
      rw [if_pos misread]
      exact Option.some.inj (read.symm.trans zero)
  · refine ⟨version.patch.digits, [], ?_, fun value read => ?_⟩
    · rw [takeWhile_text misread, core, splitOn_dotted (by simp)]
      rfl
    · rw [if_neg misread]
      exact Decimal.value_of_read read

/-- A version is compared by its triple with the patch number that is read, if it is convertible. -/
theorem triple_text (version : SemVer)
    : triple version.text = if version.Convertible then some version.readKey else none := by
  obtain ⟨third, more, split, patch⟩ := version.parts_text
  have reads : (semverKey version.text).isSome ↔ version.Convertible := by
    rw [semverKey, mapM_isSome_iff]
    refine forall₂_congr fun part member => Plain.versionPart_isSome_iff fun c inPart => ?_
    exact version.plain_text c
      ((List.takeWhile_sublist _).subset (subset_of_mem_splitOn member inPart))
  rw [triple]
  cases key : semverKey version.text with
  | none =>
      have overlong : ¬ version.Convertible := by simpa [key] using reads
      rw [if_neg overlong]
      rfl
  | some values =>
      have convertible : version.Convertible := by simpa [key] using reads
      rw [if_pos convertible, Option.map_some]
      rw [semverKey, split, mapM_eq_some_iff] at key
      cases key with
      | @cons _ major _ _ readMajor later =>
          cases later with
          | @cons _ minor _ _ readMinor later =>
              cases later with
              | @cons _ value _ rest readPatch later =>
                  rw [Decimal.value_of_read readMajor, Decimal.value_of_read readMinor,
                    patch value readPatch, readKey, padded_cons, padded_cons, padded_cons]
                  rfl

-----------------------------------------------------------------------------------------
-- Comparisons
-----------------------------------------------------------------------------------------

/-- A version starts with a digit. -/
theorem head_text (version : SemVer)
    : ∃ c tail, version.text = c :: tail ∧ (digitValue? c).isSome := by
  obtain ⟨c, tail, spelled, digit⟩ :=
    @head_dotted version.core.major [version.core.minor, version.core.patch]
  have spelled : version.core.text = c :: tail := spelled
  exact ⟨c, _, by rw [text, spelled]; rfl, digit⟩

/-- Greater matches compare the triples that are read. -/
theorem matchVersion_higher (a b : SemVer)
    : matchVersion a.text ('>' :: b.text)
      = (triple a.text).bind fun v => (triple b.text).map fun base => decide (base < v) := by
  obtain ⟨c, tail, spelled, digit⟩ := b.head_text
  have noMark : b.text.head? ≠ some '=' := by
    intro mark
    simp only [spelled, List.head?_cons, Option.some.injEq] at mark
    subst mark
    exact absurd digit (by decide)
  rw [matchVersion_gt noMark, rstrip_eq fun c member => b.plain_text.isSpace member]

/-- Exact matches compare the triples that are read. -/
theorem matchVersion_equal (a b : SemVer)
    : matchVersion a.text b.text
      = (triple a.text).bind fun v => (triple b.text).map fun base => decide (v = base) :=
  matchVersion_bare (fun _ member => b.plain_text.isSpace member) b.head_text

/-- The versions differ in major or minor number, or their patch numbers are read such that they
compare as the patch numbers and the pre-releases do.
-/
def ReadsAlike (a b : SemVer) : Prop :=
  a.major.value ≠ b.major.value
  ∨ a.minor.value ≠ b.minor.value
  ∨ (a.patch.value < b.patch.value ∧ ¬ b.PatchMisread)
  ∨ (b.patch.value < a.patch.value ∧ ¬ a.PatchMisread)
  ∨ (a.patch.value = b.patch.value
    ∧ a.preKey = b.preKey
    ∧ (a.patch.value = 0 ∨ (a.PatchMisread ↔ b.PatchMisread)))

/-- A version without a pre-release stands above all others with its triple. -/
theorem preKey_of_misread {version : SemVer} (misread : version.PatchMisread)
    : version.preKey = ⊤ := by
  simp only [preKey, misread.1]

theorem precedence_lt_iff {a b : SemVer}
    : b.precedence < a.precedence
      ↔ b.core.key < a.core.key ∨ b.core.key = a.core.key ∧ b.preKey < a.preKey :=
  Prod.Lex.toLex_lt_toLex

theorem precedence_eq_iff {a b : SemVer}
    : a.precedence = b.precedence ↔ a.core.key = b.core.key ∧ a.preKey = b.preKey := by
  rw [precedence, precedence, toLex.injective.eq_iff, Prod.mk.injEq]

/-- Patch numbers of which some are read as zero compare as they and the keys behind them do, iff
the greater one is not, or they and the keys are the same and are read the same. Witness: the keys
behind the misread numbers are greatest.
-/
theorem patch_alike {κ : Type} [LinearOrder κ] [OrderTop κ] {p q : Nat} {k l : κ}
    {misread misread' : Prop} [Decidable misread] [Decidable misread']
    (top : misread → k = ⊤) (top' : misread' → l = ⊤)
    : (((if misread' then 0 else q) < (if misread then 0 else p) ↔ q < p ∨ q = p ∧ l < k)
        ∧ ((if misread then 0 else p) = (if misread' then 0 else q) ↔ p = q ∧ k = l))
      ↔ (p < q ∧ ¬ misread')
        ∨ (q < p ∧ ¬ misread)
        ∨ (p = q ∧ k = l ∧ (p = 0 ∨ (misread ↔ misread'))) := by
  have greatest : misread → ¬ k < l := fun here => top here ▸ not_top_lt
  have greatest' : misread' → ¬ l < k := fun here => top' here ▸ not_top_lt
  rcases lt_trichotomy p q with less | rfl | greater
  · by_cases here : misread <;> by_cases there : misread' <;> simp [here, there] <;> omega
  · by_cases here : misread <;> by_cases there : misread' <;> simp [here, there] <;> grind
  · by_cases here : misread <;> by_cases there : misread' <;> simp [here, there] <;> omega

/-- What is read compares as the precedence does iff the versions read alike. Witness: a misread
patch number is zero, and a version with one has no pre-release.
-/
theorem readsAlike_iff {a b : SemVer}
    : ((b.readKey < a.readKey ↔ b.precedence < a.precedence)
        ∧ (a.readKey = b.readKey ↔ a.precedence = b.precedence))
      ↔ ReadsAlike a b := by
  have alike := patch_alike (p := a.patch.value) (q := b.patch.value) (@preKey_of_misread a)
    (@preKey_of_misread b)
  rw [precedence_lt_iff, precedence_eq_iff, ReadsAlike]
  simp only [readKey, Release.key, core, three_lt_iff, List.cons.injEq, and_true]
  by_cases major : a.major.value = b.major.value
  · by_cases minor : a.minor.value = b.minor.value
    · simp only [major, minor, lt_irrefl, true_and, false_or, ne_eq, not_true_eq_false]
      exact alike
    · simp [major, minor, Ne.symm minor]
  · simp [major, Ne.symm major]

/-- A convertible version is compared by what is read. -/
theorem Convertible.triple_text {version : SemVer} (convertible : version.Convertible)
    : triple version.text = some version.readKey :=
  version.triple_text.trans (if_pos convertible)

/-- A version whose triple is read is convertible. -/
theorem convertible_of_read {version : SemVer} (read : (triple version.text).isSome)
    : version.Convertible := by
  simpa only [version.triple_text, Option.isSome_ite] using read

/-- Versions compare by their precedence iff `int` converts their parts and they read alike.
Witness: without its major and minor numbers, what is left of the order is the patch number and the
pre-release.
-/
theorem comparesBySemVer_iff {a b : SemVer}
    : ComparesBySemVer a b ↔ a.Convertible ∧ b.Convertible ∧ ReadsAlike a b := by
  constructor
  · intro compares
    obtain ⟨read, read'⟩ := isSome_of_denotes (matchVersion_higher a b) compares.higher
    have first := convertible_of_read read
    have second := convertible_of_read read'
    have higher := (denotes_iff (matchVersion_higher a b) first.triple_text
      second.triple_text).mp compares.higher
    have equal := (denotes_iff (matchVersion_equal a b) first.triple_text
      second.triple_text).mp compares.equal
    simp only [decide_eq_true_iff] at higher equal
    exact ⟨first, second, readsAlike_iff.mp ⟨higher, equal⟩⟩
  · intro condition
    obtain ⟨first, second, alike⟩ := condition
    obtain ⟨higher, equal⟩ := readsAlike_iff.mpr alike
    constructor
    · refine (denotes_iff (matchVersion_higher a b) first.triple_text second.triple_text).mpr ?_
      exact decide_eq_true_iff.trans higher
    · refine (denotes_iff (matchVersion_equal a b) first.triple_text second.triple_text).mpr ?_
      exact decide_eq_true_iff.trans equal

/-- `1.2.3`. -/
def production : SemVer where
  major := ⟨oneTwoThree.major, by simp [oneTwoThree, digit], by simp [oneTwoThree, digit]⟩
  minor := ⟨oneTwoThree.minor, by simp [oneTwoThree, digit], by simp [oneTwoThree, digit]⟩
  patch := ⟨oneTwoThree.patch, by simp [oneTwoThree, digit], by simp [oneTwoThree, digit]⟩

/-- `rc`. -/
def rc : Identifier where
  text := ['r', 'c']
  nonempty := by simp
  chars c member := by rcases List.mem_pair.mp member with rfl | rfl <;> rfl

/-- `1.2.3-rc`. -/
def candidate : SemVer :=
  { production with preRelease := [.alphanumeric rc ⟨'r', by simp [rc], by decide⟩] }

/-- The exact pin of a production version admits its release candidate. -/
theorem candidate_matches_production : ¬ ∀ a b : SemVer, ComparesBySemVer a b := by
  intro all
  have same := (all candidate production).equal.holds_iff.mp (by decide +kernel)
  have keys := (precedence_eq_iff.mp same).2
  exact WithTop.coe_ne_top keys

end SemVer

end AgentFeatures
