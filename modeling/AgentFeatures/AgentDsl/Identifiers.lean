import AgentFeatures.AgentDsl.ClosedPrograms
import AgentFeatures.AgentDsl.Verbatim
import AgentFeatures.Library.Selection

/-! The identifiers that generated code declares. -/

namespace AgentFeatures

open Library
open Library.Substitution

namespace AgentDsl

-----------------------------------------------------------------------------------------
-- Identifiers
-----------------------------------------------------------------------------------------

/-- `[A-Za-z0-9_]`. -/
def isIdentifierChar (c : Char) : Bool := c.isAlphanum || c == '_'

/-- A letter or underscore followed by letters, digits and underscores. -/
def IsIdentifier : Text → Prop
  | [] => False
  | first :: rest => isNameStart first ∧ ∀ c ∈ rest, isIdentifierChar c

instance : (text : Text) → Decidable (IsIdentifier text)
  | [] => .isFalse id
  | first :: rest =>
      decidable_of_iff (isNameStart first ∧ rest.all isIdentifierChar)
        (and_congr_right fun _ => List.all_eq_true)

theorem isIdentifierChar_iff {c : Char} (inName : isNameChar c)
    : isIdentifierChar c ↔ c ≠ '-' := by
  by_cases dash : c = '-'
  · subst dash
    decide
  · simp only [isNameChar, Bool.or_eq_true, beq_iff_eq, dash, or_false] at inName
    simp [isIdentifierChar, inName, dash]

/-- Identifier characters after an identifier keep it one. -/
theorem isIdentifier_append {text more : Text} (nonempty : text ≠ [])
    (continues : ∀ c ∈ more, isIdentifierChar c)
    : IsIdentifier (text ++ more) ↔ IsIdentifier text := by
  cases text with
  | nil => exact absurd rfl nonempty
  | cons first rest =>
      simp only [List.cons_append, IsIdentifier, List.forall_mem_append, and_iff_left continues]

/-- A name written as it is makes an identifier unless it has a dash. -/
theorem isIdentifier_name_iff (name : Name) : IsIdentifier name.text ↔ '-' ∉ name.text := by
  have first : name.first ≠ '-' := fun dash => absurd (dash ▸ name.starts) (by decide)
  simp only [Word.text, IsIdentifier, name.starts, true_and, List.mem_cons, first.symm, false_or]
  constructor
  · intro all dash
    exact absurd (all '-' dash) (by decide)
  · intro noDash c member
    exact (isIdentifierChar_iff (name.continues c member)).mpr fun dash => noDash (dash ▸ member)

/-- The first character of the name that is no separator is a letter; without one, the name has
no dash.
-/
def Convertible (name : Text) : Prop :=
  match name.filter (!isSeparator ·) with
  | [] => '-' ∉ name
  | first :: _ => first.isAlpha

-----------------------------------------------------------------------------------------
-- Converted names
-----------------------------------------------------------------------------------------

theorem toNat_lt_of_isAlphanum {c : Char} (alphanumeric : c.isAlphanum) : c.toNat < 128 := by
  simp only [Char.isAlphanum, Char.isAlpha, Char.isUpper, Char.isLower, Char.isDigit,
    Bool.or_eq_true, Bool.and_eq_true, decide_eq_true_eq, UInt32.le_iff_toNat_le,
    ge_iff_le] at alphanumeric
  change ((65 ≤ c.toNat ∧ c.toNat ≤ 90) ∨ (97 ≤ c.toNat ∧ c.toNat ≤ 122))
    ∨ (48 ≤ c.toNat ∧ c.toNat ≤ 57) at alphanumeric
  omega

theorem isAlphanum_toLower {c : Char} (alphanumeric : c.isAlphanum) : c.toLower.isAlphanum := by
  by_cases upper : c.isUpper
  · simp [Char.isAlphanum, Char.isAlpha, upper]
  · rwa [Char.toLower_eq_of_not_isUpper upper]

theorem isAlphanum_toUpper {c : Char} (alphanumeric : c.isAlphanum) : c.toUpper.isAlphanum := by
  by_cases lower : c.isLower
  · simp [Char.isAlphanum, Char.isAlpha, lower]
  · rwa [Char.toUpper_eq_of_not_isLower lower]

theorem isIdentifierChar_of_isAlphanum {c : Char} (alphanumeric : c.isAlphanum)
    : isIdentifierChar c := by
  simp [isIdentifierChar, alphanumeric]

/-- A letter or digit starts an identifier if it is a letter. -/
theorem isNameStart_of_isAlphanum {c : Char} (alphanumeric : c.isAlphanum)
    : isNameStart c = c.isAlpha := by
  have visible : c ≠ '_' := fun same => absurd (same ▸ alphanumeric) (by decide)
  simp [isNameStart, visible]

theorem isSeparator_of_isAlphanum {c : Char} (alphanumeric : c.isAlphanum)
    : isSeparator c = false := by
  by_contra separates
  simp only [isSeparator, Bool.not_eq_false, Bool.or_eq_true, beq_iff_eq] at separates
  rcases separates with rfl | rfl <;> exact absurd alphanumeric (by decide)

/-- A character of a word of a name is a letter or a digit. -/
theorem isAlphanum_of_mem_parts {name : Name} {part : Text} (member : part ∈ parts name.text)
    {c : Char} (inPart : c ∈ part)
    : c.isAlphanum := by
  obtain ⟨inName, visible⟩ := mem_of_mem_parts member inPart
  have known := isNameChar_of_mem name inName
  simp only [isSeparator, Bool.or_eq_false_iff, beq_eq_false_iff_ne] at visible
  simpa [isNameChar, visible] using known

variable {py : TextFunctions}

/-- A word of a name is capitalized as ASCII. -/
theorem capitalize_part {name : Name} {part : Text} (member : part ∈ parts name.text)
    : py.capitalize part = capitalizeAscii part := by
  cases part with
  | nil => exact absurd rfl (ne_nil_of_mem_parts member)
  | cons first rest =>
      exact py.capitalize_ascii first rest fun c inPart =>
        toNat_lt_of_isAlphanum (isAlphanum_of_mem_parts member inPart)

/-- A capitalized word of a name has letters and digits only. -/
theorem isAlphanum_of_mem_capitalize {name : Name} {part : Text}
    (member : part ∈ parts name.text) {c : Char} (inWord : c ∈ py.capitalize part)
    : c.isAlphanum := by
  simp only [capitalize_part member] at inWord
  cases part with
  | nil => exact absurd inWord List.not_mem_nil
  | cons first rest =>
      have inPart (d : Char) (isIn : d ∈ first :: rest) := isAlphanum_of_mem_parts member isIn
      rcases List.mem_cons.mp inWord with rfl | later
      · exact isAlphanum_toUpper (inPart first List.mem_cons_self)
      · obtain ⟨d, isIn, rfl⟩ := List.mem_map.mp later
        exact isAlphanum_toLower (inPart d (List.mem_cons_of_mem _ isIn))

/-- Without words the condition is that of the name itself. -/
theorem convertible_of_parts_eq_nil {name : Name} (none : parts name.text = [])
    : Convertible name.text ↔ IsIdentifier name.text := by
  simp only [isIdentifier_name_iff, Convertible, ← flatten_parts, none]
  rfl

/-- A text that starts like the first word, as far as letters go, is an identifier exactly for a
convertible name.
-/
theorem isIdentifier_iff_convertible {name : Name} {c : Char} {word : Text} {others : List Text}
    (words : parts name.text = (c :: word) :: others) {first : Char} {tail : Text}
    (starts : isNameStart first = c.isAlpha) (continues : ∀ d ∈ tail, isIdentifierChar d)
    : IsIdentifier (first :: tail) ↔ Convertible name.text := by
  simp only [Convertible, ← flatten_parts, words]
  simp only [IsIdentifier, starts, and_iff_left continues]
  exact Iff.rfl

/-- The first word of a name with words. -/
theorem parts_cases (name : Text)
    : parts name = [] ∨ ∃ c word others, parts name = (c :: word) :: others := by
  cases words : parts name with
  | nil => exact .inl rfl
  | cons first others =>
      have nonempty : first ≠ [] := ne_nil_of_mem_parts (words ▸ List.mem_cons_self)
      obtain ⟨c, word, rfl⟩ := List.exists_cons_of_ne_nil nonempty
      exact .inr ⟨c, word, others, rfl⟩

/-- Behind its first letter a converted name has letters and digits only. -/
theorem isAlphanum_of_mem_tail {name : Name} {c : Char} {word : Text} {others : List Text}
    (words : parts name.text = (c :: word) :: others) {d : Char}
    (member : d ∈ word.map Char.toLower ++ others.flatMap py.capitalize)
    : d.isAlphanum := by
  rcases List.mem_append.mp member with inWord | inOthers
  · obtain ⟨e, isIn, rfl⟩ := List.mem_map.mp inWord
    exact isAlphanum_toLower
      (isAlphanum_of_mem_parts (words ▸ List.mem_cons_self) (List.mem_cons_of_mem _ isIn))
  · obtain ⟨part, isPart, isIn⟩ := List.mem_flatMap.mp inOthers
    exact isAlphanum_of_mem_capitalize (words ▸ List.mem_cons_of_mem _ isPart) isIn

theorem isIdentifier_camel_iff (name : Name)
    : IsIdentifier (camel py name.text) ↔ Convertible name.text := by
  rcases parts_cases name.text with none | ⟨c, word, others, words⟩
  · simp only [convertible_of_parts_eq_nil none, camel, none]
  · have inFirst (d : Char) (member : d ∈ c :: word) : d.isAlphanum :=
      isAlphanum_of_mem_parts (words ▸ List.mem_cons_self) member
    have lowered : py.lower (c :: word) = c.toLower :: word.map Char.toLower :=
      py.lower_ascii _ fun d member => toNat_lt_of_isAlphanum (inFirst d member)
    have here := inFirst c List.mem_cons_self
    simp only [camel, words]
    simp only [lowered, List.cons_append]
    refine isIdentifier_iff_convertible words ?_ ?_
    · rw [isNameStart_of_isAlphanum (isAlphanum_toLower here), Char.isAlpha_toLower_eq_isAlpha]
    · exact fun d member => isIdentifierChar_of_isAlphanum (isAlphanum_of_mem_tail words member)

/-- The capitalized words of a name start with its first letter in upper case. -/
theorem pascal_of_parts {name : Name} {c : Char} {word : Text} {others : List Text}
    (words : parts name.text = (c :: word) :: others)
    : pascal py name.text
      = c.toUpper :: (word.map Char.toLower ++ others.flatMap py.capitalize) := by
  have first : py.capitalize (c :: word) = c.toUpper :: word.map Char.toLower :=
    capitalize_part (words ▸ List.mem_cons_self)
  simp only [pascal, orText, words, List.flatMap_cons, first]
  rfl

theorem isIdentifier_pascal_iff (name : Name)
    : IsIdentifier (pascal py name.text) ↔ Convertible name.text := by
  rcases parts_cases name.text with none | ⟨c, word, others, words⟩
  · simp only [convertible_of_parts_eq_nil none, pascal, none]
    rfl
  · have here := isAlphanum_of_mem_parts (words ▸ List.mem_cons_self) List.mem_cons_self
    simp only [pascal_of_parts words]
    refine isIdentifier_iff_convertible words ?_ ?_
    · rw [isNameStart_of_isAlphanum (isAlphanum_toUpper here), Char.isAlpha_toUpper_eq_isAlpha]
    · exact fun d member => isIdentifierChar_of_isAlphanum (isAlphanum_of_mem_tail words member)

theorem isIdentifier_snake_iff (name : Name)
    : IsIdentifier (snake name.text) ↔ Convertible name.text := by
  rcases parts_cases name.text with none | ⟨c, word, others, words⟩
  · simp only [convertible_of_parts_eq_nil none, snake, none]
    rfl
  · obtain ⟨more, joined⟩ := prefix_join "_" (c :: word) others
    have here := isAlphanum_of_mem_parts (words ▸ List.mem_cons_self) List.mem_cons_self
    simp only [snake, orText, words, ← joined]
    refine isIdentifier_iff_convertible words (isNameStart_of_isAlphanum here) ?_
    intro d member
    have inJoined : d ∈ join "_" ((c :: word) :: others) := joined ▸ List.mem_cons_of_mem c member
    rcases mem_of_mem_join inJoined with underscore | ⟨part, isPart, isIn⟩
    · simp only [List.mem_singleton.mp underscore]
      decide
    · exact isIdentifierChar_of_isAlphanum (isAlphanum_of_mem_parts (words ▸ isPart) isIn)

-----------------------------------------------------------------------------------------
-- Declarations in the code
-----------------------------------------------------------------------------------------

/-- A declared identifier between the text before and the text after it. -/
structure Declaration where
  keyword : String
  identifier : Text
  next : String

def Declaration.text (declared : Declaration) : Text :=
  declared.keyword.toList ++ (declared.identifier ++ declared.next.toList)

/-- The functions, types, classes, services, packages and fields that the code of a language
declares for an agent and its inputs.
-/
def declarations (py : TextFunctions) (name : Text) (inputs : List Text)
    : Language → List Declaration
  | .js => [⟨"export async function ", camel py name, "("⟩]
  | .ts =>
      ⟨"export interface ", pascal py name ++ "Input".toList, " \x7b "⟩
      :: ⟨"export async function ", camel py name, "("⟩
      :: inputs.map fun input => ⟨"", input, ": "⟩
  | .go =>
      ⟨"package ", "agents".toList, "\n"⟩
      :: ⟨"type ", pascal py name ++ "Input".toList, " struct \x7b\n"⟩
      :: ⟨"func ", pascal py name, "("⟩
      :: ⟨"\t\t", "Output".toList, " map[string]any"⟩
      :: ⟨"\t\t", "Error".toList, "  string"⟩
      :: inputs.map fun input => ⟨"\t", pascal py input, " "⟩
  | .rust => [⟨"pub fn ", snake name, "("⟩]
  | .java =>
      [⟨"package ", "agents".toList, ";"⟩, ⟨"public final class ", pascal py name, " \x7b"⟩,
        ⟨"public static JsonNode ", "invoke".toList, "("⟩]
  | .proto =>
      ⟨"package ", "agents".toList, "."⟩
      :: ⟨"package agents.", snake name, ";"⟩
      :: ⟨"service ", pascal py name, " \x7b"⟩
      :: ⟨"rpc ", "Invoke".toList, "("⟩
      :: ⟨"message ", pascal py name ++ "Input".toList, " \x7b"⟩
      :: ⟨"message ", pascal py name ++ "Output".toList, " \x7b"⟩
      :: ⟨"google.protobuf.Struct ", "output".toList, " = 1;"⟩
      :: inputs.map fun input => ⟨" ", input, " = "⟩

/-- The declarations in the code of a composite. -/
def declaredBy (py : TextFunctions) (composite : Composite) (language : Language)
    : List Declaration :=
  declarations py composite.name.toList
    ((schemaFields composite.inputSchema).map String.toList) language

-----------------------------------------------------------------------------------------
-- What the code shows
-----------------------------------------------------------------------------------------

variable {composite : Composite} {language : Language} {lang : String}

/-- The code is the template with the converted names and the language's own value in its holes,
whatever the other holes show.
-/
theorem exists_shown (supported : Language.ofName? (unaliased lang) = some language)
    {props : List (String × Json)} (known : compositeProps composite = some props)
    {extra : List (Token × Text)} (made : fieldSubs py props language = some extra)
    : ∃ shown : Token → Text,
        codegen py composite lang = some (fill shown language.template)
        ∧ shown .camel = camel py composite.name.toList
        ∧ shown .pascal = pascal py composite.name.toList
        ∧ shown .snake = snake composite.name.toList
        ∧ ∀ entry ∈ extra, shown entry.1 = entry.2 := by
  have isTable : table py composite language = some (commonSubs py composite props ++ extra) := by
    simp only [table, known, Option.bind_some, subs, made, Option.map_some]
  have distinct : ((commonSubs py composite props ++ extra).map Prod.fst).Nodup :=
    map_fst_of_table isTable ▸ nodup_tokens language
  have settled {token : Token} (isSettled : token ∈ settledTokens) :=
    (keepsValue_iff spelling distinct).mp (keepsValue_settled isTable isSettled)
  refine ⟨fun token => substituteAll Token.spell _ token.spell, ?_, settled (by decide),
    settled (by decide), settled (by decide), ?_⟩
  · simp only [codegen_eq supported, isTable, Option.map_some,
      substituteAll_fill spelling (sealed_template language)]
  · intro entry member
    have own : entry.1 ∈ extra.map Prod.fst := List.mem_map_of_mem member
    simp only [map_fst_of_fieldSubs made] at own
    have stored : (commonSubs py composite props ++ extra).lookup entry.1 = some entry.2 :=
      (Dict.lookup_eq_some_iff distinct).mpr (List.mem_append_right _ member)
    have kept := keepsValue_own isTable (not_mem_commonTokens own)
    refine ((keepsValue_iff spelling distinct).mp kept).trans ?_
    simp only [shownValue, stored]
    rfl

/-- A word stands in the joined text, by list induction. -/
theorem infix_join {sep : String} {words : List Text} {word : Text} (member : word ∈ words)
    : word <:+: join sep words := by
  induction words with
  | nil => exact absurd member List.not_mem_nil
  | cons first rest ih =>
      rcases List.mem_cons.mp member with rfl | later
      · exact (prefix_join sep word rest).isInfix
      · cases rest with
        | nil => exact absurd later List.not_mem_nil
        | cons next others =>
            simp only [join, List.intercalate_cons_cons]
            exact (ih later).trans (List.suffix_append _ _).isInfix

theorem infix_orText {part text : Text} (inside : part <:+: text) (nonempty : part ≠ [])
    (other : Text)
    : part <:+: orText text other := by
  rw [orText, if_neg]
  · exact inside
  · intro empty
    simp only [List.isEmpty_iff.mp empty] at inside
    exact nonempty (List.infix_nil.mp inside)

/-- What stands in a line of the language's own value stands in the code. -/
theorem infix_of_line {pieces : Template} {shown : Token → Text} {token : Token} {sep : String}
    {lines : List Text} {other line part : Text} (hole : .hole token ∈ pieces)
    (shows : shown token = orText (join sep lines) other) (isLine : line ∈ lines)
    (inside : part <:+: line) (nonempty : part ≠ [])
    : part <:+: fill shown pieces :=
  infix_fill_of_hole hole
    (shows ▸ infix_orText (inside.trans (infix_join isLine)) nonempty other)

/-- Each property has a type, as a text. -/
def Typed (props : List (String × Json)) : Prop :=
  ∀ field ∈ props, ∃ type, field.2 = .obj [("type", .str type)]

theorem exists_typeName {property : Json} (typed : ∃ type, property = .obj [("type", .str type)])
    (table : Dict String String) (default : String)
    : ∃ name, typeName table default property = some name := by
  obtain ⟨type, rfl⟩ := typed
  exact ⟨_, rfl⟩

/-- Where the language's own value joins one line for each item, the code shows a part of every
line.
-/
theorem exists_shown_lines (supported : Language.ofName? (unaliased lang) = some language)
    {props : List (String × Json)} (known : compositeProps composite = some props) {α : Type}
    {line : α → Option Text} {items : List α} {token : Token} {sep : String} {other : Text}
    (made
      : fieldSubs py props language
        = (items.mapM line).map fun lines => [(token, orText (join sep lines) other)])
    (inTemplate : .hole token ∈ language.template) {part : α → Text}
    (each : ∀ item ∈ items, ∃ text, line item = some text ∧ part item <:+: text ∧ part item ≠ [])
    : ∃ shown : Token → Text,
        codegen py composite lang = some (fill shown language.template)
        ∧ shown .camel = camel py composite.name.toList
        ∧ shown .pascal = pascal py composite.name.toList
        ∧ shown .snake = snake composite.name.toList
        ∧ ∀ item ∈ items, part item <:+: fill shown language.template := by
  have complete : (items.mapM line).isSome := by
    refine mapM_isSome_iff.mpr fun item member => ?_
    obtain ⟨text, isLine, -⟩ := each item member
    simp only [isLine]
    rfl
  obtain ⟨lines, mapped⟩ := Option.isSome_iff_exists.mp complete
  obtain ⟨shown, code, isCamel, isPascal, isSnake, own⟩ :=
    exists_shown supported known (made.trans (congrArg (Option.map _) mapped))
  refine ⟨shown, code, isCamel, isPascal, isSnake, fun item member => ?_⟩
  obtain ⟨text, isLine, inside, nonempty⟩ := each item member
  exact infix_of_line inTemplate (own _ List.mem_cons_self) (mem_of_mapM mapped member isLine)
    inside nonempty

-----------------------------------------------------------------------------------------
-- The declarations of each language
-----------------------------------------------------------------------------------------

section Languages

variable {shown : Token → Text} {name : Text}

/-- A hole's text between two fixed ones, with the start of the second, is a declaration. -/
theorem infix_declared {pieces : Template} {before after keyword next : String}
    {identifier more : Text} {token : Token} (isShown : identifier = shown token ++ more)
    (around : [fixed before, .hole token, fixed after] <:+: pieces)
    (ends : keyword.toList <:+ before.toList) (starts : more ++ next.toList <+: after.toList)
    : (Declaration.mk keyword identifier next).text <:+: fill shown pieces := by
  simp only [Declaration.text, isShown, List.append_assoc]
  exact infix_fill_of_around around ends starts

theorem declarations_js (isCamel : shown .camel = camel py name) (inputs : List Text)
    : ∀ declared ∈ declarations py name inputs .js, declared.text <:+: fill shown jsTemplate := by
  refine List.forall_mem_singleton.mpr ?_
  refine infix_declared (isCamel.symm.trans (List.append_nil _).symm)
    ⟨jsTemplate.take 8, jsTemplate.drop 11, rfl⟩ (List.suffix_refl _) ?_
  decide

theorem declarations_ts (isCamel : shown .camel = camel py name)
    (isPascal : shown .pascal = pascal py name) {inputs : List Text}
    (fields : ∀ input ∈ inputs, input ++ ": ".toList <:+: fill shown tsTemplate)
    : ∀ declared ∈ declarations py name inputs .ts, declared.text <:+: fill shown tsTemplate := by
  simp only [declarations, List.forall_mem_cons]
  refine ⟨?_, ?_, List.forall_mem_map.mpr fields⟩
  · refine infix_declared (congrArg (· ++ _) isPascal.symm)
      ⟨tsTemplate.take 8, tsTemplate.drop 11, rfl⟩ (List.suffix_refl _) ?_
    decide
  · refine infix_declared (isCamel.symm.trans (List.append_nil _).symm)
      ⟨tsTemplate.take 13, tsTemplate.drop 16, rfl⟩ (List.suffix_refl _) ?_
    decide

theorem declarations_go (isPascal : shown .pascal = pascal py name) {inputs : List Text}
    (fields
      : ∀ input ∈ inputs,
          "\t".toList ++ (pascal py input ++ " ".toList) <:+: fill shown goTemplate)
    : ∀ declared ∈ declarations py name inputs .go, declared.text <:+: fill shown goTemplate := by
  simp only [declarations, List.forall_mem_cons]
  refine ⟨?_, ?_, ?_, ?_, ?_, List.forall_mem_map.mpr fields⟩
  · exact infix_fill_of_text (List.mem_of_getElem? (i := 8) rfl) (by decide)
  · refine infix_declared (congrArg (· ++ _) isPascal.symm)
      ⟨goTemplate.take 20, goTemplate.drop 23, rfl⟩ (List.suffix_refl _) ?_
    decide
  · refine infix_declared (isPascal.symm.trans (List.append_nil _).symm)
      ⟨goTemplate.take 34, goTemplate.drop 37, rfl⟩ (List.suffix_refl _) ?_
    decide
  · exact infix_fill_of_text (List.mem_of_getElem? (i := 51) rfl) (by decide)
  · exact infix_fill_of_text (List.mem_of_getElem? (i := 52) rfl) (by decide)

theorem declarations_rust (isSnake : shown .snake = snake name) (inputs : List Text)
    : ∀ declared ∈ declarations py name inputs .rust,
        declared.text <:+: fill shown rustTemplate := by
  refine List.forall_mem_singleton.mpr ?_
  refine infix_declared (isSnake.symm.trans (List.append_nil _).symm)
    ⟨rustTemplate.take 18, rustTemplate.drop 21, rfl⟩ (List.suffix_refl _) ?_
  decide

theorem declarations_java (isPascal : shown .pascal = pascal py name) (inputs : List Text)
    : ∀ declared ∈ declarations py name inputs .java,
        declared.text <:+: fill shown javaTemplate := by
  simp only [declarations, List.forall_mem_cons, List.not_mem_nil, false_implies, implies_true,
    and_true]
  refine ⟨?_, ?_, ?_⟩
  · exact infix_fill_of_text (List.mem_of_getElem? (i := 9) rfl) (by decide)
  · refine infix_declared (isPascal.symm.trans (List.append_nil _).symm)
      ⟨javaTemplate.take 17, javaTemplate.drop 20, rfl⟩ (List.suffix_refl _) ?_
    decide
  · exact infix_fill_of_text (List.mem_of_getElem? (i := 29) rfl) (by decide)

theorem declarations_proto (isPascal : shown .pascal = pascal py name)
    (isSnake : shown .snake = snake name) {inputs : List Text}
    (fields
      : ∀ input ∈ inputs, " ".toList ++ (input ++ " = ".toList) <:+: fill shown protoTemplate)
    : ∀ declared ∈ declarations py name inputs .proto,
        declared.text <:+: fill shown protoTemplate := by
  simp only [declarations, List.forall_mem_cons]
  refine ⟨?_, ?_, ?_, ?_, ?_, ?_, ?_, List.forall_mem_map.mpr fields⟩
  · exact infix_fill_of_text (List.mem_of_getElem? (i := 9) rfl) (by decide)
  · refine infix_declared (isSnake.symm.trans (List.append_nil _).symm)
      ⟨protoTemplate.take 9, protoTemplate.drop 12, rfl⟩ (List.suffix_refl _) ?_
    decide
  · refine infix_declared (isPascal.symm.trans (List.append_nil _).symm)
      ⟨protoTemplate.take 13, protoTemplate.drop 16, rfl⟩ (List.suffix_refl _) ?_
    decide
  · exact infix_fill_of_text (List.mem_of_getElem? (i := 19) rfl) (by decide)
  · refine infix_declared (congrArg (· ++ _) isPascal.symm)
      ⟨protoTemplate.take 25, protoTemplate.drop 28, rfl⟩ (List.suffix_refl _) ?_
    decide
  · refine infix_declared (congrArg (· ++ _) isPascal.symm)
      ⟨protoTemplate.take 31, protoTemplate.drop 34, rfl⟩ (List.suffix_refl _) ?_
    decide
  · exact infix_fill_of_text (List.mem_of_getElem? (i := 34) rfl) (by decide)

/-- Typed properties give code, and it has all declarations of its language. -/
theorem exists_code {props : List (String × Json)}
    (supported : Language.ofName? (unaliased lang) = some language)
    (known : compositeProps composite = some props) (typed : Typed props)
    : ∃ code,
        codegen py composite lang = some code
        ∧ ∀ declared ∈ declarations py composite.name.toList (props.map (·.1.toList)) language,
            declared.text <:+: code := by
  cases language with
  | js =>
      obtain ⟨shown, code, isCamel, -⟩ := exists_shown supported known rfl
      exact ⟨_, code, declarations_js isCamel _⟩
  | java =>
      obtain ⟨shown, code, -, isPascal, -⟩ := exists_shown supported known rfl
      exact ⟨_, code, declarations_java isPascal _⟩
  | rust =>
      obtain ⟨shown, code, -, -, isSnake, -⟩ :=
        @exists_shown_lines py _ _ _ supported _ known _ (rustField py) _ _ _ _ rfl (by decide)
          (fun _ => ": ".toList) fun field member => by
            obtain ⟨type, typed⟩ := typed field member
            exact ⟨_, by rw [rustField, typed], ⟨field.1.toList, _, rfl⟩, by simp⟩
      exact ⟨_, code, declarations_rust isSnake _⟩
  | ts =>
      obtain ⟨shown, code, isCamel, isPascal, -, fields⟩ :=
        @exists_shown_lines py _ _ _ supported _ known _ tsField _ _ _ _ rfl (by decide)
          (fun field => field.1.toList ++ ": ".toList) fun field member => by
            obtain ⟨type, named⟩ := exists_typeName (typed field member) tsTypes "unknown"
            exact ⟨_, by rw [tsField, named]; rfl, ⟨[], type, rfl⟩, by simp⟩
      exact ⟨_, code, declarations_ts isCamel isPascal (List.forall_mem_map.mpr fields)⟩
  | go =>
      obtain ⟨shown, code, -, isPascal, -, fields⟩ :=
        @exists_shown_lines py _ _ _ supported _ known _ (goField py) _ _ _ _ rfl (by decide)
          (fun field => "\t".toList ++ (pascal py field.1.toList ++ " ".toList))
          fun field member => by
            obtain ⟨type, named⟩ := exists_typeName (typed field member) goTypes "any"
            exact ⟨_, by rw [goField, named]; rfl,
              ⟨[], _, by simp only [List.append_assoc]; rfl⟩, by simp⟩
      exact ⟨_, code, declarations_go isPascal (List.forall_mem_map.mpr fields)⟩
  | proto =>
      obtain ⟨shown, code, -, isPascal, isSnake, fields⟩ :=
        @exists_shown_lines py _ _ _ supported _ known _ protoField _ _ _ _ rfl (by decide)
          (fun field => " ".toList ++ (field.1.1.toList ++ " = ".toList)) fun field member => by
            have inProps := List.fst_mem_of_mem_zipIdx member
            obtain ⟨type, named⟩ := exists_typeName (typed field.1 inProps) protoTypes "string"
            exact ⟨_, by rw [protoField, named]; rfl,
              ⟨"  ".toList ++ type, _, by simp only [List.append_assoc]; rfl⟩, by simp⟩
      refine ⟨_, code, declarations_proto isPascal isSnake (List.forall_mem_map.mpr ?_)⟩
      intro field member
      have inFirsts : field ∈ (props.zipIdx 1).map Prod.fst := by rwa [List.zipIdx_map_fst]
      obtain ⟨entry, inZip, rfl⟩ := List.mem_map.mp inFirsts
      exact fields entry inZip

end Languages

-----------------------------------------------------------------------------------------
-- Valid identifiers
-----------------------------------------------------------------------------------------

/-- The names of an agent and its inputs that give identifiers in a language: what is converted
must be convertible, and what is written as it is must have no dash.
-/
def ValidNames (name : Text) (inputs : List Text) : Language → Prop
  | .js | .rust | .java => Convertible name
  | .go => Convertible name ∧ ∀ input ∈ inputs, Convertible input
  | .ts | .proto => Convertible name ∧ ∀ input ∈ inputs, '-' ∉ input

/-- A converted name is never empty. -/
theorem pascal_ne_nil (name : Name) : pascal py name.text ≠ [] := by
  rcases parts_cases name.text with none | ⟨c, word, others, words⟩
  · simp only [pascal, none]
    exact List.cons_ne_nil _ _
  · simp only [pascal_of_parts words]
    exact List.cons_ne_nil _ _

/-- The type of the inputs is as valid as the converted name. -/
theorem isIdentifier_pascal_append_iff (name : Name) {more : Text}
    (continues : ∀ c ∈ more, isIdentifierChar c)
    : IsIdentifier (pascal py name.text ++ more) ↔ Convertible name.text :=
  (isIdentifier_append (pascal_ne_nil name) continues).trans (isIdentifier_pascal_iff name)

/-- All declared identifiers of names are valid exactly for valid names, language by language. -/
theorem isIdentifier_declarations_iff (name : Name) {inputs : List Text}
    (named : ∀ input ∈ inputs, ∃ name : Name, input = name.text) (language : Language)
    : (∀ declared ∈ declarations py name.text inputs language, IsIdentifier declared.identifier)
      ↔ ValidNames name.text inputs language := by
  have raw : (∀ input ∈ inputs, IsIdentifier input) ↔ ∀ input ∈ inputs, '-' ∉ input := by
    refine forall₂_congr fun input member => ?_
    obtain ⟨name, rfl⟩ := named input member
    exact isIdentifier_name_iff name
  have converted
      : (∀ input ∈ inputs, IsIdentifier (pascal py input))
        ↔ ∀ input ∈ inputs, Convertible input := by
    refine forall₂_congr fun input member => ?_
    obtain ⟨name, rfl⟩ := named input member
    exact isIdentifier_pascal_iff name
  have inputType := @isIdentifier_pascal_append_iff py name "Input".toList
    (List.all_eq_true.mp rfl)
  have outputType := @isIdentifier_pascal_append_iff py name "Output".toList
    (List.all_eq_true.mp rfl)
  have fixedNames
      : IsIdentifier "agents".toList
        ∧ IsIdentifier "Output".toList
        ∧ IsIdentifier "Error".toList
        ∧ IsIdentifier "invoke".toList
        ∧ IsIdentifier "Invoke".toList
        ∧ IsIdentifier "output".toList := by
    decide
  cases language <;>
    simp only [declarations, List.forall_mem_cons, List.forall_mem_map, List.not_mem_nil,
      false_implies, implies_true, and_true, true_and, and_self_left, isIdentifier_camel_iff,
      isIdentifier_pascal_iff, isIdentifier_snake_iff, inputType, outputType, raw, converted,
      fixedNames, ValidNames]

theorem toList_string (name : Name) : name.string.toList = name.text := String.toList_ofList

/-- An accepted agent has a name, and so has each of its inputs. -/
theorem names_of_accepted {text : String} (accepted : (parse text).1 = some composite)
    : (∃ name : Name, composite.name.toList = name.text)
      ∧ ∀ input ∈ (schemaFields composite.inputSchema).map String.toList,
          ∃ name : Name, input = name.text := by
  obtain ⟨state, -, fields, ⟨name, isName⟩, rfl⟩ := exists_named accepted
  refine ⟨⟨name, (congrArg String.toList isName).trans (toList_string name)⟩, ?_⟩
  simp only [ParseState.composite, schemaFields_inputSchema]
  refine List.forall_mem_map.mpr fun field member => ?_
  obtain ⟨name, rfl⟩ := fields.inputs field member
  exact ⟨name, toList_string name⟩

/-- Accepted agents have code with all declarations of its language. -/
theorem exists_code_of_accepted (py : TextFunctions) {text : String}
    (accepted : (parse text).1 = some composite)
    (supported : Language.ofName? (unaliased lang) = some language)
    : ∃ code,
        codegen py composite lang = some code
        ∧ ∀ declared ∈ declaredBy py composite language, declared.text <:+: code := by
  obtain ⟨state, regular, -, -, rfl⟩ := exists_named accepted
  have inputs : (schemaFields state.composite.inputSchema).map String.toList
      = state.props.entries.map (·.1.toList) := by
    simp only [ParseState.composite, schemaFields_inputSchema, Dict.keys, List.map_map]
    rfl
  simp only [declaredBy, inputs]
  exact exists_code supported (compositeProps_composite state) regular.props

/-- An accepted agent's code has all its declarations, and their identifiers are valid exactly
when its name and its inputs' names are valid for the language.
-/
theorem identifiers_valid_iff (py : TextFunctions) {text : String} {composite : Composite}
    (accepted : (parse text).1 = some composite) {lang : String} {language : Language}
    (supported : Language.ofName? (unaliased lang) = some language)
    : ∃ code,
        codegen py composite lang = some code
        ∧ (∀ declared ∈ declaredBy py composite language, declared.text <:+: code)
        ∧ ((∀ declared ∈ declaredBy py composite language, IsIdentifier declared.identifier)
            ↔ ValidNames composite.name.toList
                ((schemaFields composite.inputSchema).map String.toList) language) := by
  obtain ⟨code, generated, declared⟩ := exists_code_of_accepted py accepted supported
  obtain ⟨⟨name, isName⟩, named⟩ := names_of_accepted accepted
  refine ⟨code, generated, declared, ?_⟩
  simp only [declaredBy, isName]
  exact isIdentifier_declarations_iff name named language

/-- An agent whose names have dashes before letters. -/
def dashedAgent : String := "agent greet-report\ninput user-name: string\nstep s = c()"

/-- All identifiers of its Go code are valid. -/
theorem identifiers_valid_dashed
    : ∃ composite code,
        (parse dashedAgent).1 = some composite
        ∧ codegen asciiText composite "golang" = some code
        ∧ ∀ declared ∈ declaredBy asciiText composite .go,
            declared.text <:+: code ∧ IsIdentifier declared.identifier := by
  have parsed : (parse dashedAgent).1.map
        (fun composite => (composite.name, schemaFields composite.inputSchema))
      = some ("greet-report", ["user-name"]) := by
    decide +kernel
  obtain ⟨composite, accepted, names⟩ := Option.map_eq_some_iff.mp parsed
  obtain ⟨name, inputs⟩ := Prod.mk.inj names
  obtain ⟨code, generated, declared, valid⟩ := identifiers_valid_iff asciiText accepted
    (show Language.ofName? (unaliased "golang") = some .go from rfl)
  refine ⟨composite, code, accepted, generated, fun one member => ⟨declared one member, ?_⟩⟩
  refine valid.mpr ?_ one member
  simp only [name, inputs]
  exact ⟨rfl, List.forall_mem_singleton.mpr rfl⟩

/-- An agent whose name has a digit first behind the underscore. -/
def numberedAgent : String := "agent _1\nstep s = c()"

/-- The parser accepts the agent, and its JavaScript code declares a function named `1`. -/
theorem numberedAgent_not_valid
    : ∃ composite code,
        (parse numberedAgent).1 = some composite
        ∧ codegen asciiText composite "js" = some code
        ∧ ∃ declared ∈ declaredBy asciiText composite .js,
            declared.text <:+: code ∧ ¬ IsIdentifier declared.identifier := by
  have parsed : (parse numberedAgent).1.map (·.name) = some "_1" := by decide +kernel
  obtain ⟨composite, accepted, name⟩ := Option.map_eq_some_iff.mp parsed
  obtain ⟨code, generated, declared⟩ := exists_code_of_accepted asciiText accepted
    (show Language.ofName? (unaliased "js") = some .js from rfl)
  have member : ⟨"export async function ", camel asciiText composite.name.toList, "("⟩
      ∈ declaredBy asciiText composite .js := List.mem_cons_self
  refine ⟨composite, code, accepted, generated, _, member, declared _ member, ?_⟩
  simp only [name]
  decide +kernel

end AgentDsl

end AgentFeatures
