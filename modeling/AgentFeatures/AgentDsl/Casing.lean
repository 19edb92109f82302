import AgentFeatures.AgentDsl.Codegen
import AgentFeatures.AgentDsl.Grammar

/-! Names by their words: what the naming conventions of the targets keep of them. -/

namespace AgentFeatures

open Library
open Library.Substitution

namespace AgentDsl

-----------------------------------------------------------------------------------------
-- Words of a name
-----------------------------------------------------------------------------------------

/-- The characters of a name between its separators, each with whether it starts a word. -/
def letters : Bool → Text → List (Char × Bool)
  | _, [] => []
  | starts, c :: rest =>
      if isSeparator c then letters true rest else (c, starts) :: letters false rest

/-- A word with its first character marked. -/
def markFirst : Text → List (Char × Bool)
  | [] => []
  | first :: rest => (first, true) :: rest.map (·, false)

/-- The marked words of a name are its letters; inside a word, the rest of that word comes
first. Witness: induction on the name, for both at once.
-/
theorem letters_splitOnP (name : Text)
    : letters true name = (parts name).flatMap markFirst
      ∧ ∃ word others,
          name.splitOnP isSeparator = word :: others
          ∧ letters false name
            = word.map (·, false) ++ (others.filter (!·.isEmpty)).flatMap markFirst := by
  induction name with
  | nil => exact ⟨rfl, [], [], rfl, rfl⟩
  | cons c rest ih =>
      obtain ⟨fresh, word, others, split, inside⟩ := ih
      by_cases separates : isSeparator c
      · have cut : (c :: rest).splitOnP isSeparator = [] :: rest.splitOnP isSeparator := by
          simp only [List.splitOnP_cons_eq_if_modifyHead, if_pos separates]
        have same : parts (c :: rest) = parts rest := by simp [parts, cut]
        simp only [letters, if_pos separates, same]
        exact ⟨fresh, [], _, cut, fresh⟩
      · have grown : (c :: rest).splitOnP isSeparator = (c :: word) :: others := by
          simp only [List.splitOnP_cons_eq_if_modifyHead, if_neg separates, split]
          rfl
        have first : parts (c :: rest) = (c :: word) :: others.filter (!·.isEmpty) := by
          simp [parts, grown]
        simp only [letters, if_neg separates, first, inside, List.flatMap_cons, markFirst,
          List.cons_append, true_and]
        exact ⟨c :: word, others, grown, rfl⟩

/-- The letters of a name, word by word. -/
theorem letters_eq_flatMap (name : Text) : letters true name = (parts name).flatMap markFirst :=
  (letters_splitOnP name).1

/-- Letters without their marks are the characters that are no separators, by induction. -/
theorem map_fst_letters (starts : Bool) (name : Text)
    : (letters starts name).map Prod.fst = name.filter (!isSeparator ·) := by
  induction name generalizing starts with
  | nil => rfl
  | cons c rest ih =>
      by_cases separates : isSeparator c
      · simp [letters, separates, ih]
      · simp [letters, separates, ih]

theorem ne_nil_of_mem_parts {name part : Text} (member : part ∈ parts name) : part ≠ [] := by
  have kept := (List.mem_filter.mp member).2
  simpa using kept

theorem map_fst_markFirst (word : Text) : (markFirst word).map Prod.fst = word := by
  cases word with
  | nil => rfl
  | cons first rest => simp [markFirst, Function.comp_def]

/-- The words together are the characters that are no separators. -/
theorem flatten_parts (name : Text) : (parts name).flatten = name.filter (!isSeparator ·) := by
  simp only [← map_fst_letters true, letters_eq_flatMap, List.map_flatMap]
  simp only [map_fst_markFirst, List.flatMap_id']

/-- A word of a name has no separators and only characters of the name. -/
theorem mem_of_mem_parts {name part : Text} (member : part ∈ parts name) {c : Char}
    (inPart : c ∈ part)
    : c ∈ name ∧ isSeparator c = false := by
  have inName : c ∈ name.filter (!isSeparator ·) :=
    flatten_parts name ▸ List.mem_flatten.mpr ⟨part, member, inPart⟩
  simpa using inName

/-- A name has no words exactly when it is made of separators. -/
theorem parts_eq_nil_iff {name : Text} : parts name = [] ↔ ∀ c ∈ name, isSeparator c := by
  constructor
  · intro none c member
    by_contra visible
    have inside : c ∈ name.filter (!isSeparator ·) :=
      List.mem_filter.mpr ⟨member, by simpa using visible⟩
    simp only [← flatten_parts, none] at inside
    exact absurd inside List.not_mem_nil
  · intro all
    have empty : (parts name).flatten = [] := by simpa [flatten_parts] using all
    simp only [List.eq_nil_iff_forall_not_mem]
    exact fun part member => ne_nil_of_mem_parts member (List.flatten_eq_nil_iff.mp empty _ member)

-----------------------------------------------------------------------------------------
-- No placeholder in a converted name
-----------------------------------------------------------------------------------------

/-- No placeholder occurs in the text. -/
def Unmarked (text : Text) : Prop := ∀ token : Token, ¬ token.spell <:+: text

theorem unmarked_of_single {text : Text} (single : ¬ ['_', '_'] <:+: text) : Unmarked text :=
  fun token occurs => single ((spelling.starts token).isInfix.trans occurs)

theorem unmarked_of_not_mem {text : Text} (absent : '_' ∉ text) : Unmarked text :=
  unmarked_of_single fun occurs => absent (occurs.subset List.mem_cons_self)

/-- Every placeholder has a letter. -/
theorem unmarked_of_separators {text : Text} (all : ∀ c ∈ text, isSeparator c) : Unmarked text := by
  intro token occurs
  have letter : token.spell.all isSeparator = false := by cases token <;> rfl
  have separators : token.spell.all isSeparator = true :=
    List.all_eq_true.mpr fun c member => all c (occurs.subset member)
  exact absurd (letter.symm.trans separators) Bool.false_ne_true

theorem underscore_not_mem_parts {name part : Text} (member : part ∈ parts name)
    : '_' ∉ part :=
  fun inPart => absurd (mem_of_mem_parts member inPart).2 (by decide)

variable {py : TextFunctions}

/-- Capitalized words have no underscore. -/
theorem underscore_not_mem_capitalize {words : List Text} (plain : ∀ word ∈ words, '_' ∉ word)
    : '_' ∉ words.flatMap py.capitalize := by
  intro member
  obtain ⟨word, inWords, inWord⟩ := List.mem_flatMap.mp member
  exact plain word inWords (py.underscore_of_capitalize word inWord)

theorem unmarked_camel (name : Text) : Unmarked (camel py name) := by
  have plain : ∀ word ∈ parts name, '_' ∉ word := fun _ => underscore_not_mem_parts
  simp only [camel]
  cases words : parts name with
  | nil => exact unmarked_of_separators (parts_eq_nil_iff.mp words)
  | cons first rest =>
      simp only [words] at plain
      obtain ⟨here, later⟩ := List.forall_mem_cons.mp plain
      refine unmarked_of_not_mem fun member => ?_
      rcases List.mem_append.mp member with inFirst | inRest
      · exact here (py.underscore_of_lower first inFirst)
      · exact underscore_not_mem_capitalize later inRest

/-- Capitalizing leaves something of every name with words. -/
theorem flatMap_capitalize_eq_nil_iff {name : Text}
    : (parts name).flatMap py.capitalize = [] ↔ parts name = [] := by
  refine ⟨?_, fun none => by rw [none]; rfl⟩
  intro empty
  simp only [List.eq_nil_iff_forall_not_mem]
  intro part member
  cases part with
  | nil => exact ne_nil_of_mem_parts member rfl
  | cons first rest =>
      exact py.capitalize_ne_nil first rest (List.flatMap_eq_nil_iff.mp empty _ member)

theorem unmarked_pascal (name : Text) : Unmarked (pascal py name) := by
  simp only [pascal, orText]
  split
  · next empty =>
      have none := flatMap_capitalize_eq_nil_iff.mp (List.isEmpty_iff.mp empty)
      exact unmarked_of_separators (parts_eq_nil_iff.mp none)
  · exact unmarked_of_not_mem (underscore_not_mem_capitalize fun _ => underscore_not_mem_parts)

/-- A joined text starts with its first word. -/
theorem prefix_join (sep : String) (first : Text) (rest : List Text)
    : first <+: join sep (first :: rest) := by
  cases rest with
  | nil => rw [join, List.intercalate_singleton]
  | cons next others =>
      simp only [join, List.intercalate_cons_cons, List.append_assoc]
      exact List.prefix_append _ _

/-- Joining leaves something of every name with words. -/
theorem join_parts_eq_nil_iff {name : Text} : join "_" (parts name) = [] ↔ parts name = [] := by
  refine ⟨?_, fun none => by rw [none]; rfl⟩
  intro empty
  cases words : parts name with
  | nil => rfl
  | cons first rest =>
      have starts := prefix_join "_" first rest
      simp only [← words, empty] at starts
      exact absurd (List.prefix_nil.mp starts) (ne_nil_of_mem_parts (words ▸ List.mem_cons_self))

/-- Words joined by single underscores have no two underscores in a row, by list induction. -/
theorem isChain_join {words : List Text} (nonempty : ∀ word ∈ words, word ≠ [])
    (plain : ∀ word ∈ words, '_' ∉ word)
    : (join "_" words).IsChain fun c d => ¬ (c = '_' ∧ d = '_') := by
  have inWord {word : Text} (absent : '_' ∉ word)
      : word.IsChain fun c d => ¬ (c = '_' ∧ d = '_') :=
    (List.pairwise_of_forall_mem_list fun c member d _ (both : c = '_' ∧ d = '_') =>
      absent (both.1 ▸ member)).isChain
  induction words with
  | nil => exact List.isChain_nil
  | cons first rest ih =>
      obtain ⟨plainFirst, plainRest⟩ := List.forall_mem_cons.mp plain
      have later := ih (fun word member => nonempty word (List.mem_cons_of_mem _ member)) plainRest
      cases rest with
      | nil => simpa only [join, List.intercalate_singleton] using inWord plainFirst
      | cons next others =>
          obtain ⟨more, starts⟩ := prefix_join "_" next others
          obtain ⟨c, tail, rfl⟩ := List.exists_cons_of_ne_nil (nonempty next (by simp))
          have visible : c ≠ '_' := fun same => plainRest (c :: tail) (by simp) (by simp [same])
          have joined : join "_" (first :: (c :: tail) :: others)
              = first ++ '_' :: c :: (tail ++ more) := by
            rw [join, List.intercalate_cons_cons, List.append_assoc, ← join, ← starts]
            rfl
          simp only [joined]
          simp only [← starts] at later
          refine List.isChain_append.mpr ⟨inWord plainFirst, ?_, ?_⟩
          · exact List.isChain_cons_cons.mpr ⟨fun both => visible both.2, later⟩
          · intro last member _ _ both
            exact plainFirst (both.1 ▸ List.mem_of_getLast? member)

theorem unmarked_snake (name : Text) : Unmarked (snake name) := by
  simp only [snake, orText]
  split
  · next empty =>
      have none := join_parts_eq_nil_iff.mp (List.isEmpty_iff.mp empty)
      exact unmarked_of_separators (parts_eq_nil_iff.mp none)
  · refine unmarked_of_single fun occurs => ?_
    have chain := @isChain_join (parts name) (fun _ => ne_nil_of_mem_parts)
      (fun _ => underscore_not_mem_parts)
    have two := chain.infix occurs
    exact absurd two (by simp)

-----------------------------------------------------------------------------------------
-- Case conversion of ASCII
-----------------------------------------------------------------------------------------

theorem eq_underscore_of_toLower {c : Char} (same : c.toLower = '_') : c = '_' := by
  have notAlpha : c.isAlpha = false := by
    rw [← Char.isAlpha_toLower_eq_isAlpha, same]
    rfl
  have notUpper : ¬ c.isUpper := by simp_all [Char.isAlpha]
  rwa [Char.toLower_eq_of_not_isUpper notUpper] at same

theorem eq_underscore_of_toUpper {c : Char} (same : c.toUpper = '_') : c = '_' := by
  have notAlpha : c.isAlpha = false := by
    rw [← Char.isAlpha_toUpper_eq_isAlpha, same]
    rfl
  have notLower : ¬ c.isLower := by simp_all [Char.isAlpha]
  rwa [Char.toUpper_eq_of_not_isLower notLower] at same

theorem underscore_of_map_toLower {text : Text} (member : '_' ∈ text.map Char.toLower)
    : '_' ∈ text := by
  obtain ⟨c, inText, same⟩ := List.mem_map.mp member
  exact eq_underscore_of_toLower same ▸ inText

/-- `str.capitalize` on ASCII. -/
def capitalizeAscii : Text → Text
  | [] => []
  | first :: rest => first.toUpper :: rest.map Char.toLower

/-- The text functions on ASCII and on JSON texts. -/
def asciiText : TextFunctions where
  lower text := text.map Char.toLower
  capitalize := capitalizeAscii
  format
    | .str text => text.toList
    | _ => []
  lower_ascii _ _ := rfl
  capitalize_ascii _ _ _ := rfl
  capitalize_ne_nil _ _ := List.cons_ne_nil _ _
  underscore_of_lower _ := underscore_of_map_toLower
  underscore_of_capitalize text member := by
    cases text with
    | nil => exact member
    | cons first rest =>
        rcases List.mem_cons.mp member with here | later
        · exact eq_underscore_of_toUpper here.symm ▸ List.mem_cons_self
        · exact List.mem_cons_of_mem _ (underscore_of_map_toLower later)
  format_str _ := rfl

end AgentDsl

end AgentFeatures
