import AgentFeatures.AgentDsl.Parse

/-! The grammar of agent files, and how the line patterns read it. -/

namespace AgentFeatures

open Library
open Library.Text (Stops isSpace stops_nil stops_cons)

namespace AgentDsl

/-- A word of the grammar: a letter or an underscore, then characters of a class. -/
@[ext]
structure Word (continued : Char → Bool) where
  first : Char
  rest : Text
  starts : isNameStart first
  continues : ∀ c ∈ rest, continued c

/-- `NAME`. -/
abbrev Name := Word isNameChar

/-- `REF`. -/
abbrev Ref := Word isRefChar

def Word.text {continued : Char → Bool} (word : Word continued) : Text :=
  word.first :: word.rest

/-- A word as a string. -/
def Word.string {continued : Char → Bool} (word : Word continued) : String := .ofList word.text

@[simp] theorem Word.ofList_text {continued : Char → Bool} (word : Word continued)
    : String.ofList word.text = word.string := rfl

theorem Word.string_ne_empty {continued : Char → Bool} (word : Word continued)
    : word.string ≠ "" := by
  simp [Word.string, Word.text]

theorem Word.text_injective {continued : Char → Bool} {word other : Word continued}
    (same : word.text = other.text)
    : word = other := by
  obtain ⟨first, rest⟩ := List.cons.inj same
  exact Word.ext first rest

theorem Word.string_injective {continued : Char → Bool}
    : Function.Injective (@Word.string continued) :=
  fun _ _ same => Word.text_injective (String.ofList_injective same)

/-- White space between two tokens, possibly none. -/
structure Gap where
  text : Text
  blank : ∀ c ∈ text, isSpace c

def Gap.empty : Gap := ⟨[], by simp⟩

/-- One space. -/
def Gap.space : Gap := ⟨[' '], List.all_eq_true.mp rfl⟩

/-- A line of an agent file. The arguments of a step are the text between its parentheses. -/
inductive Statement where
  | agent (name : Name)
  | description (text : Text)
  | input (field : Name) (optional : Bool) (type : Name)
  | step (name capability : Name) (vendor : Option Name) (arguments : Text)
  | output (field : Name) (ref : Ref)

/-- `['?']`. -/
def optionalMark (optional : Bool) : Text := if optional then ['?'] else []

/-- `['@' NAME]`. -/
def vendorPin : Option Name → Text
  | none => []
  | some vendor => '@' :: vendor.text

/-- The lines that spell a statement, with any white space the patterns allow. -/
inductive Writes : Statement → Text → Prop
  | agent (gap : Gap) (name : Name)
    : Writes (.agent name) ("agent ".toList ++ (gap.text ++ name.text))
  | description (text : Text)
    : Writes (.description text) ("description".toList ++ text)
  | input (gap : Gap) (field : Name) (optional : Bool) (before after : Gap) (type : Name)
    : Writes (.input field optional type)
        ("input ".toList ++ (gap.text ++ (field.text ++ (optionalMark optional
          ++ (before.text ++ ':' :: (after.text ++ type.text))))))
  | step (gap : Gap) (name : Name) (before after : Gap) (capability : Name)
    (vendor : Option Name) (last : Gap) (arguments : Text) (oneLine : '\n' ∉ arguments)
    : Writes (.step name capability vendor arguments)
        ("step ".toList ++ (gap.text ++ (name.text ++ (before.text ++ '=' :: (after.text
          ++ (capability.text ++ (vendorPin vendor
            ++ (last.text ++ '(' :: (arguments ++ [')'])))))))))
  | output (gap : Gap) (field : Name) (before after : Gap) (ref : Ref)
    : Writes (.output field ref)
        ("output ".toList ++ (gap.text ++ (field.text ++ (before.text ++ '=' :: (after.text
          ++ ref.text)))))

/-- `NAME: REF {',' NAME: REF}`. -/
inductive WritesArguments : Text → List (Name × Ref) → Prop
  | last (gap : Gap) (key : Name) (before after : Gap) (ref : Ref) (trailing : Gap)
    : WritesArguments
        (gap.text ++ (key.text ++ (before.text ++ ':' :: (after.text
          ++ (ref.text ++ trailing.text)))))
        [(key, ref)]
  | more (gap : Gap) (key : Name) (before after : Gap) (ref : Ref) (trailing : Gap)
    {rest : Text} {others : List (Name × Ref)} (later : WritesArguments rest others)
    : WritesArguments
        (gap.text ++ (key.text ++ (before.text ++ ':' :: (after.text
          ++ (ref.text ++ (trailing.text ++ ',' :: rest))))))
        ((key, ref) :: others)

/-- `[NAME: REF {',' NAME: REF}]`. -/
def Arguments (text : Text) (pairs : List (Name × Ref)) : Prop :=
  (pairs = [] ∧ ∀ c ∈ text, isSpace c) ∨ WritesArguments text pairs

theorem isNameChar_of_isNameStart {c : Char} (starts : isNameStart c) : isNameChar c := by
  simp only [isNameStart, Bool.or_eq_true] at starts
  rcases starts with alpha | underscore
  · simp [isNameChar, Char.isAlphanum, alpha]
  · simp [isNameChar, underscore]

/-- A name is made of the characters of names. -/
theorem isNameChar_of_mem (name : Name) {c : Char} (member : c ∈ name.text) : isNameChar c := by
  rcases List.mem_cons.mp member with rfl | later
  · exact isNameChar_of_isNameStart name.starts
  · exact name.continues c later

theorem isRefChar_of_isNameChar {c : Char} (inName : isNameChar c) : isRefChar c := by
  simp [isRefChar, inName]

/-- The characters of words are visible ones of ASCII. -/
theorem ascii_of_isRefChar {c : Char} (inRef : isRefChar c) : 0x20 < c.toNat ∧ c.toNat < 0x80 := by
  simp only [isRefChar, isNameChar, Char.isAlphanum, Char.isAlpha, Char.isUpper, Char.isLower,
    Char.isDigit, Bool.or_eq_true, Bool.and_eq_true, decide_eq_true_eq, beq_iff_eq, ge_iff_le,
    UInt32.le_iff_toNat_le] at inRef
  have n : c.val.toNat = c.toNat := rfl
  rcases inRef with ((alnum | rfl) | rfl) | rfl
  · simp at alnum
    omega
  all_goals decide

/-- No character of a word is white space. -/
theorem isSpace_of_isRefChar {c : Char} (inRef : isRefChar c) : isSpace c = false := by
  have ascii := ascii_of_isRefChar inRef
  simp only [isSpace, Bool.or_eq_false_iff, Bool.and_eq_false_iff, decide_eq_false_iff_not,
    beq_eq_false_iff_ne]
  omega

theorem isRefChar_of_isSpace {c : Char} (space : isSpace c) : isRefChar c = false :=
  Bool.eq_false_iff.mpr fun inRef => by simp [isSpace_of_isRefChar inRef] at space

theorem isNameChar_of_isSpace {c : Char} (space : isSpace c) : isNameChar c = false :=
  Bool.eq_false_iff.mpr fun inName => by
    simp [isSpace_of_isRefChar (isRefChar_of_isNameChar inName)] at space

theorem isNameStart_of_isSpace {c : Char} (space : isSpace c) : isNameStart c = false :=
  Bool.eq_false_iff.mpr fun starts => by
    have inName := isNameChar_of_isNameStart starts
    simp [isNameChar_of_isSpace space] at inName

/-- A character outside a class is none of its characters. -/
theorem beq_of_outside {cls : Char → Bool} {c d : Char} (inside : cls c) (outside : cls d = false)
    : (c == d) = false := by
  refine beq_eq_false_iff_ne.mpr ?_
  intro same
  subst same
  simp [inside] at outside

theorem rejects_char_seq {cls : Char → Bool} {c : Char} (outside : cls c = false)
    (pattern : Regex)
    : ((char c).seq pattern).Rejects cls := by
  refine Regex.rejects_of_opens rfl fun other inside => ?_
  simp [Regex.opens, Regex.nullable, char, beq_of_outside inside outside]

theorem rejects_spaces_char_seq {cls : Char → Bool} {c : Char} (outside : cls c = false)
    (visible : ∀ other, cls other → isSpace other = false) (pattern : Regex)
    : (spaces.seq ((char c).seq pattern)).Rejects cls := by
  refine Regex.rejects_of_opens rfl fun other inside => ?_
  simp [Regex.opens, Regex.nullable, spaces, char, visible other inside,
    beq_of_outside inside outside]

/-- A single character as a class is told apart from white space and other characters. -/
theorem rejects_beq_spaces_char_seq {c d : Char} (visible : isSpace d = false)
    (differs : (c == d) = false) (pattern : Regex)
    : (spaces.seq ((char c).seq pattern)).Rejects (· == d) := by
  refine @rejects_spaces_char_seq (· == d) c differs (fun other same => ?_) pattern
  rw [eq_of_beq same, visible]

/-- Words do not start with white space. -/
theorem rejects_word (continued : Char → Bool)
    : (Regex.word isNameStart continued).Rejects isSpace := by
  refine Regex.rejects_of_opens rfl fun other space => ?_
  simp [Regex.word, Regex.opens, Regex.nullable, isNameStart_of_isSpace space]

theorem rejects_name : nameRe.Rejects isSpace := rejects_word isNameChar

theorem rejects_ref : refRe.Rejects isSpace := rejects_word isRefChar

theorem rejects_name_seq (pattern : Regex) : (nameRe.seq pattern).Rejects isSpace := by
  refine Regex.rejects_of_opens rfl fun other space => ?_
  simp [nameRe, Regex.word, Regex.opens, Regex.nullable, isNameStart_of_isSpace space]

theorem fullmatch_spaces_seq {pattern : Regex} (rejects : pattern.Rejects isSpace) (gap : Gap)
    {rest : Text} (stops : Stops isSpace rest)
    : (spaces.seq pattern).fullmatch (gap.text ++ rest) = pattern.fullmatch rest :=
  Regex.fullmatch_many_seq rejects stops gap.blank

theorem fullmatch_char_seq (c : Char) (pattern : Regex) (rest : Text)
    : ((char c).seq pattern).fullmatch (c :: rest) = pattern.fullmatch rest :=
  Regex.fullmatch_one_seq pattern (beq_self_eq_true c) rest

theorem fullmatch_name_seq {pattern : Regex} (rejects : pattern.Rejects isNameChar)
    (name : Name) {rest : Text} (stops : Stops isNameChar rest)
    : (nameRe.seq pattern).fullmatch (name.text ++ rest)
      = (pattern.fullmatch rest).map (some name.text :: ·) :=
  Regex.fullmatch_word_seq rejects name.starts stops name.continues

theorem fullmatch_name (name : Name) : nameRe.fullmatch name.text = some [some name.text] :=
  Regex.fullmatch_word name.starts name.continues

theorem fullmatch_ref (ref : Ref) : refRe.fullmatch ref.text = some [some ref.text] :=
  Regex.fullmatch_word ref.starts ref.continues

end AgentDsl

end AgentFeatures
