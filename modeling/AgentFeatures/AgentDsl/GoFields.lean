import AgentFeatures.AgentDsl.Identifiers

/-! The fields of the generated Go struct. -/

namespace AgentFeatures

open Library
open Library.Substitution

namespace AgentDsl

variable {py : TextFunctions}

-----------------------------------------------------------------------------------------
-- What the conversion keeps of a name
-----------------------------------------------------------------------------------------

/-- A letter as the conversion writes it: in upper case where a word starts. -/
def cased (letter : Char × Bool) : Char :=
  if letter.2 then letter.1.toUpper else letter.1.toLower

/-- A letter up to case, and whether it is an alphabetic one that starts a word. -/
def letterKey (letter : Char × Bool) : Char × Bool :=
  (letter.1.toLower, letter.2 && letter.1.isAlpha)

/-- What is left of a name without separators and case: its letters and digits, and at which of
the letters words start.
-/
def outline (name : Text) : List (Char × Bool) := (letters true name).map letterKey

theorem letterKey_eq (letter : Char × Bool)
    : letterKey letter = ((cased letter).toLower, (cased letter).isUpper) := by
  obtain ⟨c, starts⟩ := letter
  cases starts <;> simp [letterKey, cased]

theorem cased_eq (letter : Char × Bool)
    : cased letter
      = if (letterKey letter).2 then (letterKey letter).1.toUpper else (letterKey letter).1 := by
  obtain ⟨c, starts⟩ := letter
  by_cases alphabetic : c.isAlpha
  · cases starts <;> simp [letterKey, cased, alphabetic]
  · have same : c.toUpper = c.toLower := by
      simp only [Char.isAlpha, Bool.or_eq_true, not_or] at alphabetic
      rw [Char.toUpper_eq_of_not_isLower alphabetic.2, Char.toLower_eq_of_not_isUpper alphabetic.1]
    cases starts <;> simp [letterKey, cased, alphabetic, same]

/-- Letters are written alike exactly when they agree up to case and in the words' starts. -/
theorem map_cased_eq_iff {letters others : List (Char × Bool)}
    : letters.map cased = others.map cased ↔ letters.map letterKey = others.map letterKey := by
  constructor
  · intro same
    have again := congrArg (List.map fun c => (Char.toLower c, Char.isUpper c)) same
    simpa only [List.map_map, Function.comp_def, ← letterKey_eq] using again
  · intro same
    have again := congrArg (List.map fun key => if key.2 then Char.toUpper key.1 else key.1) same
    simpa only [List.map_map, Function.comp_def, ← cased_eq] using again

theorem map_cased_markFirst (word : Text)
    : (markFirst word).map cased = capitalizeAscii word := by
  cases word with
  | nil => rfl
  | cons first rest => simp [markFirst, capitalizeAscii, cased, Function.comp_def]

/-- The converted name is its letters as they are written; a name without letters stays. -/
theorem pascal_eq (name : Name)
    : pascal py name.text = orText ((letters true name.text).map cased) name.text := by
  have words : (parts name.text).flatMap py.capitalize
      = (parts name.text).flatMap fun word => (markFirst word).map cased :=
    List.flatMap_congr fun word member => by
      simp only [capitalize_part member, map_cased_markFirst]
  simp only [pascal, words, letters_eq_flatMap, List.map_flatMap]

theorem outline_eq_nil_iff {name : Text} : outline name = [] ↔ parts name = [] := by
  simp only [outline, List.map_eq_nil_iff, letters_eq_flatMap]
  refine ⟨?_, fun none => by rw [none]; rfl⟩
  intro empty
  simp only [List.eq_nil_iff_forall_not_mem]
  intro part member
  have noMarks := List.flatMap_eq_nil_iff.mp empty part member
  rw [← map_fst_markFirst part, noMarks] at member
  exact ne_nil_of_mem_parts member rfl

/-- A name of separators is its own conversion. -/
theorem pascal_of_outline_eq_nil {name : Text} (plain : outline name = [])
    : pascal py name = name := by
  simp only [pascal, outline_eq_nil_iff.mp plain]
  rfl

/-- A name with letters is converted to its letters, and starts with one. -/
theorem pascal_of_outline_ne_nil {name : Name} (lettered : outline name.text ≠ [])
    : pascal py name.text = (letters true name.text).map cased
      ∧ ∀ c ∈ (pascal py name.text).head?, isSeparator c = false := by
  constructor
  · rw [pascal_eq, orText, if_neg]
    intro empty
    exact lettered (congrArg _ (List.map_eq_nil_iff.mp (List.isEmpty_iff.mp empty)))
  · rcases parts_cases name.text with none | ⟨c, word, others, words⟩
    · exact absurd (outline_eq_nil_iff.mpr none) lettered
    · have here := isAlphanum_of_mem_parts (words ▸ List.mem_cons_self) List.mem_cons_self
      simp only [pascal_of_parts words]
      intro d isFirst
      obtain rfl := Option.some.inj isFirst
      exact isSeparator_of_isAlphanum (isAlphanum_toUpper here)

/-- A name of separators and one with letters are converted to different texts. -/
theorem pascal_ne {name other : Name} (plain : outline name.text = [])
    (lettered : outline other.text ≠ [])
    : pascal py name.text ≠ pascal py other.text := by
  intro same
  have separates := parts_eq_nil_iff.mp (outline_eq_nil_iff.mp plain) name.first List.mem_cons_self
  have visible := (@pascal_of_outline_ne_nil py other lettered).2
  simp only [← same, pascal_of_outline_eq_nil plain] at visible
  exact absurd (separates.symm.trans (visible name.first rfl)) (by decide)

/-- Two names collide when separators and case make their only difference, and they have letters
or digits at all.
-/
def Collide (name other : Text) : Prop := outline name = outline other ∧ outline name ≠ []

/-- The conversion is injective up to collisions. Witness: it writes just what the outline
keeps, and leaves a name of separators as it is.
-/
theorem pascal_eq_iff (name other : Name)
    : pascal py name.text = pascal py other.text ↔ name = other ∨ Collide name.text other.text := by
  by_cases plain : outline name.text = []
  · by_cases plain' : outline other.text = []
    · simp only [pascal_of_outline_eq_nil plain, pascal_of_outline_eq_nil plain', Collide]
      simp only [plain, ne_eq, not_true, and_false, or_false]
      exact ⟨Word.text_injective, congrArg Word.text⟩
    · refine iff_of_false (pascal_ne plain plain') fun either => ?_
      rcases either with rfl | collide
      · exact plain' plain
      · exact collide.2 plain
  · by_cases plain' : outline other.text = []
    · refine iff_of_false (fun same => pascal_ne plain' plain same.symm) fun either => ?_
      rcases either with rfl | collide
      · exact plain plain'
      · exact plain (collide.1.trans plain')
    · simp only [(pascal_of_outline_ne_nil plain).1, (pascal_of_outline_ne_nil plain').1,
        map_cased_eq_iff]
      constructor
      · exact fun same => .inr ⟨same, plain⟩
      · intro either
        rcases either with rfl | collide
        · rfl
        · exact collide.1

-----------------------------------------------------------------------------------------
-- The struct
-----------------------------------------------------------------------------------------

variable {composite : Composite} {lang : String}

/-- The struct of an agent's inputs with the lines of its fields. -/
def goStruct (py : TextFunctions) (name : Text) (lines : List Text) : Text :=
  "type ".toList ++ (pascal py name ++ ("Input struct \x7b\n".toList
    ++ (orText (join "\n" lines) "\t// (no inputs)".toList
      ++ ("\n".toList ++ "\x7d\n\n".toList))))

/-- The line declares the converted name of the input, with some type, and its JSON name. -/
def IsGoField (py : TextFunctions) (input : String) (line : Text) : Prop :=
  ∃ type : Text,
    line
      = "\t".toList ++ pascal py input.toList ++ " ".toList ++ type ++ " \x60json:\"".toList
        ++ input.toList ++ "\"\x60".toList

/-- The Go code of an agent has one struct field for each declared input, and the names of the
fields differ.
-/
def DistinctFields (py : TextFunctions) (text : String) (composite : Composite) (lang : String)
    : Prop :=
  ∃ code lines inputs,
    codegen py composite lang = some code
    ∧ goStruct py composite.name.toList lines <:+: code
    ∧ List.Forall₂ (IsGoField py) inputs lines
    ∧ inputs.Nodup
    ∧ (∀ field, field ∈ inputs ↔ DeclaresInput text field)
    ∧ (inputs.map fun input => pascal py input.toList).Nodup

/-- The Go code of typed properties has the struct with a line for each of them. -/
theorem exists_goStruct {props : List (String × Json)}
    (supported : Language.ofName? (unaliased lang) = some .go)
    (known : compositeProps composite = some props) (typed : Typed props)
    : ∃ code lines,
        codegen py composite lang = some code
        ∧ goStruct py composite.name.toList lines <:+: code
        ∧ List.Forall₂ (IsGoField py) (props.map Prod.fst) lines := by
  have complete : (props.mapM (goField py)).isSome := by
    refine mapM_isSome_iff.mpr fun field member => ?_
    obtain ⟨type, named⟩ := exists_typeName (typed field member) goTypes "any"
    simp only [goField, named]
    rfl
  obtain ⟨lines, mapped⟩ := Option.isSome_iff_exists.mp complete
  obtain ⟨shown, code, -, isPascal, -, own⟩ :=
    exists_shown supported known (congrArg (Option.map _) mapped)
  have isFields : shown .goFields = orText (join "\n" lines) "\t// (no inputs)".toList :=
    own _ List.mem_cons_self
  refine ⟨_, lines, code, ?_, ?_⟩
  · have inTemplate : [fixed "type ", .hole .pascal, fixed "Input struct \x7b\n", .hole .goFields,
        fixed "\n", fixed "\x7d\n\n"] <:+: goTemplate :=
      ⟨goTemplate.take 20, goTemplate.drop 26, rfl⟩
    have filled := @infix_fill _ _ shown _ _ inTemplate
    simp only [goStruct, ← isPascal, ← isFields]
    simp only [fill_cons, fill_nil, Piece.fill, fixed, List.append_nil] at filled
    exact filled
  · refine List.forall₂_map_left_iff.mpr ((mapM_eq_some_iff.mp mapped).imp ?_)
    intro field line isLine
    obtain ⟨type, -, rfl⟩ := Option.map_eq_some_iff.mp isLine
    exact ⟨type, rfl⟩

/-- A declared input is written as a name. -/
theorem DeclaresInput.exists_name {text field : String} (declared : DeclaresInput text field)
    : ∃ name : Name, field = name.string := by
  obtain ⟨entry, -, name, optional, type, -, same⟩ := declared
  exact ⟨name, same⟩

/-- The fields of the Go struct are distinct exactly when no two declared inputs collide. -/
theorem goFields_distinct_iff (py : TextFunctions) {text : String} {composite : Composite}
    (accepted : (parse text).1 = some composite) {lang : String}
    (supported : Language.ofName? (unaliased lang) = some .go)
    : DistinctFields py text composite lang
      ↔ ∀ field other,
          DeclaresInput text field
          → DeclaresInput text other
          → field ≠ other
          → ¬ Collide field.toList other.toList := by
  constructor
  · intro distinct field other isField isOther differs collide
    obtain ⟨code, lines, inputs, -, -, -, unique, declared, distinctNames⟩ := distinct
    obtain ⟨name, rfl⟩ := isField.exists_name
    obtain ⟨name', rfl⟩ := isOther.exists_name
    have same : pascal py name.string.toList = pascal py name'.string.toList := by
      simp only [toList_string] at collide ⊢
      exact (pascal_eq_iff name name').mpr (.inr collide)
    have injective := (List.nodup_map_iff_inj_on unique).mp distinctNames
    exact differs (injective _ ((declared _).mpr isField) _ ((declared _).mpr isOther) same)
  · intro apart
    obtain ⟨state, regular, -, -, rfl⟩ := exists_named accepted
    have keys : schemaFields state.composite.inputSchema = state.props.keys :=
      schemaFields_inputSchema _ _
    have declared (field : String) : field ∈ state.props.keys ↔ DeclaresInput text field := by
      simp only [← keys]
      exact mem_schemaFields_iff accepted
    obtain ⟨code, lines, generated, struct, fields⟩ :=
      @exists_goStruct py _ _ _ supported (compositeProps_composite state) regular.props
    refine ⟨code, lines, state.props.keys, generated, struct, fields, state.props.nodup,
      declared, ?_⟩
    refine (List.nodup_map_iff_inj_on state.props.nodup).mpr ?_
    intro field member other member' same
    by_contra differs
    have isField := (declared field).mp member
    have isOther := (declared other).mp member'
    obtain ⟨name, rfl⟩ := isField.exists_name
    obtain ⟨name', rfl⟩ := isOther.exists_name
    simp only [toList_string] at same
    rcases (pascal_eq_iff name name').mp same with rfl | collide
    · exact differs rfl
    · refine apart _ _ isField isOther differs ?_
      rwa [toList_string, toList_string]

/-- The agent of a dashed input has distinct fields. -/
theorem goFields_distinct_dashed
    : ∃ composite,
        (parse dashedAgent).1 = some composite
        ∧ DistinctFields asciiText dashedAgent composite "go" := by
  have parsed : (parse dashedAgent).1.map (schemaFields ·.inputSchema) = some ["user-name"] := by
    decide +kernel
  obtain ⟨composite, accepted, inputs⟩ := Option.map_eq_some_iff.mp parsed
  refine ⟨composite, accepted, (goFields_distinct_iff asciiText accepted rfl).mpr ?_⟩
  intro field other isField isOther differs
  have only (field : String) (declared : DeclaresInput dashedAgent field) : field = "user-name" :=
    List.mem_singleton.mp (inputs ▸ (mem_schemaFields_iff accepted).mpr declared)
  exact absurd ((only field isField).trans (only other isOther).symm) differs

/-- An agent with an input in two spellings. -/
def twoSpellings : String :=
  "agent a\ninput user-id: string\ninput user_id: string\nstep s = c()"

/-- The parser accepts both inputs, and both are the field `UserId`. -/
theorem twoSpellings_not_distinct
    : ∃ composite,
        (parse twoSpellings).1 = some composite
        ∧ ¬ DistinctFields asciiText twoSpellings composite "go" := by
  have parsed : (parse twoSpellings).1.map (schemaFields ·.inputSchema)
      = some ["user-id", "user_id"] := by
    decide +kernel
  obtain ⟨composite, accepted, fields⟩ := Option.map_eq_some_iff.mp parsed
  refine ⟨composite, accepted, fun distinct => ?_⟩
  obtain ⟨code, lines, inputs, -, -, -, unique, declared, distinctNames⟩ := distinct
  have isInput (field : String) (member : field ∈ ["user-id", "user_id"]) : field ∈ inputs :=
    (declared field).mpr ((mem_schemaFields_iff accepted).mp (fields ▸ member))
  have injective := (List.nodup_map_iff_inj_on unique).mp distinctNames
  have same := injective "user-id" (isInput _ (by decide)) "user_id" (isInput _ (by decide))
    (by decide +kernel)
  exact absurd same (by decide)

end AgentDsl

end AgentFeatures
