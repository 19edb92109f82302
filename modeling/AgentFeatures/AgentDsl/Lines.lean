import AgentFeatures.AgentDsl.Grammar

/-! The line patterns match exactly what the grammar writes. -/

namespace AgentFeatures

open Library
open Library.Text (Stops isSpace stops_nil stops_cons)

namespace AgentDsl

theorem Word.stops_space {continued : Char → Bool} (word : Word continued) (rest : Text)
    : Stops isSpace (word.text ++ rest) :=
  stops_cons (isSpace_of_isRefChar
    (isRefChar_of_isNameChar (isNameChar_of_isNameStart word.starts))) _

/-- White space may stand in front of what stops a class of word characters. -/
theorem Gap.stops {cls : Char → Bool} (blank : ∀ c, isSpace c → cls c = false) (gap : Gap)
    {rest : Text} (stops : Stops cls rest)
    : Stops cls (gap.text ++ rest) :=
  stops.append fun c member => blank c (gap.blank c member)

theorem not_beq_of_isSpace {d : Char} (visible : isSpace d = false) (c : Char) (space : isSpace c)
    : (c == d) = false :=
  beq_of_outside space visible

/-- `(\??)` reads the mark of an optional input. -/
theorem fullmatch_mark_seq {pattern : Regex} (rejects : pattern.Rejects (· == '?'))
    (optional : Bool) {rest : Text} (stops : Stops (· == '?') rest)
    : ((Regex.group (.maybe (char '?'))).seq pattern).fullmatch (optionalMark optional ++ rest)
      = (pattern.fullmatch rest).map (some (optionalMark optional) :: ·) := by
  cases optional with
  | true => exact Regex.fullmatch_optional_seq rejects rfl rest
  | false => exact Regex.fullmatch_optional_seq_skip pattern stops

/-- `(?:@({_NAME}))?` reads the pinned vendor. -/
theorem fullmatch_pin_seq {pattern : Regex} (rejectsAt : pattern.Rejects (· == '@'))
    (rejects : pattern.Rejects isNameChar) (vendor : Option Name) {rest : Text}
    (stopsAt : Stops (· == '@') rest) (stops : Stops isNameChar rest)
    : ((Regex.maybe ((char '@').seq nameRe)).seq pattern).fullmatch (vendorPin vendor ++ rest)
      = (pattern.fullmatch rest).map (vendor.map Word.text :: ·) := by
  cases vendor with
  | none => exact Regex.fullmatch_maybe_seq_skip nameRe pattern stopsAt
  | some vendor =>
      exact (Regex.fullmatch_maybe_seq nameRe rejectsAt rfl _).trans
        (fullmatch_name_seq rejects vendor stops)

/-- No character of a name is white space. -/
theorem visible (c : Char) (inName : isNameChar c) : isSpace c = false :=
  isSpace_of_isRefChar (isRefChar_of_isNameChar inName)

/-- What follows the name of an input does not continue it. -/
theorem optionalRejects
    : ((Regex.group (.maybe (char '?'))).seq (spaces.seq
        ((char ':').seq (spaces.seq nameRe)))).Rejects isNameChar := by
  refine Regex.rejects_of_opens rfl fun c inName => ?_
  have markless : (c == '?') = false := beq_of_outside inName rfl
  have colonless : (c == ':') = false := beq_of_outside inName rfl
  simp [Regex.opens, Regex.nullable, spaces, char, visible c inName, markless, colonless]

/-- What follows the capability of a step does not continue it. -/
theorem vendorRejects
    : ((Regex.maybe ((char '@').seq nameRe)).seq (spaces.seq argumentsRe)).Rejects
        isNameChar := by
  refine Regex.rejects_of_opens rfl fun c inName => ?_
  have atless : (c == '@') = false := beq_of_outside inName rfl
  have bracketless : (c == '(') = false := beq_of_outside inName rfl
  simp [Regex.opens, Regex.nullable, spaces, char, argumentsRe, visible c inName, atless,
    bracketless]

/-- The input pattern reads the parts of a written input. -/
theorem inputRe_fullmatch (gap : Gap) (field : Name) (optional : Bool) (before after : Gap)
    (type : Name)
    : inputRe.fullmatch ("input ".toList ++ (gap.text ++ (field.text ++ (optionalMark optional
          ++ (before.text ++ ':' :: (after.text ++ type.text))))))
      = some [some field.text, some (optionalMark optional), some type.text] := by
  have marked : Stops isNameChar (optionalMark optional
      ++ (before.text ++ ':' :: (after.text ++ type.text))) := by
    refine (before.stops (fun _ => isNameChar_of_isSpace) (stops_cons rfl _)).append ?_
    cases optional with
    | true => exact List.forall_mem_singleton.mpr rfl
    | false => exact fun _ absent => absurd absent List.not_mem_nil
  have unmarked : Stops (· == '?') (before.text ++ ':' :: (after.text ++ type.text)) :=
    before.stops (not_beq_of_isSpace rfl) (stops_cons rfl _)
  have typed : Stops isSpace type.text := by simpa using type.stops_space []
  calc inputRe.fullmatch ("input ".toList ++ (gap.text ++ (field.text ++ (optionalMark optional
          ++ (before.text ++ ':' :: (after.text ++ type.text))))))
      = (spaces.seq (nameRe.seq ((Regex.group (.maybe (char '?'))).seq (spaces.seq
            ((char ':').seq (spaces.seq nameRe)))))).fullmatch
          (gap.text ++ (field.text ++ (optionalMark optional
            ++ (before.text ++ ':' :: (after.text ++ type.text))))) :=
        (Regex.fullmatch_literal "input".toList _ (' ' :: _)).trans
          (Regex.fullmatch_one_seq _ rfl _)
    _ = some [some field.text, some (optionalMark optional), some type.text] := by
        rw [fullmatch_spaces_seq (rejects_name_seq _) gap (field.stops_space _),
          fullmatch_name_seq optionalRejects field marked,
          fullmatch_mark_seq (rejects_beq_spaces_char_seq rfl rfl _) optional unmarked,
          fullmatch_spaces_seq (rejects_char_seq rfl _) before (stops_cons rfl _),
          fullmatch_char_seq, fullmatch_spaces_seq rejects_name after typed, fullmatch_name]
        rfl

/-- The text between the parentheses of a written step. -/
theorem argumentsRe_fullmatch {arguments : Text} (oneLine : '\n' ∉ arguments)
    : argumentsRe.fullmatch ('(' :: (arguments ++ [')'])) = some [some arguments] := by
  rw [argumentsRe, fullmatch_char_seq]
  refine Regex.fullmatch_many_last (fun c member => ?_) rfl
  exact bne_iff_ne.mpr fun same => oneLine (same ▸ member)

/-- The step pattern reads the parts of a written step. -/
theorem stepRe_fullmatch (gap : Gap) (name : Name) (before after : Gap) (capability : Name)
    (vendor : Option Name) (last : Gap) {arguments : Text} (oneLine : '\n' ∉ arguments)
    : stepRe.fullmatch ("step ".toList ++ (gap.text ++ (name.text ++ (before.text
          ++ '=' :: (after.text ++ (capability.text ++ (vendorPin vendor
            ++ (last.text ++ '(' :: (arguments ++ [')'])))))))))
      = some [some name.text, some capability.text, vendor.map Word.text, some arguments] := by
  have equals {rest : Text} : Stops isNameChar (before.text ++ '=' :: rest) :=
    before.stops (fun _ => isNameChar_of_isSpace) (stops_cons rfl _)
  have opening {rest : Text} : Stops isNameChar (last.text ++ '(' :: rest) :=
    last.stops (fun _ => isNameChar_of_isSpace) (stops_cons rfl _)
  have pinned {rest : Text}
      : Stops isNameChar (vendorPin vendor ++ (last.text ++ '(' :: rest)) := by
    cases vendor with
    | none => exact opening
    | some vendor => exact stops_cons rfl _
  have unpinned {rest : Text} : Stops (· == '@') (last.text ++ '(' :: rest) :=
    last.stops (not_beq_of_isSpace rfl) (stops_cons rfl _)
  have bracketAfterPin : (spaces.seq argumentsRe).Rejects (· == '@') :=
    rejects_beq_spaces_char_seq rfl rfl _
  have bracketAfterName : (spaces.seq argumentsRe).Rejects isNameChar :=
    rejects_spaces_char_seq rfl visible _
  have bracket : argumentsRe.Rejects isSpace := rejects_char_seq rfl _
  calc stepRe.fullmatch ("step ".toList ++ (gap.text ++ (name.text ++ (before.text
          ++ '=' :: (after.text ++ (capability.text ++ (vendorPin vendor
            ++ (last.text ++ '(' :: (arguments ++ [')'])))))))))
      = (spaces.seq (nameRe.seq (spaces.seq ((char '=').seq (spaces.seq (nameRe.seq
          ((Regex.maybe ((char '@').seq nameRe)).seq (spaces.seq argumentsRe)))))))).fullmatch
            (gap.text ++ (name.text ++ (before.text ++ '=' :: (after.text ++ (capability.text
              ++ (vendorPin vendor ++ (last.text ++ '(' :: (arguments ++ [')'])))))))) :=
        (Regex.fullmatch_literal "step".toList _ (' ' :: _)).trans
          (Regex.fullmatch_one_seq _ rfl _)
    _ = some [some name.text, some capability.text, vendor.map Word.text, some arguments] := by
        rw [fullmatch_spaces_seq (rejects_name_seq _) gap (name.stops_space _),
          fullmatch_name_seq (rejects_spaces_char_seq rfl visible _) name equals,
          fullmatch_spaces_seq (rejects_char_seq rfl _) before (stops_cons rfl _),
          fullmatch_char_seq,
          fullmatch_spaces_seq (rejects_name_seq _) after (capability.stops_space _),
          fullmatch_name_seq vendorRejects capability pinned,
          fullmatch_pin_seq bracketAfterPin bracketAfterName vendor unpinned opening,
          fullmatch_spaces_seq bracket last (stops_cons rfl _),
          argumentsRe_fullmatch oneLine]
        rfl

/-- The output pattern reads the parts of a written output. -/
theorem outputRe_fullmatch (gap : Gap) (field : Name) (before after : Gap) (ref : Ref)
    : outputRe.fullmatch ("output ".toList ++ (gap.text ++ (field.text ++ (before.text
          ++ '=' :: (after.text ++ ref.text)))))
      = some [some field.text, some ref.text] := by
  have equals {rest : Text} : Stops isNameChar (before.text ++ '=' :: rest) :=
    before.stops (fun _ => isNameChar_of_isSpace) (stops_cons rfl _)
  have referring : Stops isSpace ref.text := by simpa using ref.stops_space []
  calc outputRe.fullmatch ("output ".toList ++ (gap.text ++ (field.text ++ (before.text
          ++ '=' :: (after.text ++ ref.text)))))
      = (spaces.seq (nameRe.seq (spaces.seq ((char '=').seq (spaces.seq refRe))))).fullmatch
          (gap.text ++ (field.text ++ (before.text ++ '=' :: (after.text ++ ref.text)))) :=
        (Regex.fullmatch_literal "output".toList _ (' ' :: _)).trans
          (Regex.fullmatch_one_seq _ rfl _)
    _ = some [some field.text, some ref.text] := by
        rw [fullmatch_spaces_seq (rejects_name_seq _) gap (field.stops_space _),
          fullmatch_name_seq (rejects_spaces_char_seq rfl visible _) field equals,
          fullmatch_spaces_seq (rejects_char_seq rfl _) before (stops_cons rfl _),
          fullmatch_char_seq, fullmatch_spaces_seq rejects_ref after referring, fullmatch_ref]
        rfl

-----------------------------------------------------------------------------------------
-- Matched lines are written
-----------------------------------------------------------------------------------------

theorem exists_name {text : Text} {captures : Regex.Captures}
    (matched : nameRe.Matches text captures)
    : ∃ name : Name, text = name.text ∧ captures = [some name.text] := by
  obtain ⟨c, rest, rfl, starts, continues, rfl⟩ := Regex.matches_word matched
  exact ⟨⟨c, rest, starts, continues⟩, rfl, rfl⟩

theorem exists_ref {text : Text} {captures : Regex.Captures}
    (matched : refRe.Matches text captures)
    : ∃ ref : Ref, text = ref.text ∧ captures = [some ref.text] := by
  obtain ⟨c, rest, rfl, starts, continues, rfl⟩ := Regex.matches_word matched
  exact ⟨⟨c, rest, starts, continues⟩, rfl, rfl⟩

theorem exists_gap {text : Text} {captures : Regex.Captures}
    (matched : spaces.Matches text captures)
    : ∃ gap : Gap, text = gap.text ∧ captures = [] :=
  ⟨⟨text, matched.1⟩, rfl, matched.2⟩

theorem eq_of_matches_char {c : Char} {text : Text} {captures : Regex.Captures}
    (matched : (char c).Matches text captures)
    : text = [c] ∧ captures = [] := by
  obtain ⟨other, rfl, same, rfl⟩ := matched
  exact ⟨by rw [eq_of_beq same], rfl⟩

section Parts

variable {pattern : Regex} {line : Text} {captures : Regex.Captures}

/-- White space, then the rest of the pattern. -/
theorem exists_gap_seq (matched : (spaces.seq pattern).Matches line captures)
    : ∃ (gap : Gap) (rest : Text), line = gap.text ++ rest ∧ pattern.Matches rest captures := by
  obtain ⟨_, rest, _, _, rfl, rfl, gapped, later⟩ := matched
  obtain ⟨gap, rfl, rfl⟩ := exists_gap gapped
  exact ⟨gap, rest, rfl, later⟩

/-- A given character, then the rest of the pattern. -/
theorem exists_char_seq {c : Char} (matched : ((char c).seq pattern).Matches line captures)
    : ∃ rest : Text, line = c :: rest ∧ pattern.Matches rest captures := by
  obtain ⟨_, rest, _, _, rfl, rfl, here, later⟩ := matched
  obtain ⟨rfl, rfl⟩ := eq_of_matches_char here
  exact ⟨rest, rfl, later⟩

/-- A name, then the rest of the pattern. -/
theorem exists_name_seq (matched : (nameRe.seq pattern).Matches line captures)
    : ∃ (name : Name) (rest : Text) (others : Regex.Captures),
        line = name.text ++ rest
        ∧ captures = some name.text :: others
        ∧ pattern.Matches rest others := by
  obtain ⟨_, rest, _, others, rfl, rfl, named, later⟩ := matched
  obtain ⟨name, rfl, rfl⟩ := exists_name named
  exact ⟨name, rest, others, rfl, rfl, later⟩

end Parts

/-- A keyword with a space after it, then white space, then the rest of the pattern. -/
theorem matches_keyword {keyword line : Text} {pattern : Regex} {captures : Regex.Captures}
    (matched : (Regex.literal keyword ((Regex.one isSpace).seq (spaces.seq pattern))).Matches
      line captures)
    (starts : (keyword ++ [' ']).isPrefixOf line)
    : ∃ (gap : Gap) (rest : Text),
        line = keyword ++ ' ' :: (gap.text ++ rest) ∧ pattern.Matches rest captures := by
  obtain ⟨_, rfl, _, _, _, _, rfl, rfl, ⟨c, rfl, -, rfl⟩, spaced⟩ :=
    Regex.matches_literal matched
  obtain ⟨gap, rest, rfl, later⟩ := exists_gap_seq spaced
  obtain ⟨after, same⟩ := List.isPrefixOf_iff_prefix.mp starts
  rw [List.append_assoc] at same
  have space : ' ' = c := (List.cons.inj (List.append_cancel_left same)).1
  subst space
  exact ⟨gap, rest, by simp, later⟩

/-- A line the input pattern matches is written by the grammar. -/
theorem exists_of_inputRe {line : Text} {captures : Regex.Captures}
    (matched : inputRe.Matches line captures) (starts : "input ".toList.isPrefixOf line)
    : ∃ field optional type,
        Writes (.input field optional type) line
        ∧ captures = [some field.text, some (optionalMark optional), some type.text] := by
  obtain ⟨gap, _, rfl, fromField⟩ := matches_keyword matched starts
  obtain ⟨field, _, _, rfl, rfl, fromMark⟩ := exists_name_seq fromField
  obtain ⟨_, _, _, _, rfl, rfl, ⟨_, rfl, marked⟩, fromBefore⟩ := fromMark
  obtain ⟨before, _, rfl, fromColon⟩ := exists_gap_seq fromBefore
  obtain ⟨_, rfl, fromAfter⟩ := exists_char_seq fromColon
  obtain ⟨after, _, rfl, fromType⟩ := exists_gap_seq fromAfter
  obtain ⟨type, rfl, rfl⟩ := exists_name fromType
  rcases marked with marked | ⟨rfl, rfl⟩
  · obtain ⟨rfl, rfl⟩ := eq_of_matches_char marked
    exact ⟨field, true, type, .input gap field true before after type, rfl⟩
  · exact ⟨field, false, type, .input gap field false before after type, rfl⟩

/-- A line the step pattern matches is written by the grammar. -/
theorem exists_of_stepRe {line : Text} {captures : Regex.Captures}
    (matched : stepRe.Matches line captures) (starts : "step ".toList.isPrefixOf line)
    : ∃ name capability vendor arguments,
        Writes (.step name capability vendor arguments) line
        ∧ captures = [some name.text, some capability.text, vendor.map Word.text,
            some arguments] := by
  obtain ⟨gap, _, rfl, fromName⟩ := matches_keyword matched starts
  obtain ⟨name, _, _, rfl, rfl, fromBefore⟩ := exists_name_seq fromName
  obtain ⟨before, _, rfl, fromEquals⟩ := exists_gap_seq fromBefore
  obtain ⟨_, rfl, fromAfter⟩ := exists_char_seq fromEquals
  obtain ⟨after, _, rfl, fromCapability⟩ := exists_gap_seq fromAfter
  obtain ⟨capability, _, _, rfl, rfl, fromPin⟩ := exists_name_seq fromCapability
  obtain ⟨_, _, _, _, rfl, rfl, pinned, fromLast⟩ := fromPin
  obtain ⟨last, _, rfl, fromOpening⟩ := exists_gap_seq fromLast
  obtain ⟨_, rfl, fromInside⟩ := exists_char_seq fromOpening
  obtain ⟨_, _, _, _, rfl, rfl, ⟨_, rfl, unbroken, rfl⟩, closing⟩ := fromInside
  obtain ⟨rfl, rfl⟩ := eq_of_matches_char closing
  have oneLine : '\n' ∉ _ := fun member => absurd (unbroken _ member) (by decide)
  rcases pinned with pinned | ⟨rfl, rfl⟩
  · obtain ⟨_, rfl, vendored⟩ := exists_char_seq pinned
    obtain ⟨vendor, rfl, rfl⟩ := exists_name vendored
    exact ⟨name, capability, some vendor, _,
      .step gap name before after capability (some vendor) last _ oneLine, rfl⟩
  · exact ⟨name, capability, none, _,
      .step gap name before after capability none last _ oneLine, rfl⟩

/-- A line the output pattern matches is written by the grammar. -/
theorem exists_of_outputRe {line : Text} {captures : Regex.Captures}
    (matched : outputRe.Matches line captures) (starts : "output ".toList.isPrefixOf line)
    : ∃ field ref,
        Writes (.output field ref) line ∧ captures = [some field.text, some ref.text] := by
  obtain ⟨gap, _, rfl, fromField⟩ := matches_keyword matched starts
  obtain ⟨field, _, _, rfl, rfl, fromBefore⟩ := exists_name_seq fromField
  obtain ⟨before, _, rfl, fromEquals⟩ := exists_gap_seq fromBefore
  obtain ⟨_, rfl, fromAfter⟩ := exists_char_seq fromEquals
  obtain ⟨after, _, rfl, fromRef⟩ := exists_gap_seq fromAfter
  obtain ⟨ref, rfl, rfl⟩ := exists_ref fromRef
  exact ⟨field, ref, .output gap field before after ref, rfl⟩

-----------------------------------------------------------------------------------------
-- The search for arguments
-----------------------------------------------------------------------------------------

/-- What the search captures of the written arguments. -/
def argumentCaptures (pairs : List (Name × Ref)) : List Regex.Captures :=
  pairs.map fun pair => [some pair.1.text, some pair.2.text]

/-- The argument pattern starts with the letter or underscore of a name. -/
theorem argRe_rejects {cls : Char → Bool} (outside : ∀ c, cls c → isNameStart c = false)
    : argRe.Rejects cls := by
  refine Regex.rejects_of_opens rfl fun c inside => ?_
  simp [argRe, nameRe, Regex.word, Regex.opens, Regex.nullable, outside c inside]

/-- At a written argument the search takes exactly that argument. -/
theorem finditer_argument (key : Name) (before after : Gap) (ref : Ref) {rest : Text}
    (stops : Stops isRefChar rest)
    : argRe.finditer (key.text ++ (before.text ++ ':' :: (after.text ++ (ref.text ++ rest))))
      = [some key.text, some ref.text] :: argRe.finditer rest := by
  have colon : Stops isNameChar (before.text ++ ':' :: (after.text ++ (ref.text ++ rest))) :=
    before.stops (fun _ => isNameChar_of_isSpace) (stops_cons rfl _)
  obtain ⟨shorter, longest⟩ :=
    Regex.candidates_word_eq_cons ref.starts stops ref.continues
  have first : argRe.candidates
      (key.text ++ (before.text ++ ':' :: (after.text ++ (ref.text ++ rest))))
      = (refRe.candidates (ref.text ++ rest)).map fun found =>
          (found.1, some key.text :: found.2) := by
    refine (Regex.candidates_word_seq (rejects_spaces_char_seq rfl visible _) key.starts colon
      key.continues).trans (congrArg _ ?_)
    refine (Regex.candidates_many_seq (rejects_char_seq rfl _) (stops_cons rfl _)
      before.blank).trans ?_
    refine (Regex.candidates_one_seq _ _ _ _).trans ?_
    exact Regex.candidates_many_seq rejects_ref (ref.stops_space rest) after.blank
  have first := first.trans (congrArg _ longest)
  rw [List.map_cons] at first
  have front : key.text ++ (before.text ++ ':' :: (after.text ++ (ref.text ++ rest)))
      = key.first :: ((key.rest ++ (before.text ++ ':' :: (after.text ++ ref.text))) ++ rest) := by
    simp [Word.text]
  rw [front] at first ⊢
  exact Regex.finditer_match first

/-- The search finds the written arguments one by one. Witness: induction on how they are
written.
-/
theorem finditer_of_writesArguments {text : Text} {pairs : List (Name × Ref)}
    (written : WritesArguments text pairs)
    : argRe.finditer text = argumentCaptures pairs := by
  have skip (gap : Gap) (rest : Text) : argRe.finditer (gap.text ++ rest) = argRe.finditer rest :=
    Regex.finditer_skip (argRe_rejects fun _ => isNameStart_of_isSpace) gap.blank rest
  induction written with
  | last gap key before after ref trailing =>
      have stops : Stops isRefChar trailing.text := by
        simpa using trailing.stops (fun _ => isRefChar_of_isSpace) (stops_nil isRefChar)
      have done : argRe.finditer trailing.text = argRe.finditer [] := by
        simpa using skip trailing []
      rw [skip, finditer_argument key before after ref stops, done]
      rfl
  | more gap key before after ref trailing later ih =>
      have stops {rest : Text} : Stops isRefChar (trailing.text ++ ',' :: rest) :=
        trailing.stops (fun _ => isRefChar_of_isSpace) (stops_cons rfl _)
      have comma (rest : Text) : argRe.finditer (',' :: rest) = argRe.finditer rest :=
        @Regex.finditer_skip argRe (· == ',')
          (argRe_rejects fun c same => by rw [eq_of_beq same]; rfl) [','] (by simp) rest
      rw [skip, finditer_argument key before after ref stops, skip, comma, ih]
      rfl

/-- The inputs of a step are the written arguments; a repeated key keeps its last reference. -/
theorem parseArguments_of_arguments {text : Text} {pairs : List (Name × Ref)}
    (written : Arguments text pairs)
    : parseArguments text
      = Dict.ofList (pairs.map fun pair => (pair.1.string, pair.2.string)) := by
  have found : argRe.finditer text = argumentCaptures pairs := by
    rcases written with ⟨rfl, blank⟩ | written
    · have skipped :=
        Regex.finditer_skip (argRe_rejects fun _ => isNameStart_of_isSpace) blank []
      rw [List.append_nil] at skipped
      exact skipped
    · exact finditer_of_writesArguments written
  rw [parseArguments, found, argumentCaptures, List.filterMap_map]
  exact congrArg _ (congrFun List.filterMap_eq_map pairs)

end AgentDsl

end AgentFeatures
