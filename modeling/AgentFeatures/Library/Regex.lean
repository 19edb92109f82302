import AgentFeatures.Library.Text

/-! Backtracking regular expressions over character classes, with capturing groups.

A pattern's candidates are the ways to match a prefix of a text, in the order in which a
backtracking matcher tries them: quantifiers are greedy.
-/

namespace Library

open Library.Text (Stops)

/-- A regular expression built from one-character classes. -/
inductive Regex where
  /-- One character of a class. -/
  | one (cls : Char → Bool)
  /-- `cls*`. -/
  | many (cls : Char → Bool)
  | seq (first second : Regex)
  /-- `(?:…)?`. -/
  | maybe (inner : Regex)
  /-- `(…)`. -/
  | group (inner : Regex)

namespace Regex

/-- What the groups of a pattern captured, in the order of their opening brackets. -/
abbrev Captures := List (Option Text)

/-- The number of groups. -/
def groups : Regex → Nat
  | one _ => 0
  | many _ => 0
  | seq first second => first.groups + second.groups
  | maybe inner => inner.groups
  | group inner => inner.groups + 1

/-- The rests of a text after a run of a class, longest run first. -/
def runs (cls : Char → Bool) : Text → List Text
  | [] => [[]]
  | c :: rest => if cls c then runs cls rest ++ [c :: rest] else [c :: rest]

/-- The rests and captures of the matches of a prefix, in the order they are tried. -/
def candidates : Regex → Text → List (Text × Captures)
  | one _, [] => []
  | one cls, c :: rest => if cls c then [(rest, [])] else []
  | many cls, text => (runs cls text).map fun rest => (rest, [])
  | seq first second, text =>
      (first.candidates text).flatMap fun (middle, captures) =>
        (second.candidates middle).map fun (rest, others) => (rest, captures ++ others)
  | maybe inner, text => inner.candidates text ++ [(text, List.replicate inner.groups none)]
  | group inner, text =>
      (inner.candidates text).map fun (rest, captures) =>
        (rest, some (text.take (text.length - rest.length)) :: captures)

/-- `re.fullmatch`: the groups of the first match of the whole text. -/
def fullmatch (pattern : Regex) (text : Text) : Option Captures :=
  ((pattern.candidates text).find? fun candidate => candidate.1.isEmpty).map Prod.snd

/-- The search of `re.finditer`, with the characters still inside the last match. -/
def finditerFrom (pattern : Regex) : Nat → Text → List Captures
  | _, [] => []
  | inside + 1, _ :: rest => pattern.finditerFrom inside rest
  | 0, c :: rest =>
      match pattern.candidates (c :: rest) with
      | [] => pattern.finditerFrom 0 rest
      | (after, captures) :: _ =>
          captures :: pattern.finditerFrom (rest.length - after.length) rest

/-- `re.finditer`: the groups of all matches from left to right, for a pattern that matches no
empty text.
-/
def finditer (pattern : Regex) (text : Text) : List Captures := pattern.finditerFrom 0 text

/-- A pattern that starts with the given characters. -/
def literal : Text → Regex → Regex
  | [], pattern => pattern
  | c :: rest, pattern => (one (· == c)).seq (literal rest pattern)

/-- A captured word: one character of the first class and then any of the second. -/
def word (start continued : Char → Bool) : Regex := group ((one start).seq (many continued))

-----------------------------------------------------------------------------------------
-- The language of a pattern
-----------------------------------------------------------------------------------------

/-- The pattern matches the whole text with these captures. -/
def Matches : Regex → Text → Captures → Prop
  | one cls, text, captures => ∃ c, text = [c] ∧ cls c ∧ captures = []
  | many cls, text, captures => (∀ c ∈ text, cls c) ∧ captures = []
  | seq first second, text, captures =>
      ∃ front back before after,
        text = front ++ back
        ∧ captures = before ++ after
        ∧ first.Matches front before
        ∧ second.Matches back after
  | maybe inner, text, captures =>
      inner.Matches text captures ∨ (text = [] ∧ captures = List.replicate inner.groups none)
  | group inner, text, captures =>
      ∃ others, captures = some text :: others ∧ inner.Matches text others

/-- A rest follows a run of the class. Witness: induction on the text. -/
theorem exists_run_of_mem {cls : Char → Bool} {text rest : Text} (member : rest ∈ runs cls text)
    : ∃ used, text = used ++ rest ∧ ∀ c ∈ used, cls c := by
  induction text with
  | nil =>
      rw [runs, List.mem_singleton] at member
      subst member
      exact ⟨[], rfl, by simp⟩
  | cons c text ih =>
      by_cases inClass : cls c
      · rw [runs, if_pos inClass, List.mem_append, List.mem_singleton] at member
        rcases member with longer | rfl
        · obtain ⟨used, split, all⟩ := ih longer
          exact ⟨c :: used, by simp [split], by simpa [inClass] using all⟩
        · exact ⟨[], rfl, by simp⟩
      · rw [runs, if_neg inClass, List.mem_singleton] at member
        subst member
        exact ⟨[], rfl, by simp⟩

/-- Every candidate matches the part of the text before its rest. Witness: induction on the
pattern.
-/
theorem matches_of_mem_candidates {pattern : Regex} {text rest : Text} {captures : Captures}
    (member : (rest, captures) ∈ pattern.candidates text)
    : ∃ used, text = used ++ rest ∧ pattern.Matches used captures := by
  induction pattern generalizing text rest captures with
  | one cls =>
      cases text with
      | nil => simp [candidates] at member
      | cons c text =>
          rw [candidates] at member
          split at member
          · next inClass =>
              cases List.mem_singleton.mp member
              exact ⟨[c], rfl, c, rfl, inClass, rfl⟩
          · simp at member
  | many cls =>
      obtain ⟨after, run, same⟩ := List.mem_map.mp member
      cases same
      obtain ⟨used, split, all⟩ := exists_run_of_mem run
      exact ⟨used, split, all, rfl⟩
  | seq first second ihFirst ihSecond =>
      obtain ⟨⟨middle, before⟩, inFirst, member⟩ := List.mem_flatMap.mp member
      obtain ⟨⟨after, others⟩, inSecond, same⟩ := List.mem_map.mp member
      cases same
      obtain ⟨front, rfl, matchFront⟩ := ihFirst inFirst
      obtain ⟨back, rfl, matchBack⟩ := ihSecond inSecond
      exact ⟨front ++ back, (List.append_assoc ..).symm, front, back, before, others, rfl, rfl,
        matchFront, matchBack⟩
  | maybe inner ih =>
      rw [candidates, List.mem_append, List.mem_singleton] at member
      rcases member with inside | same
      · obtain ⟨used, split, matched⟩ := ih inside
        exact ⟨used, split, Or.inl matched⟩
      · cases same
        exact ⟨[], rfl, Or.inr ⟨rfl, rfl⟩⟩
  | group inner ih =>
      obtain ⟨⟨after, others⟩, inside, same⟩ := List.mem_map.mp member
      cases same
      obtain ⟨used, rfl, matched⟩ := ih inside
      refine ⟨used, rfl, others, ?_, matched⟩
      simp

/-- A full match matches the whole text. -/
theorem matches_of_fullmatch {pattern : Regex} {text : Text} {captures : Captures}
    (found : pattern.fullmatch text = some captures)
    : pattern.Matches text captures := by
  obtain ⟨⟨rest, found⟩, first, rfl⟩ := Option.map_eq_some_iff.mp found
  have empty : rest = [] := by simpa using List.find?_some first
  subst empty
  obtain ⟨used, split, matched⟩ := matches_of_mem_candidates (List.mem_of_find?_eq_some first)
  rw [split, List.append_nil]
  exact matched

/-- A literal start is matched first. Witness: induction on the literal. -/
theorem matches_literal {start text : Text} {pattern : Regex} {captures : Captures}
    (matched : (literal start pattern).Matches text captures)
    : ∃ rest, text = start ++ rest ∧ pattern.Matches rest captures := by
  induction start generalizing text captures with
  | nil => exact ⟨text, rfl, matched⟩
  | cons c start ih =>
      obtain ⟨_, back, _, after, rfl, rfl, ⟨other, rfl, same, rfl⟩, later⟩ := matched
      obtain ⟨rest, rfl, matched⟩ := ih later
      exact ⟨rest, by simp [eq_of_beq same], matched⟩

/-- A word captures itself. -/
theorem matches_word {start continued : Char → Bool} {text : Text} {captures : Captures}
    (matched : (word start continued).Matches text captures)
    : ∃ c rest,
        text = c :: rest
        ∧ start c
        ∧ (∀ other ∈ rest, continued other)
        ∧ captures = [some text] := by
  obtain ⟨_, rfl, _, rest, _, _, rfl, rfl, ⟨c, rfl, starts, rfl⟩, all, rfl⟩ := matched
  exact ⟨c, rest, rfl, starts, all, rfl⟩

/-- Whether the pattern can match the empty text. -/
def nullable : Regex → Bool
  | one _ => false
  | many _ => true
  | seq first second => first.nullable && second.nullable
  | maybe _ => true
  | group inner => inner.nullable

/-- Whether a match can start with the character. -/
def opens : Regex → Char → Bool
  | one cls, c => cls c
  | many cls, c => cls c
  | seq first second, c => first.opens c || (first.nullable && second.opens c)
  | maybe inner, c => inner.opens c
  | group inner, c => inner.opens c

/-- Only nullable patterns match the empty text, by induction on the pattern. -/
theorem nullable_of_matches {pattern : Regex} {captures : Captures}
    (matched : pattern.Matches [] captures)
    : pattern.nullable := by
  induction pattern generalizing captures with
  | one cls =>
      obtain ⟨c, absurdly, -⟩ := matched
      cases absurdly
  | many cls => rfl
  | seq first second ihFirst ihSecond =>
      obtain ⟨front, back, before, after, split, -, matchFront, matchBack⟩ := matched
      obtain ⟨rfl, rfl⟩ := List.append_eq_nil_iff.mp split.symm
      simp [nullable, ihFirst matchFront, ihSecond matchBack]
  | maybe inner ih => rfl
  | group inner ih =>
      obtain ⟨others, -, matched⟩ := matched
      exact ih matched

/-- A match starts with a character the pattern opens with, by induction on the pattern. -/
theorem opens_of_matches {pattern : Regex} {c : Char} {rest : Text} {captures : Captures}
    (matched : pattern.Matches (c :: rest) captures)
    : pattern.opens c := by
  induction pattern generalizing rest captures with
  | one cls =>
      obtain ⟨other, same, inClass, -⟩ := matched
      cases same
      exact inClass
  | many cls => exact matched.1 c List.mem_cons_self
  | seq first second ihFirst ihSecond =>
      obtain ⟨front, back, before, after, split, -, matchFront, matchBack⟩ := matched
      cases front with
      | nil =>
          rw [List.nil_append] at split
          subst split
          simp [opens, nullable_of_matches matchFront, ihSecond matchBack]
      | cons other front =>
          cases split
          simp [opens, ihFirst matchFront]
  | maybe inner ih =>
      rcases matched with matched | ⟨absurdly, -⟩
      · exact ih matched
      · cases absurdly
  | group inner ih =>
      obtain ⟨others, -, matched⟩ := matched
      exact ih matched

/-- The pattern matches no prefix of a text that starts with a character of the class. -/
def Rejects (pattern : Regex) (cls : Char → Bool) : Prop :=
  ∀ c rest, cls c → pattern.candidates (c :: rest) = []

/-- A pattern that needs a character and cannot open with the class rejects it. -/
theorem rejects_of_opens {pattern : Regex} {cls : Char → Bool} (needs : pattern.nullable = false)
    (closed : ∀ c, cls c → pattern.opens c = false)
    : pattern.Rejects cls := by
  intro c rest inClass
  refine List.eq_nil_iff_forall_not_mem.mpr ?_
  rintro ⟨after, captures⟩ member
  obtain ⟨used, split, matched⟩ := matches_of_mem_candidates member
  cases used with
  | nil => simp [nullable_of_matches matched] at needs
  | cons other used =>
      cases split
      exact absurd (opens_of_matches matched) (by simp [closed c inClass])

-----------------------------------------------------------------------------------------
-- Determined sequences
-----------------------------------------------------------------------------------------

/-- When nothing follows inside the class, only the longest run does. Witness: induction on the
text.
-/
theorem flatMap_runs {α : Type} {cls : Char → Bool} {next : Text → List α}
    (rejects : ∀ c rest, cls c → next (c :: rest) = []) (text : Text)
    : (runs cls text).flatMap next = next (text.dropWhile cls) := by
  induction text with
  | nil => simp [runs]
  | cons c rest ih =>
      by_cases inClass : cls c
      · simp [runs, inClass, ih, rejects c rest inClass]
      · simp [runs, inClass]

/-- The longest run is tried first, by induction on the text. -/
theorem runs_eq_cons (cls : Char → Bool) (text : Text)
    : ∃ shorter, runs cls text = text.dropWhile cls :: shorter := by
  induction text with
  | nil => exact ⟨[], rfl⟩
  | cons c rest ih =>
      obtain ⟨shorter, longest⟩ := ih
      by_cases inClass : cls c
      · exact ⟨shorter ++ [c :: rest], by simp [runs, inClass, longest]⟩
      · exact ⟨[], by simp [runs, inClass]⟩

/-- A character of a class, then the rest of the pattern. -/
theorem candidates_one_seq (cls : Char → Bool) (pattern : Regex) (c : Char) (rest : Text)
    : ((one cls).seq pattern).candidates (c :: rest)
      = if cls c then pattern.candidates rest else [] := by
  by_cases inClass : cls c <;> simp [candidates, inClass]

/-- A run of a class that the rest of the pattern rejects. -/
theorem candidates_many_seq {cls : Char → Bool} {pattern : Regex}
    (rejects : pattern.Rejects cls) {used rest : Text} (stops : Stops cls rest)
    (all : ∀ c ∈ used, cls c)
    : ((many cls).seq pattern).candidates (used ++ rest) = pattern.candidates rest := by
  simp only [candidates, List.flatMap_map, List.nil_append, List.map_id']
  rw [flatMap_runs rejects, stops.dropWhile_append all]

/-- A literal start, by induction on the literal. -/
theorem candidates_literal (start : Text) (pattern : Regex) (rest : Text)
    : (literal start pattern).candidates (start ++ rest) = pattern.candidates rest := by
  induction start with
  | nil => rfl
  | cons c start ih => simp [literal, candidates_one_seq, ih]

/-- The matches of a word: its runs, the longest first. -/
theorem candidates_word {start : Char → Bool} (continued : Char → Bool) {c : Char}
    (starts : start c) (rest : Text)
    : (word start continued).candidates (c :: rest)
      = (runs continued rest).map fun after =>
          (after, [some ((c :: rest).take ((c :: rest).length - after.length))]) := by
  simp [word, candidates, starts, Function.comp_def]

/-- What lies before a rest, as a group captures it. -/
theorem take_front (front rest : Text)
    : (front ++ rest).take ((front ++ rest).length - rest.length) = front := by
  simp

/-- The longest match of a word is tried first. -/
theorem candidates_word_eq_cons {start continued : Char → Bool} {c : Char} (starts : start c)
    {used rest : Text} (stops : Stops continued rest) (all : ∀ other ∈ used, continued other)
    : ∃ shorter,
        (word start continued).candidates (c :: (used ++ rest))
          = (rest, [some (c :: used)]) :: shorter := by
  obtain ⟨shorter, longest⟩ := runs_eq_cons continued (used ++ rest)
  rw [stops.dropWhile_append all] at longest
  rw [candidates_word continued starts, longest, List.map_cons]
  exact ⟨_, congrArg (fun word => (rest, [some word]) :: _) (take_front (c :: used) rest)⟩

/-- A captured word that the rest of the pattern cannot continue is the longest one. -/
theorem candidates_word_seq {start continued : Char → Bool} {pattern : Regex}
    (rejects : pattern.Rejects continued) {c : Char} (starts : start c) {used rest : Text}
    (stops : Stops continued rest) (all : ∀ other ∈ used, continued other)
    : ((word start continued).seq pattern).candidates (c :: (used ++ rest))
      = (pattern.candidates rest).map fun (after, captures) =>
          (after, some (c :: used) :: captures) := by
  rw [candidates, candidates_word continued starts, List.flatMap_map, flatMap_runs,
    stops.dropWhile_append all]
  · simp only [← List.cons_append, take_front]
    rfl
  · intro other after inClass
    simp [rejects other after inClass]

theorem fullmatch_literal (start : Text) (pattern : Regex) (rest : Text)
    : (literal start pattern).fullmatch (start ++ rest) = pattern.fullmatch rest := by
  rw [fullmatch, candidates_literal, fullmatch]

theorem fullmatch_one_seq {cls : Char → Bool} (pattern : Regex) {c : Char}
    (inClass : cls c) (rest : Text)
    : ((one cls).seq pattern).fullmatch (c :: rest) = pattern.fullmatch rest := by
  rw [fullmatch, candidates_one_seq, if_pos inClass, fullmatch]

theorem fullmatch_many_seq {cls : Char → Bool} {pattern : Regex}
    (rejects : pattern.Rejects cls) {used rest : Text} (stops : Stops cls rest)
    (all : ∀ c ∈ used, cls c)
    : ((many cls).seq pattern).fullmatch (used ++ rest) = pattern.fullmatch rest := by
  rw [fullmatch, candidates_many_seq rejects stops all, fullmatch]

theorem fullmatch_word_seq {start continued : Char → Bool} {pattern : Regex}
    (rejects : pattern.Rejects continued) {c : Char} (starts : start c) {used rest : Text}
    (stops : Stops continued rest) (all : ∀ other ∈ used, continued other)
    : ((word start continued).seq pattern).fullmatch (c :: (used ++ rest))
      = (pattern.fullmatch rest).map (some (c :: used) :: ·) := by
  rw [fullmatch, candidates_word_seq rejects starts stops all, List.find?_map, fullmatch]
  simp [Function.comp_def]

/-- A word matches a whole text of its characters. -/
theorem fullmatch_word {start continued : Char → Bool} {c : Char} {rest : Text}
    (starts : start c) (continues : ∀ other ∈ rest, continued other)
    : (word start continued).fullmatch (c :: rest) = some [some (c :: rest)] := by
  obtain ⟨shorter, longest⟩ :=
    candidates_word_eq_cons starts (Text.stops_nil continued) continues
  rw [List.append_nil] at longest
  simp [fullmatch, longest]

/-- `(c?)` takes the character when it is there, before a pattern that cannot start with it. -/
theorem fullmatch_optional_seq {cls : Char → Bool} {pattern : Regex}
    (rejects : pattern.Rejects cls) {c : Char} (inClass : cls c) (rest : Text)
    : ((group (maybe (one cls))).seq pattern).fullmatch (c :: rest)
      = (pattern.fullmatch rest).map (some [c] :: ·) := by
  simp [fullmatch, candidates, groups, inClass, rejects c rest inClass, List.find?_map,
    Function.comp_def]

/-- `(c?)` captures nothing when the character is not there. -/
theorem fullmatch_optional_seq_skip {cls : Char → Bool} (pattern : Regex) {text : Text}
    (stops : Stops cls text)
    : ((group (maybe (one cls))).seq pattern).fullmatch text
      = (pattern.fullmatch text).map (some [] :: ·) := by
  cases text with
  | nil => simp [fullmatch, candidates, groups, List.find?_map, Function.comp_def]
  | cons c rest =>
      simp [fullmatch, candidates, groups, stops c rfl, List.find?_map, Function.comp_def]

/-- `(?:c…)?` is taken when the text starts so, before a pattern that cannot. -/
theorem fullmatch_maybe_seq {cls : Char → Bool} (inner : Regex) {pattern : Regex}
    (rejects : pattern.Rejects cls) {c : Char} (inClass : cls c) (rest : Text)
    : ((maybe ((one cls).seq inner)).seq pattern).fullmatch (c :: rest)
      = (inner.seq pattern).fullmatch rest := by
  simp [fullmatch, candidates, inClass, rejects c rest inClass]

/-- `(?:c…)?` is skipped when the text does not start so. -/
theorem fullmatch_maybe_seq_skip {cls : Char → Bool} (inner : Regex) (pattern : Regex)
    {text : Text} (stops : Stops cls text)
    : ((maybe ((one cls).seq inner)).seq pattern).fullmatch text
      = (pattern.fullmatch text).map (List.replicate inner.groups none ++ ·) := by
  have inside : ((one cls).seq inner).candidates text = [] := by
    cases text with
    | nil => rfl
    | cons c rest => simp [candidates_one_seq, stops c rfl]
  have skipped : (maybe ((one cls).seq inner)).candidates text
      = [(text, List.replicate inner.groups none)] := by
    rw [candidates, inside]
    simp [groups]
  rw [fullmatch, fullmatch, candidates, skipped]
  simp [List.find?_map, Function.comp_def]

/-- The rests after a run start with those after its part. Witness: induction on the part. -/
theorem runs_append {cls : Char → Bool} {used : Text} (all : ∀ c ∈ used, cls c) (rest : Text)
    : ∃ shorter, runs cls (used ++ rest) = runs cls rest ++ shorter := by
  induction used with
  | nil => exact ⟨[], (List.append_nil _).symm⟩
  | cons c used ih =>
      obtain ⟨shorter, longer⟩ := ih fun other member => all other (List.mem_cons_of_mem c member)
      refine ⟨shorter ++ [c :: (used ++ rest)], ?_⟩
      rw [List.cons_append, runs, if_pos (all c List.mem_cons_self), longer, List.append_assoc]

/-- `(c*)` before one last character captures everything in front of it. -/
theorem fullmatch_many_last {cls last : Char → Bool} {used : Text} (all : ∀ c ∈ used, cls c)
    {c : Char} (isLast : last c)
    : ((group (many cls)).seq (one last)).fullmatch (used ++ [c]) = some [some used] := by
  obtain ⟨shorter, longer⟩ := runs_append all [c]
  by_cases inClass : cls c
  · simp [fullmatch, candidates, longer, runs, inClass, isLast]
  · simp [fullmatch, candidates, longer, runs, inClass, isLast]

-----------------------------------------------------------------------------------------
-- Searches
-----------------------------------------------------------------------------------------

/-- The search passes over the characters inside the last match, by induction on them. -/
theorem finditerFrom_inside (pattern : Regex) (inside rest : Text)
    : pattern.finditerFrom inside.length (inside ++ rest) = pattern.finditerFrom 0 rest := by
  induction inside with
  | nil => rfl
  | cons c inside ih => exact ih

/-- The search passes over characters no match starts with, by induction on them. -/
theorem finditer_skip {pattern : Regex} {cls : Char → Bool} (rejects : pattern.Rejects cls)
    {gap : Text} (all : ∀ c ∈ gap, cls c) (rest : Text)
    : pattern.finditer (gap ++ rest) = pattern.finditer rest := by
  induction gap with
  | nil => rfl
  | cons c gap ih =>
      have skipped : pattern.finditer (c :: (gap ++ rest)) = pattern.finditer (gap ++ rest) := by
        rw [finditer, finditerFrom, rejects c (gap ++ rest) (all c List.mem_cons_self)]
        rfl
      have later : ∀ other ∈ gap, cls other :=
        fun other member => all other (List.mem_cons_of_mem c member)
      rw [List.cons_append, skipped, ih later]

/-- The search takes the first candidate and goes on after it. -/
theorem finditer_match {pattern : Regex} {c : Char} {used rest : Text} {captures : Captures}
    {others : List (Text × Captures)}
    (first : pattern.candidates (c :: (used ++ rest)) = (rest, captures) :: others)
    : pattern.finditer (c :: (used ++ rest)) = captures :: pattern.finditer rest := by
  have inside : (used ++ rest).length - rest.length = used.length := by simp
  rw [finditer, finditerFrom, first]
  simp only [inside, finditerFrom_inside]
  rfl

end Regex

end Library
