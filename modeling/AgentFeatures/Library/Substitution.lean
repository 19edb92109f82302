import AgentFeatures.Library.Text

/-! Tokens replaced one after another over a growing text, against the holes of a template
filled at once.
-/

namespace Library.Substitution

-----------------------------------------------------------------------------------------
-- Replacing one token
-----------------------------------------------------------------------------------------

section Replace

variable {α : Type}

/-- No occurrence of `old` lies across the place where the two texts meet. -/
def Apart (old left right : List α) : Prop :=
  ∀ front back,
    old = front ++ back → front ≠ [] → back ≠ [] → front <:+ left → ¬ back <+: right

theorem Apart.tail {old left right : List α} {c : α} (apart : Apart old (c :: left) right)
    : Apart old left right :=
  fun front back split nonempty nonempty' inside =>
    apart front back split nonempty nonempty' (inside.trans (List.suffix_cons c left))

/-- An occurrence at the start of both texts together lies in the first one. -/
theorem Apart.prefix_append_iff {old left right : List α} (apart : Apart old left right)
    (nonempty : left ≠ [])
    : old <+: left ++ right ↔ old <+: left := by
  refine ⟨?_, fun inside => inside.trans (List.prefix_append _ _)⟩
  intro occurs
  obtain ⟨rest, same⟩ := occurs
  rcases List.append_eq_append_iff.mp same with ⟨gap, rfl, -⟩ | ⟨gap, rfl, tail⟩
  · exact List.prefix_append _ _
  · by_cases whole : gap = []
    · simp [whole]
    · exact absurd ⟨rest, tail.symm⟩ (apart left gap rfl nonempty whole (List.suffix_refl _))

variable [DecidableEq α]

/-- The scan of `replace`; the first `skip` symbols belong to an occurrence already replaced. -/
def replaceFrom (old new : List α) : Nat → List α → List α
  | _, [] => []
  | skip + 1, _ :: rest => replaceFrom old new skip rest
  | 0, c :: rest =>
      if old <+: c :: rest then new ++ replaceFrom old new (old.length - 1) rest
      else c :: replaceFrom old new 0 rest

/-- `text.replace(old, new)`: from the left, each occurrence after the end of the one before. -/
def replace (old new text : List α) : List α :=
  if old = [] then new ++ text.flatMap (· :: new) else replaceFrom old new 0 text

/-- The scan of two texts is the scan of each when no occurrence lies across them, by induction
on the first text.
-/
theorem replaceFrom_append {old left right : List α} (apart : Apart old left right)
    (new : List α) {skip : Nat} (within : skip ≤ left.length)
    : replaceFrom old new skip (left ++ right)
      = replaceFrom old new skip left ++ replaceFrom old new 0 right := by
  induction left generalizing skip with
  | nil =>
      obtain rfl := Nat.le_zero.mp within
      rfl
  | cons c left ih =>
      cases skip with
      | succ skip => exact ih apart.tail (Nat.le_of_succ_le_succ within)
      | zero =>
          have start := apart.prefix_append_iff (List.cons_ne_nil c left)
          by_cases occurs : old <+: c :: left
          · have length := occurs.length_le
            simp only [List.length_cons] at length
            have present : old <+: c :: (left ++ right) := start.mpr occurs
            simp only [List.cons_append, replaceFrom, if_pos occurs, if_pos present,
              ih apart.tail (show old.length - 1 ≤ left.length by omega), List.append_assoc]
          · have absent : ¬ old <+: c :: (left ++ right) := fun found => occurs (start.mp found)
            simp only [List.cons_append, replaceFrom, if_neg occurs, if_neg absent,
              ih apart.tail (Nat.zero_le _)]

theorem replace_append {old left right : List α} (nonempty : old ≠ [])
    (apart : Apart old left right) (new : List α)
    : replace old new (left ++ right) = replace old new left ++ replace old new right := by
  simp only [replace, if_neg nonempty, replaceFrom_append apart new (Nat.zero_le _)]

/-- A text in which the token does not occur stays, by induction on the text. -/
theorem replace_of_not_infix {old text : List α} (absent : ¬ old <:+: text) (new : List α)
    : replace old new text = text := by
  have nonempty : old ≠ [] := fun empty => absent (empty ▸ List.nil_infix)
  simp only [replace, if_neg nonempty]
  induction text with
  | nil => rfl
  | cons c rest ih =>
      have notHere : ¬ old <+: c :: rest := fun occurs => absent occurs.isInfix
      have notLater : ¬ old <:+: rest := fun occurs =>
        absent (occurs.trans (List.suffix_cons c rest).isInfix)
      rw [replaceFrom, if_neg notHere, ih notLater]

/-- Skipping a whole text leaves nothing, by induction on the text. -/
theorem replaceFrom_of_length_le (old new : List α) {text : List α} {skip : Nat}
    (all : text.length ≤ skip)
    : replaceFrom old new skip text = [] := by
  induction text generalizing skip with
  | nil => cases skip <;> rfl
  | cons c rest ih =>
      cases skip with
      | zero => exact absurd all (Nat.not_succ_le_zero _)
      | succ skip => exact ih (Nat.le_of_succ_le_succ all)

/-- The token alone becomes its value. -/
theorem replace_self {old : List α} (nonempty : old ≠ []) (new : List α)
    : replace old new old = new := by
  cases old with
  | nil => exact absurd rfl nonempty
  | cons c rest =>
      rw [replace, if_neg nonempty, replaceFrom, if_pos (List.prefix_refl _),
        replaceFrom_of_length_le _ _ (by simp), List.append_nil]

end Replace

-----------------------------------------------------------------------------------------
-- Templates
-----------------------------------------------------------------------------------------

/-- A template is made of fixed texts and of holes for the values of tokens. -/
inductive Piece (α τ : Type) where
  | text (symbols : List α)
  | hole (token : τ)
deriving DecidableEq

variable {α τ : Type}

namespace Piece

def isHole : Piece α τ → Bool
  | text _ => false
  | hole _ => true

/-- What a piece becomes when each hole shows a text for its token. -/
def fill (shown : τ → List α) : Piece α τ → List α
  | text symbols => symbols
  | hole token => shown token

end Piece

/-- The text of a template whose holes show the given texts, all at once. -/
def fill (shown : τ → List α) (pieces : List (Piece α τ)) : List α :=
  pieces.flatMap (Piece.fill shown)

@[simp] theorem fill_nil (shown : τ → List α) : fill shown [] = [] := rfl

@[simp] theorem fill_cons (shown : τ → List α) (piece : Piece α τ) (rest : List (Piece α τ))
    : fill shown (piece :: rest) = piece.fill shown ++ fill shown rest := rfl

/-- Holes that show the same texts make the same text, by list induction. -/
theorem fill_congr {shown other : τ → List α} {pieces : List (Piece α τ)}
    (same : ∀ token, Piece.hole token ∈ pieces → shown token = other token)
    : fill shown pieces = fill other pieces := by
  induction pieces with
  | nil => rfl
  | cons piece rest ih =>
      have later := ih fun token member => same token (List.mem_cons_of_mem _ member)
      cases piece with
      | text symbols => simp only [fill_cons, Piece.fill, later]
      | hole token => simp only [fill_cons, Piece.fill, later, same token List.mem_cons_self]

section Places

variable {shown : τ → List α} {pieces : List (Piece α τ)} {part : List α}

/-- A part of the template, filled, stands in the filled template. -/
theorem infix_fill {inner : List (Piece α τ)} (inside : inner <:+: pieces)
    : fill shown inner <:+: fill shown pieces := by
  obtain ⟨front, back, rfl⟩ := inside
  exact ⟨fill shown front, fill shown back, by simp [fill]⟩

/-- What stands in a fixed text of the template stands in the filled one. -/
theorem infix_fill_of_text {symbols : List α} (member : .text symbols ∈ pieces)
    (inside : part <:+: symbols)
    : part <:+: fill shown pieces :=
  inside.trans (List.infix_of_mem_flatten (List.mem_map_of_mem member))

/-- What stands in the text of a hole stands in the filled template. -/
theorem infix_fill_of_hole {token : τ} (member : .hole token ∈ pieces)
    (inside : part <:+: shown token)
    : part <:+: fill shown pieces :=
  inside.trans (List.infix_of_mem_flatten (List.mem_map_of_mem member))

/-- A hole's text stands in the filled template between the ends of the texts around it. -/
theorem infix_fill_of_around {before after left right : List α} {token : τ}
    (around : [.text before, .hole token, .text after] <:+: pieces) (ends : left <:+ before)
    (starts : right <+: after)
    : left ++ (shown token ++ right) <:+: fill shown pieces := by
  obtain ⟨more, rfl⟩ := ends
  obtain ⟨rest, rfl⟩ := starts
  have inside : left ++ (shown token ++ right)
      <:+: fill shown [.text (more ++ left), .hole token, .text (right ++ rest)] :=
    ⟨more, rest, by simp [Piece.fill]⟩
  exact inside.trans (infix_fill around)

end Places

/-- How tokens are spelled: symbols of one class that start with two marks and end with one, no
spelling inside another.
-/
structure Spelling (cls : α → Bool) (mark : α) (spell : τ → List α) : Prop where
  inClass : ∀ token, ∀ c ∈ spell token, cls c
  starts : ∀ token, [mark, mark] <+: spell token
  ends : ∀ token, (spell token).getLast? = some mark
  alone : ∀ token other, spell token <:+: spell other → token = other

/-- A fixed text that no occurrence of a token can reach into: it has no two marks in a row,
ends outside the class, and has no mark before its first symbol outside the class.
-/
def Seals (cls : α → Bool) (mark : α) (symbols : List α) : Prop :=
  ¬ [mark, mark] <:+: symbols
  ∧ symbols.getLast?.any (fun c => !cls c)
  ∧ mark ∉ symbols.takeWhile cls

instance (cls : α → Bool) (mark : α) (symbols : List α) [DecidableEq α]
    : Decidable (Seals cls mark symbols) :=
  inferInstanceAs (Decidable (_ ∧ _ ∧ _))

/-- A fixed text that seals; a hole may be anything. -/
def Piece.Seals (cls : α → Bool) (mark : α) : Piece α τ → Prop
  | text symbols => Substitution.Seals cls mark symbols
  | hole _ => True

instance (cls : α → Bool) (mark : α) [DecidableEq α]
    : (piece : Piece α τ) → Decidable (piece.Seals cls mark)
  | .text symbols => inferInstanceAs (Decidable (Seals cls mark symbols))
  | .hole _ => .isTrue trivial

/-- All fixed texts of the template seal, and one stands between any two holes. -/
structure Sealed (cls : α → Bool) (mark : α) (pieces : List (Piece α τ)) : Prop where
  texts : ∀ piece ∈ pieces, piece.Seals cls mark
  separated : pieces.IsChain fun piece next => piece.isHole → !next.isHole

theorem Sealed.tail {cls : α → Bool} {mark : α} {piece : Piece α τ} {rest : List (Piece α τ)}
    (isSealed : Sealed cls mark (piece :: rest))
    : Sealed cls mark rest where
  texts piece member := isSealed.texts piece (List.mem_cons_of_mem _ member)
  separated := isSealed.separated.tail

-----------------------------------------------------------------------------------------
-- Tables of values
-----------------------------------------------------------------------------------------

section Tables

variable {spell : τ → List α}

/-- Distinct tokens stand in no earlier entry. -/
theorem not_mem_of_nodup {before after : List (τ × List α)} {entry : τ × List α}
    (distinct : ((before ++ entry :: after).map Prod.fst).Nodup)
    : entry.1 ∉ before.map Prod.fst := by
  simp only [List.map_append, List.nodup_append] at distinct
  exact fun earlier => distinct.2.2 _ earlier _ (by simp) rfl

variable [DecidableEq τ]

/-- The text a hole shows when all tokens of the table are replaced at once. -/
def shownValue (spell : τ → List α) (subs : List (τ × List α)) (token : τ) : List α :=
  (subs.lookup token).getD (spell token)

/-- The template with all tokens of the table replaced at once. -/
def simultaneous (spell : τ → List α) (subs : List (τ × List α)) (pieces : List (Piece α τ))
    : List α :=
  fill (shownValue spell subs) pieces

theorem lookup_eq_none {subs : List (τ × List α)} {token : τ}
    (absent : token ∉ subs.map Prod.fst)
    : subs.lookup token = none := by
  refine List.lookup_eq_none_iff.mpr fun entry member => ?_
  have differs : token ≠ entry.1 := fun same => absent (same ▸ List.mem_map_of_mem member)
  simpa using differs

/-- A token's first value in the table is the one it shows. -/
theorem shownValue_of_first {before after : List (τ × List α)} {token : τ}
    (first : token ∉ before.map Prod.fst) (value : List α)
    : shownValue spell (before ++ (token, value) :: after) token = value := by
  simp [shownValue, List.lookup_append, lookup_eq_none first]

end Tables

-----------------------------------------------------------------------------------------
-- Replacing in a template
-----------------------------------------------------------------------------------------

section Spelled

variable {cls : α → Bool} {mark : α} {spell : τ → List α}

theorem Spelling.ne_nil (spelling : Spelling cls mark spell) (token : τ) : spell token ≠ [] := by
  intro empty
  have ends := spelling.ends token
  simp only [empty] at ends
  cases ends

/-- A sealing text has a last symbol, and that is outside the class. -/
theorem Seals.exists_last {symbols : List α} (seals : Seals cls mark symbols)
    : ∃ front c, symbols = front ++ [c] ∧ cls c = false := by
  have last := seals.2.1
  rcases symbols.eq_nil_or_concat' with rfl | ⟨front, c, rfl⟩
  · cases last
  · refine ⟨front, c, rfl, ?_⟩
    simpa using last

/-- No token lies across the end of a sealing text: its symbol there would be in the class. -/
theorem Seals.apart_left {symbols : List α} (seals : Seals cls mark symbols)
    (spelling : Spelling cls mark spell) (token : τ) (right : List α)
    : Apart (spell token) symbols right := by
  intro front back split nonempty _ inside _
  obtain ⟨others, c, rfl, outside⟩ := seals.exists_last
  obtain ⟨rest, same⟩ := inside
  obtain ⟨initial, last, rfl⟩ := front.eq_nil_or_concat'.resolve_left nonempty
  simp only [← List.append_assoc] at same
  obtain ⟨-, lasts⟩ := List.append_inj' same rfl
  obtain rfl := List.singleton_inj.mp lasts
  have inClass := spelling.inClass token last (by simp [split])
  exact absurd (outside.symm.trans inClass) Bool.false_ne_true

/-- No token lies across the start of a sealing text: it would end with a mark before the first
symbol outside the class, or reach over the whole text.
-/
theorem Seals.apart_right {symbols : List α} (seals : Seals cls mark symbols)
    (spelling : Spelling cls mark spell) (token : τ) (left more : List α)
    : Apart (spell token) left (symbols ++ more) := by
  intro front back split _ nonempty _ crosses
  have inClass : ∀ c ∈ back, cls c := fun c member =>
    spelling.inClass token c (split ▸ List.mem_append_right front member)
  obtain ⟨rest, same⟩ := crosses
  rcases List.append_eq_append_iff.mp same with ⟨gap, within, -⟩ | ⟨gap, beyond, -⟩
  · have ends := spelling.ends token
    simp only [split, List.getLast?_append_of_ne_nil _ nonempty] at ends
    refine seals.2.2 ?_
    simp only [within, List.takeWhile_append_of_pos inClass]
    exact List.mem_append_left _ (List.mem_of_getLast? ends)
  · obtain ⟨others, c, rfl, outside⟩ := seals.exists_last
    have inside := inClass c (by simp [beyond])
    exact absurd (outside.symm.trans inside) Bool.false_ne_true

variable [DecidableEq α]

/-- Replacing a token in a sealed template replaces it in each shown text on its own, by list
induction.
-/
theorem replace_fill (spelling : Spelling cls mark spell) {pieces : List (Piece α τ)}
    (isSealed : Sealed cls mark pieces) (token : τ) (value : List α) (shown : τ → List α)
    : replace (spell token) value (fill shown pieces)
      = fill (fun other => replace (spell token) value (shown other)) pieces := by
  induction pieces with
  | nil => exact replace_of_not_infix (by simp [spelling.ne_nil token]) value
  | cons piece rest ih =>
      simp only [fill_cons, ← ih isSealed.tail]
      cases piece with
      | text symbols =>
          have seals : Seals cls mark symbols := isSealed.texts _ List.mem_cons_self
          have absent : ¬ spell token <:+: symbols := fun occurs =>
            seals.1 ((spelling.starts token).isInfix.trans occurs)
          simp only [Piece.fill, replace_append (spelling.ne_nil token)
            (seals.apart_left spelling token _), replace_of_not_infix absent, Piece.fill]
      | hole other =>
          refine replace_append (spelling.ne_nil token) ?_ value
          cases rest with
          | nil => exact fun front back _ _ nonempty _ crosses =>
              nonempty (List.prefix_nil.mp crosses)
          | cons next later =>
              cases next with
              | text symbols =>
                  have seals : Seals cls mark symbols := isSealed.tail.texts _ List.mem_cons_self
                  exact seals.apart_right spelling token _ _
              | hole following =>
                  have apart := (List.isChain_cons_cons.mp isSealed.separated).1
                  exact absurd apart (by simp [Piece.isHole])

/-- The loop over the table: each token is replaced in the text made so far. -/
def substituteAll (spell : τ → List α) (subs : List (τ × List α)) (text : List α) : List α :=
  subs.foldl (fun out entry => replace (spell entry.1) entry.2 out) text

/-- The loop works on each shown text of a sealed template on its own, by induction on the
table.
-/
theorem substituteAll_fill (spelling : Spelling cls mark spell) {pieces : List (Piece α τ)}
    (isSealed : Sealed cls mark pieces) (subs : List (τ × List α)) (shown : τ → List α)
    : substituteAll spell subs (fill shown pieces)
      = fill (fun token => substituteAll spell subs (shown token)) pieces := by
  induction subs generalizing shown with
  | nil => rfl
  | cons entry subs ih =>
      simp only [substituteAll, List.foldl_cons, replace_fill spelling isSealed]
      exact ih _

/-- A text without any of the tokens stays, by induction on the table. -/
theorem substituteAll_of_absent {subs : List (τ × List α)} {text : List α}
    (absent : ∀ entry ∈ subs, ¬ spell entry.1 <:+: text)
    : substituteAll spell subs text = text := by
  induction subs with
  | nil => rfl
  | cons entry subs ih =>
      obtain ⟨here, later⟩ := List.forall_mem_cons.mp absent
      simp only [substituteAll, List.foldl_cons, replace_of_not_infix here]
      exact ih later

/-- A token with a value becomes that value with the tokens after it in the table replaced. -/
theorem substituteAll_spell (spelling : Spelling cls mark spell) {before after : List (τ × List α)}
    {token : τ} (first : token ∉ before.map Prod.fst) (value : List α)
    : substituteAll spell (before ++ (token, value) :: after) (spell token)
      = substituteAll spell after value := by
  have kept : substituteAll spell before (spell token) = spell token := by
    refine substituteAll_of_absent fun entry member occurs => first ?_
    exact spelling.alone _ _ occurs ▸ List.mem_map_of_mem member
  rw [substituteAll] at kept ⊢
  rw [List.foldl_append, kept, List.foldl_cons, replace_self (spelling.ne_nil token)]
  rfl

/-- The token's value stays when the tokens after it in the table are replaced in it. -/
def KeepsValue (spell : τ → List α) (subs : List (τ × List α)) (token : τ) : Prop :=
  ∀ before value after,
    subs = before ++ (token, value) :: after → substituteAll spell after value = value

/-- Each value that the template shows stays. -/
def Keeps (spell : τ → List α) (subs : List (τ × List α)) (pieces : List (Piece α τ)) : Prop :=
  ∀ token, .hole token ∈ pieces → KeepsValue spell subs token

/-- Values stay when no value has a later token of the table in it. -/
theorem keeps_of_pairwise {subs : List (τ × List α)}
    (plain : subs.Pairwise fun entry later => ¬ spell later.1 <:+: entry.2)
    (pieces : List (Piece α τ))
    : Keeps spell subs pieces := by
  intro token _ before value after split
  simp only [split, List.pairwise_append, List.pairwise_cons] at plain
  exact substituteAll_of_absent plain.2.1.1

variable [DecidableEq τ]

/-- A value stays exactly when its token shows it after all replacements. -/
theorem keepsValue_iff (spelling : Spelling cls mark spell) {subs : List (τ × List α)}
    (distinct : (subs.map Prod.fst).Nodup) {token : τ}
    : KeepsValue spell subs token
      ↔ substituteAll spell subs (spell token) = shownValue spell subs token := by
  constructor
  · intro keeps
    by_cases known : token ∈ subs.map Prod.fst
    · obtain ⟨entry, inSubs, rfl⟩ := List.mem_map.mp known
      obtain ⟨before, after, rfl, -⟩ := List.eq_append_cons_of_mem inSubs
      have fresh := not_mem_of_nodup distinct
      simp only [substituteAll_spell spelling fresh, keeps _ _ _ rfl, shownValue_of_first fresh]
    · simp only [shownValue, lookup_eq_none known]
      refine substituteAll_of_absent fun entry inSubs occurs => known ?_
      exact spelling.alone _ _ occurs ▸ List.mem_map_of_mem inSubs
  · intro shows before value after split
    have first : token ∉ before.map Prod.fst := not_mem_of_nodup (split ▸ distinct)
    rwa [split, substituteAll_spell spelling first, shownValue_of_first first] at shows

/-- One replacement after another is the simultaneous one when the values stay. -/
theorem substituteAll_eq_simultaneous (spelling : Spelling cls mark spell)
    {subs : List (τ × List α)} (distinct : (subs.map Prod.fst).Nodup)
    {pieces : List (Piece α τ)} (isSealed : Sealed cls mark pieces)
    (keeps : Keeps spell subs pieces)
    : substituteAll spell subs (fill spell pieces) = simultaneous spell subs pieces := by
  simp only [substituteAll_fill spelling isSealed]
  exact fill_congr fun token member => (keepsValue_iff spelling distinct).mp (keeps token member)

end Spelled

-----------------------------------------------------------------------------------------
-- Reading a filled template back, line by line
-----------------------------------------------------------------------------------------

/-- Two texts of one line each are equal when they go on to a line end in the same way. -/
theorem eq_of_line {sep : α} {line other symbols rest rest' : List α} (one : sep ∉ line)
    (one' : sep ∉ other) (ends : sep ∈ symbols)
    (same : line ++ (symbols ++ rest) = other ++ (symbols ++ rest'))
    : line = other := by
  obtain ⟨front, back, rfl, first⟩ := List.eq_append_cons_of_mem ends
  have lines : (line ++ front) ++ sep :: (back ++ rest)
      = (other ++ front) ++ sep :: (back ++ rest') := by
    simpa only [List.append_assoc, List.cons_append] using same
  rcases Text.append_cons_eq_append_cons_iff.mp lines with
    ⟨fronts, -⟩ | ⟨gap, longer, -⟩ | ⟨gap, longer, -⟩
  · exact List.append_cancel_right fronts
  · have crossed : sep ∈ other ++ front := by simp [longer]
    exact absurd crossed (by simp [one', first])
  · have crossed : sep ∈ line ++ front := by simp [longer]
    exact absurd crossed (by simp [one, first])

section Lines

variable [DecidableEq α] [DecidableEq τ]

/-- The fixed text ends a line. -/
def Piece.endsLine (sep : α) : Piece α τ → Bool
  | text symbols => decide (sep ∈ symbols)
  | hole _ => false

/-- Each token that is not known yet has a hole followed by the end of its line. -/
def readable (sep : α) : List τ → List (Piece α τ) → Bool
  | _, [] => true
  | known, .text _ :: rest => readable sep known rest
  | known, .hole token :: rest =>
      if token ∈ known then readable sep known rest
      else rest.head?.any (Piece.endsLine sep) && readable sep (token :: known) rest

/-- A readable template shows each hole's text, when unknown ones stand on one line. Witness:
list induction; each line end gives one more token.
-/
theorem eq_of_fill_eq {sep : α} {pieces : List (Piece α τ)} {known : List τ}
    {shown other : τ → List α} (reads : readable sep known pieces)
    (agree : ∀ token ∈ known, shown token = other token)
    (oneLine
      : ∀ token,
          .hole token ∈ pieces → token ∉ known → sep ∉ shown token ∧ sep ∉ other token)
    (same : fill shown pieces = fill other pieces)
    : ∀ token, .hole token ∈ pieces → shown token = other token := by
  induction pieces generalizing known with
  | nil => exact fun _ member => absurd member List.not_mem_nil
  | cons piece rest ih =>
      have onLater (token : τ) (member : .hole token ∈ rest) :=
        oneLine token (List.mem_cons_of_mem _ member)
      cases piece with
      | text symbols =>
          intro token member
          have later : .hole token ∈ rest := by simpa using member
          exact ih reads agree onLater (List.append_cancel_left same) token later
      | hole first =>
          have firstSame : shown first = other first := by
            by_cases isKnown : first ∈ known
            · exact agree first isKnown
            · simp only [readable, if_neg isKnown, Bool.and_eq_true] at reads
              cases rest with
              | nil => exact absurd reads.1 (by simp)
              | cons next later =>
                  cases next with
                  | hole following => exact absurd reads.1 (by simp [Piece.endsLine])
                  | text symbols =>
                      have ends : sep ∈ symbols := by simpa [Piece.endsLine] using reads.1
                      obtain ⟨one, one'⟩ := oneLine first List.mem_cons_self isKnown
                      exact eq_of_line one one' ends same
          simp only [fill_cons, Piece.fill, firstSame] at same
          have restSame := List.append_cancel_left same
          intro token member
          rcases List.mem_cons.mp member with here | later
          · cases here
            exact firstSame
          · simp only [readable] at reads
            split at reads
            · exact ih reads agree onLater restSame token later
            · refine ih (Bool.and_eq_true_iff.mp reads).2
                (List.forall_mem_cons.mpr ⟨firstSame, agree⟩) ?_ restSame token later
              exact fun token member unknown =>
                onLater token member fun isKnown => unknown (List.mem_cons_of_mem _ isKnown)

end Lines

section Counts

variable [DecidableEq α] {sep : α} {shown other : τ → List α}

/-- Holes with at least as many line ends make a text with at least as many, by list
induction.
-/
theorem count_fill_le {pieces : List (Piece α τ)}
    (atLeast
      : ∀ token, .hole token ∈ pieces → (other token).count sep ≤ (shown token).count sep)
    : (fill other pieces).count sep ≤ (fill shown pieces).count sep := by
  induction pieces with
  | nil => exact le_refl _
  | cons piece rest ih =>
      simp only [fill_cons, List.count_append]
      refine Nat.add_le_add ?_
        (ih fun token member => atLeast token (List.mem_cons_of_mem _ member))
      cases piece with
      | text symbols => exact le_refl _
      | hole token => exact atLeast token List.mem_cons_self

/-- If the text has no more line ends than the other one, its holes have no more either. -/
theorem count_eq_of_fill_eq {pieces : List (Piece α τ)}
    (atLeast
      : ∀ token, .hole token ∈ pieces → (other token).count sep ≤ (shown token).count sep)
    (same : fill shown pieces = fill other pieces)
    : ∀ token, .hole token ∈ pieces → (shown token).count sep = (other token).count sep := by
  have atMost : (fill shown pieces).count sep ≤ (fill other pieces).count sep := by rw [same]
  clear same
  induction pieces with
  | nil => exact fun _ member => absurd member List.not_mem_nil
  | cons piece rest ih =>
      have atLeastLater (token : τ) (member : .hole token ∈ rest) :=
        atLeast token (List.mem_cons_of_mem _ member)
      have later := count_fill_le atLeastLater
      simp only [fill_cons, List.count_append] at atMost
      have here : (piece.fill other).count sep ≤ (piece.fill shown).count sep := by
        cases piece with
        | text symbols => exact le_refl _
        | hole token => exact atLeast token List.mem_cons_self
      intro token member
      rcases List.mem_cons.mp member with first | inRest
      · subst first
        simp only [Piece.fill] at here atMost
        omega
      · exact ih atLeastLater (by omega) token inRest

end Counts

end Library.Substitution
