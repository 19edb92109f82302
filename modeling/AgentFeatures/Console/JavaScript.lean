import AgentFeatures.JsonText

/-! What the console uses of JavaScript's standard library. -/

namespace AgentFeatures

open Library
open Library.JsonText (Blank SpellsChar escapes unitDigits)

namespace Console

/-- How JavaScript writes numbers in JSON texts, and how it reads them. -/
structure Numbers where
  int : Int → Text
  float : BitVec 64 → Text
  read : Text → Option Json

/-- The characters that `JSON.stringify` escapes with a letter. -/
def letters : List (Char × Char) :=
  [('\x08', 'b'), ('\t', 't'), ('\n', 'n'), ('\x0c', 'f'), ('\r', 'r'), ('"', '"'), ('\\', '\\')]

/-- A character in a string of `JSON.stringify`. -/
def escape (c : Char) : Text :=
  match letters.lookup c with
  | some letter => ['\\', letter]
  | none => if c.toNat < 0x20 then '\\' :: 'u' :: unitDigits c.toNat else [c]

theorem escapes_of_letters : ∀ entry ∈ letters, escapes.lookup entry.2 = some entry.1 := by decide

/-- Each character is escaped to a spelling of it. -/
theorem spells_escape (c : Char) : SpellsChar c (escape c) := by
  cases found : letters.lookup c with
  | some letter =>
      have member := (Dict.lookup_eq_some_iff (by decide)).mp found
      rw [escape, found]
      exact .letter (escapes_of_letters _ member)
  | none =>
      have unlisted := List.lookup_eq_none_iff.mp found
      rw [escape, found]
      by_cases control : c.toNat < 0x20
      · simp only [control, if_true]
        exact .unit (JsonText.codeUnit?_unitDigits (by omega))
      · simp only [control, if_false]
        refine .plain (Nat.not_lt.mp control) ?_ ?_
        · simpa using unlisted ('"', '"') (by simp [letters])
        · simpa using unlisted ('\\', '\\') (by simp [letters])

/-- The line break that `JSON.stringify` writes at a depth, with an indent of `gap` spaces. -/
def lineBreak (gap depth : Nat) : Blank where
  text := if gap = 0 then [] else '\n' :: List.replicate (gap * depth) ' '
  blank := by
    intro c member
    split at member
    · simp at member
    · rcases List.mem_cons.mp member with rfl | space
      · rfl
      · rw [List.eq_of_mem_replicate space]
        rfl

/-- The style of `JSON.stringify`. -/
def style (numbers : Numbers) (gap : Nat) : JsonStyle where
  line := lineBreak gap
  space := ⟨if gap = 0 then [] else [' '], by split <;> simp [JsonText.isBlank]⟩
  escape := escape
  spells := spells_escape
  int := numbers.int
  float := numbers.float

/-- `JSON.stringify(value, null, gap)`. -/
def stringify (numbers : Numbers) (gap : Nat) (value : Json) : String :=
  .ofList (value.print (style numbers gap) 0)

/-- `JSON.parse(text)`; `none` where it throws. That names which are array indices come first is
left out.
-/
def parse (numbers : Numbers) (text : String) : Option Json :=
  JsonText.read (Json.values numbers.read) text.toList

/-- `JSON.parse(text || "{}")`. -/
def parseOrEmpty (numbers : Numbers) (text : String) : Option Json :=
  parse numbers (if text = "" then "\x7b\x7d" else text)

variable {numbers : Numbers} {gap : Nat} {value : Json}

/-- `JSON.parse` inverts `JSON.stringify`, on texts that are never empty. -/
theorem parseOrEmpty_stringify
    (readsBack : Json.ReadsBack (style numbers gap) numbers.read value)
    : parseOrEmpty numbers (stringify numbers gap value) = some value := by
  have nonempty : stringify numbers gap value ≠ "" := by
    obtain ⟨c, rest, starts, -, -⟩ := (Json.spells_print _ readsBack 0).starts
    simp [stringify, starts]
  rw [parseOrEmpty, if_neg nonempty, parse, stringify, String.toList_ofList]
  exact Json.read_print _ readsBack

-----------------------------------------------------------------------------------------
-- White space
-----------------------------------------------------------------------------------------

/-- The characters that `trim` removes: white space and line terminators. -/
def isWhite (c : Char) : Bool :=
  let n := c.toNat
  (0x9 ≤ n && n ≤ 0xd) || n == 0x20 || n == 0xa0 || n == 0xfeff || n == 0x1680
    || (0x2000 ≤ n && n ≤ 0x200a) || n == 0x2028 || n == 0x2029 || n == 0x202f || n == 0x205f
    || n == 0x3000

/-- `text.trim()`. -/
def trim (text : String) : String := .ofList ((text.toList.dropWhile isWhite).rdropWhile isWhite)

/-- The text neither starts nor ends with white space. -/
structure Trimmed (text : String) : Prop where
  start : ∀ c ∈ text.toList.head?, isWhite c = false
  finish : ∀ c ∈ text.toList.getLast?, isWhite c = false

theorem dropWhile_eq_self_iff {text : Text}
    : text.dropWhile isWhite = text ↔ ∀ c ∈ text.head?, isWhite c = false := by
  cases text with
  | nil => simp
  | cons c rest => simp [List.dropWhile_eq_self_iff]

theorem rdropWhile_eq_self_iff {text : Text}
    : text.rdropWhile isWhite = text ↔ ∀ c ∈ text.getLast?, isWhite c = false := by
  cases text with
  | nil => simp
  | cons c rest => simp [List.rdropWhile_eq_self_iff, List.getLast?_eq_some_getLast]

/-- Exactly the texts without white space at their ends are left as they are. -/
theorem trim_eq_self_iff {text : String} : trim text = text ↔ Trimmed text := by
  constructor
  · intro same
    have kept : (text.toList.dropWhile isWhite).rdropWhile isWhite = text.toList := by
      simpa [trim] using congrArg String.toList same
    have shorter := (List.rdropWhile_prefix isWhite (l := text.toList.dropWhile isWhite)).length_le
    rw [kept] at shorter
    have unstarted : text.toList.dropWhile isWhite = text.toList :=
      (List.dropWhile_suffix isWhite).eq_of_length_le shorter
    rw [unstarted] at kept
    exact ⟨dropWhile_eq_self_iff.mp unstarted, rdropWhile_eq_self_iff.mp kept⟩
  · intro trimmed
    rw [trim, dropWhile_eq_self_iff.mpr trimmed.start, rdropWhile_eq_self_iff.mpr trimmed.finish,
      String.ofList_toList]

end Console

end AgentFeatures
