import AgentFeatures.Library.Text

/-! JSON texts: the grammar of what a text spells, and a reader for it.

The values are those of any type with a constructor for each kind of JSON value.
-/

namespace Library

namespace JsonText

open Text (Stops)

/-- The constructors of the values that texts spell. -/
structure Values (α : Type) where
  null : α
  bool : Bool → α
  /-- The value of a number's literal; `none` for any other text. -/
  number : Text → Option α
  string : Text → α
  array : List α → α
  /-- An object of its members in the order of the text, repeated names included. -/
  object : List (Text × α) → α

/-- The white space between tokens. -/
def isBlank (c : Char) : Bool := c == ' ' || c == '\t' || c == '\n' || c == '\r'

/-- The characters of number literals. -/
def isNumeral (c : Char) : Bool :=
  c.isDigit || c == '-' || c == '+' || c == '.' || c == 'e' || c == 'E'

/-- The letters after a backslash, with the characters they stand for. -/
def escapes : List (Char × Char) :=
  [('"', '"'), ('\\', '\\'), ('/', '/'), ('b', '\x08'), ('f', '\x0c'), ('n', '\n'),
    ('r', '\r'), ('t', '\t')]

def hexDigit? (c : Char) : Option Nat :=
  if '0' ≤ c ∧ c ≤ '9' then some (c.toNat - '0'.toNat)
  else if 'a' ≤ c ∧ c ≤ 'f' then some (c.toNat - 'a'.toNat + 10)
  else if 'A' ≤ c ∧ c ≤ 'F' then some (c.toNat - 'A'.toNat + 10)
  else none

/-- The code unit that four hexadecimal digits spell. -/
def codeUnit? (digits : Text) : Option Nat :=
  if digits.length = 4 then
    (digits.mapM hexDigit?).map fun values => values.foldl (fun unit digit => 16 * unit + digit) 0
  else none

/-- The four hexadecimal digits of a code unit. -/
def unitDigits (unit : Nat) : Text :=
  [Nat.digitChar (unit / 4096 % 16), Nat.digitChar (unit / 256 % 16),
    Nat.digitChar (unit / 16 % 16), Nat.digitChar (unit % 16)]

/-- The code unit is the first half of a surrogate pair. -/
def isHigh (unit : Nat) : Bool := 0xd800 ≤ unit && unit < 0xdc00

/-- The code unit is the second half of a surrogate pair. -/
def isLow (unit : Nat) : Bool := 0xdc00 ≤ unit && unit < 0xe000

/-- The code point of a surrogate pair. -/
def pairPoint (high low : Nat) : Nat := 0x10000 + (high - 0xd800) * 0x400 + (low - 0xdc00)

-----------------------------------------------------------------------------------------
-- The grammar
-----------------------------------------------------------------------------------------

/-- The spellings of a character within a string. -/
inductive SpellsChar : Char → Text → Prop
  | plain {c : Char} (visible : 0x20 ≤ c.toNat) (unquoted : c ≠ '"') (unescaped : c ≠ '\\')
    : SpellsChar c [c]
  | letter {c letter : Char} (escape : escapes.lookup letter = some c)
    : SpellsChar c ['\\', letter]
  | unit {c : Char} {digits : Text} (spelled : codeUnit? digits = some c.toNat)
    : SpellsChar c ('\\' :: 'u' :: digits)
  | pair {c : Char} {high low : Nat} {highDigits lowDigits : Text}
    (first : codeUnit? highDigits = some high) (second : codeUnit? lowDigits = some low)
    (upper : isHigh high) (lower : isLow low) (point : c.toNat = pairPoint high low)
    : SpellsChar c ('\\' :: 'u' :: (highDigits ++ '\\' :: 'u' :: lowDigits))

/-- The spellings of a string's content between its quotes. -/
inductive SpellsContent : Text → Text → Prop
  | nil : SpellsContent [] []
  | cons {c : Char} {unit content text : Text} (char : SpellsChar c unit)
    (rest : SpellsContent content text)
    : SpellsContent (c :: content) (unit ++ text)

/-- White space. -/
structure Blank where
  text : Text
  blank : ∀ c ∈ text, isBlank c

/-- White space before a token may be none. -/
theorem isBlank_of_mem_nil : ∀ c ∈ ([] : Text), isBlank c := by simp

/-- A value's text between white space, as it stands in an array. -/
structure Item (α : Type) where
  value : α
  before : Blank
  text : Text
  after : Blank

def Item.padded {α : Type} (item : Item α) : Text :=
  item.before.text ++ (item.text ++ item.after.text)

/-- A name with its value's text, as they stand in an object. -/
structure Member (α : Type) extends Item α where
  name : Text
  ahead : Blank
  spelling : Text
  spelled : SpellsContent name spelling
  colon : Blank

/-- A member's text, up to the comma or brace after it. -/
def Member.line {α : Type} (member : Member α) : Text :=
  member.ahead.text
    ++ '"' :: (member.spelling ++ '"' :: (member.colon.text ++ ':' :: member.padded))

def nullWord : Text := ['n', 'u', 'l', 'l']

def word : Bool → Text
  | true => ['t', 'r', 'u', 'e']
  | false => ['f', 'a', 'l', 's', 'e']

/-- The texts, separated by commas. -/
def separated (texts : List Text) : Text := [','].intercalate texts

variable {α : Type} (values : Values α)

/-- The text spells the value. -/
inductive Spells : α → Text → Prop
  | null : Spells values.null nullWord
  | bool (value : Bool) : Spells (values.bool value) (word value)
  | number {value : α} {literal : Text} (nonempty : literal ≠ [])
    (numeral : ∀ c ∈ literal, isNumeral c) (read : values.number literal = some value)
    : Spells value literal
  | string {content text : Text} (spelled : SpellsContent content text)
    : Spells (values.string content) ('"' :: (text ++ ['"']))
  | array {items : List (Item α)} (spelled : ∀ item ∈ items, Spells item.value item.text)
    (gap : Blank)
    : Spells (values.array (items.map Item.value))
        ('[' :: (separated (items.map Item.padded) ++ (gap.text ++ [']'])))
  | object {members : List (Member α)}
    (spelled : ∀ member ∈ members, Spells member.value member.text) (gap : Blank)
    : Spells (values.object (members.map fun member => (member.name, member.value)))
        ('\x7b' :: (separated (members.map Member.line) ++ (gap.text ++ ['\x7d'])))

-----------------------------------------------------------------------------------------
-- The reader
-----------------------------------------------------------------------------------------

def skip (text : Text) : Text := text.dropWhile isBlank

/-- The code unit at the start of the text. -/
def readUnit (text : Text) : Option (Nat × Text) :=
  (codeUnit? (text.take 4)).map fun unit => (unit, text.drop 4)

/-- The character of the code units after `\u`. A half of a pair alone is no character. -/
def readPoint (text : Text) : Option (Char × Text) := do
  let (unit, rest) ← readUnit text
  if isHigh unit then
    match rest with
    | '\\' :: 'u' :: rest =>
        let (low, rest) ← readUnit rest
        if isLow low then some (Char.ofNat (pairPoint unit low), rest) else none
    | _ => none
  else if isLow unit then none
  else some (Char.ofNat unit, rest)

/-- The character at the start of the text, within a string. -/
def readChar : Text → Option (Char × Text)
  | '\\' :: 'u' :: rest => readPoint rest
  | '\\' :: letter :: rest => (escapes.lookup letter).map fun c => (c, rest)
  | c :: rest => if c.toNat < 0x20 then none else some (c, rest)
  | [] => none

/-- The content up to the closing quote. -/
def readContent : Nat → Text → Option (Text × Text)
  | 0, _ => none
  | _ + 1, '"' :: rest => some ([], rest)
  | fuel + 1, text => do
      let (c, rest) ← readChar text
      let (content, rest) ← readContent fuel rest
      return (c :: content, rest)

/-- The word or number at the start of the text. -/
def readScalar (text : Text) : Option (α × Text) :=
  if nullWord.isPrefixOf text then some (values.null, text.drop 4)
  else if (word true).isPrefixOf text then some (values.bool true, text.drop 4)
  else if (word false).isPrefixOf text then some (values.bool false, text.drop 5)
  else
    (values.number (text.takeWhile isNumeral)).map fun value => (value, text.dropWhile isNumeral)

mutual

/-- The value at the start of the text, and the text after it. -/
def readValue : Nat → Text → Option (α × Text)
  | 0, _ => none
  | fuel + 1, text =>
      match skip text with
      | '"' :: rest => do
          let (content, rest) ← readContent fuel rest
          return (values.string content, rest)
      | '[' :: rest =>
          match skip rest with
          | ']' :: rest => some (values.array [], rest)
          | _ => do
              let (items, rest) ← readItems fuel rest
              return (values.array items, rest)
      | '\x7b' :: rest =>
          match skip rest with
          | '\x7d' :: rest => some (values.object [], rest)
          | _ => do
              let (members, rest) ← readMembers fuel rest
              return (values.object members, rest)
      | text => readScalar values text

/-- The values up to the end of an array. -/
def readItems : Nat → Text → Option (List α × Text)
  | 0, _ => none
  | fuel + 1, text => do
      let (value, rest) ← readValue fuel text
      match skip rest with
      | ',' :: rest =>
          let (items, rest) ← readItems fuel rest
          return (value :: items, rest)
      | ']' :: rest => return ([value], rest)
      | _ => none

/-- The members up to the end of an object. -/
def readMembers : Nat → Text → Option (List (Text × α) × Text)
  | 0, _ => none
  | fuel + 1, text =>
      match skip text with
      | '"' :: rest => do
          let (name, rest) ← readContent fuel rest
          match skip rest with
          | ':' :: rest =>
              let (value, rest) ← readValue fuel rest
              match skip rest with
              | ',' :: rest =>
                  let (members, rest) ← readMembers fuel rest
                  return ((name, value) :: members, rest)
              | '\x7d' :: rest => return ([(name, value)], rest)
              | _ => none
          | _ => none
      | _ => none

end

/-- The value of a whole text. Each value in another is shorter, so the text's length is fuel
enough.
-/
def read (text : Text) : Option α := do
  let (value, rest) ← readValue values text.length text
  if skip rest = [] then some value else none

-----------------------------------------------------------------------------------------
-- The reader reads what is spelled
-----------------------------------------------------------------------------------------

theorem Blank.skip_append (gap : Blank) (text : Text) : skip (gap.text ++ text) = skip text :=
  List.dropWhile_append_of_pos gap.blank

theorem skip_cons {c : Char} (token : isBlank c = false) (rest : Text)
    : skip (c :: rest) = c :: rest :=
  (Text.stops_cons token rest).dropWhile_eq

/-- White space goes on until a token. -/
theorem Blank.skip_cons (gap : Blank) {c : Char} (token : isBlank c = false) (rest : Text)
    : skip (gap.text ++ c :: rest) = c :: rest := by
  rw [gap.skip_append, JsonText.skip_cons token]

/-- Where no number goes on, white space may stand in front. -/
theorem Blank.stops (gap : Blank) {rest : Text} (stops : Stops isNumeral rest)
    : Stops isNumeral (gap.text ++ rest) := by
  refine stops.append fun c member => ?_
  have blank := gap.blank c member
  simp only [isBlank, Bool.or_eq_true, beq_iff_eq] at blank
  obtain ((rfl | rfl) | rfl) | rfl := blank <;> rfl

theorem hexDigit?_digitChar : ∀ digit < 16, hexDigit? (Nat.digitChar digit) = some digit := by
  decide

/-- The digits of a code unit spell it. -/
theorem codeUnit?_unitDigits {unit : Nat} (small : unit < 0x10000)
    : codeUnit? (unitDigits unit) = some unit := by
  have digit (n : Nat) : hexDigit? (Nat.digitChar (n % 16)) = some (n % 16) :=
    hexDigit?_digitChar (n % 16) (Nat.mod_lt n (by decide))
  simp only [codeUnit?, unitDigits, List.length_cons, List.length_nil, if_true, List.mapM_cons,
    List.mapM_nil, digit, Option.pure_def, Option.bind_eq_bind, Option.bind_some,
    Option.map_some, List.foldl_cons, List.foldl_nil, Option.some.injEq]
  omega

/-- The halves of a surrogate pair spell the character at their code point. -/
theorem SpellsChar.surrogates {c : Char} {offset : Nat} (point : c.toNat = 0x10000 + offset)
    : SpellsChar c ('\\' :: 'u' :: (unitDigits (0xd800 + offset / 0x400)
        ++ '\\' :: 'u' :: unitDigits (0xdc00 + offset % 0x400))) := by
  have scalar : c.toNat < 0xd800 ∨ 0xdfff < c.toNat ∧ c.toNat < 0x110000 := c.valid
  have quotient : offset / 0x400 < 0x400 := by omega
  refine .pair (codeUnit?_unitDigits (by omega)) (codeUnit?_unitDigits (by omega)) ?_ ?_ ?_
  · simp only [isHigh, Bool.and_eq_true, decide_eq_true_eq]
    omega
  · simp only [isLow, Bool.and_eq_true, decide_eq_true_eq]
    omega
  · unfold pairPoint
    omega

theorem readUnit_append {digits : Text} {unit : Nat} (spelled : codeUnit? digits = some unit)
    (rest : Text)
    : readUnit (digits ++ rest) = some (unit, rest) := by
  have four : digits.length = 4 := by
    by_contra other
    simp [codeUnit?, other] at spelled
  rw [readUnit, List.take_left' four, List.drop_left' four, spelled]
  rfl

/-- A code unit that is a character is no half of a pair. -/
theorem isHigh_toNat (c : Char) : isHigh c.toNat = false ∧ isLow c.toNat = false := by
  have scalar : c.toNat < 0xd800 ∨ 0xdfff < c.toNat ∧ c.toNat < 0x110000 := c.valid
  constructor
  · simp only [isHigh, Bool.and_eq_false_iff, decide_eq_false_iff_not]
    omega
  · simp only [isLow, Bool.and_eq_false_iff, decide_eq_false_iff_not]
    omega

/-- Each spelling of a character is read as the character, and none starts with a quote. -/
theorem SpellsChar.read {c : Char} {unit : Text} (spelled : SpellsChar c unit) (rest : Text)
    : readChar (unit ++ rest) = some (c, rest) ∧ unit.head? ≠ some '"' ∧ unit ≠ [] := by
  cases spelled with
  | plain visible unquoted unescaped =>
      refine ⟨?_, by simpa using unquoted, by simp⟩
      simp [readChar, unescaped, Nat.not_lt.mpr visible]
  | @letter letter escape =>
      refine ⟨?_, by simp, by simp⟩
      have notUnit : letter ≠ 'u' := by
        intro isUnit
        rw [isUnit] at escape
        cases escape
      simp [readChar, escape]
  | unit spelled =>
      refine ⟨?_, by simp, by simp⟩
      obtain ⟨notHigh, notLow⟩ := isHigh_toNat c
      simp [readChar, readPoint, readUnit_append spelled, notHigh, notLow]
  | pair first second upper lower point =>
      refine ⟨?_, by simp, by simp⟩
      simp [readChar, readPoint, readUnit_append first, readUnit_append second, upper, lower,
        ← point]

/-- A spelled content is read up to its quote. Witness: induction on the spelling. -/
theorem readContent_of_spells {content text : Text} (spelled : SpellsContent content text)
    {fuel : Nat} (enough : text.length < fuel) (rest : Text)
    : readContent fuel (text ++ '"' :: rest) = some (content, rest) := by
  induction spelled generalizing fuel with
  | nil =>
      obtain ⟨fuel, rfl⟩ := Nat.exists_eq_add_one_of_ne_zero (Nat.ne_zero_of_lt enough)
      rfl
  | @cons c unit content text char _ ih =>
      obtain ⟨fuel, rfl⟩ := Nat.exists_eq_add_one_of_ne_zero (Nat.ne_zero_of_lt enough)
      obtain ⟨read, noQuote, nonempty⟩ := char.read (text ++ '"' :: rest)
      obtain ⟨first, others, rfl⟩ := List.exists_cons_of_ne_nil nonempty
      have notQuote : first ≠ '"' := by simpa using noQuote
      have shorter : text.length < fuel := by
        simp only [List.length_append, List.length_cons] at enough
        omega
      rw [List.append_assoc]
      simp only [List.cons_append] at read ⊢
      simp [readContent, notQuote, read, ih shorter]

section Values

variable {values : Values α}

/-- Another character than an opening one starts a word or a number. -/
theorem readValue_scalar {fuel : Nat} {text rest : Text} {c : Char} (starts : skip text = c :: rest)
    (other : c ≠ '"' ∧ c ≠ '[' ∧ c ≠ '\x7b')
    : readValue values (fuel + 1) text = readScalar values (c :: rest) := by
  rw [readValue, starts]
  obtain ⟨quote, bracket, brace⟩ := other
  split
  · next same => exact absurd (List.cons.inj same).1 quote
  · next same => exact absurd (List.cons.inj same).1 bracket
  · next same => exact absurd (List.cons.inj same).1 brace
  · rfl

/-- A number's literal is read up to its end. -/
theorem readScalar_number {value : α} {literal rest : Text} (nonempty : literal ≠ [])
    (numeral : ∀ c ∈ literal, isNumeral c) (read : values.number literal = some value)
    (stops : Stops isNumeral rest)
    : readScalar values (literal ++ rest) = some (value, rest) := by
  obtain ⟨first, others, rfl⟩ := List.exists_cons_of_ne_nil nonempty
  have starts := numeral first List.mem_cons_self
  have notNull : first ≠ 'n' := fun same => by simp [same, isNumeral] at starts
  have notTrue : first ≠ 't' := fun same => by simp [same, isNumeral] at starts
  have notFalse : first ≠ 'f' := fun same => by simp [same, isNumeral] at starts
  have words (word : Text) (differs : word.head? ≠ some first) (some : word ≠ [])
      : word.isPrefixOf (first :: others ++ rest) = false := by
    obtain ⟨c, more, rfl⟩ := List.exists_cons_of_ne_nil some
    have unlike : (c == first) = false := by simpa using differs
    simp [List.isPrefixOf, unlike]
  rw [readScalar, words _ (by simpa [nullWord] using notNull.symm) (by simp [nullWord]),
    words _ (by simpa [word] using notTrue.symm) (by simp [word]),
    words _ (by simpa [word] using notFalse.symm) (by simp [word]), stops.takeWhile_append numeral,
    stops.dropWhile_append numeral, read]
  rfl

/-- The value is read from its text with white space before it, whatever comes after. -/
def Reads (values : Values α) (value : α) (text : Text) : Prop :=
  ∀ (before : Blank) {rest : Text} {fuel : Nat},
    Stops isNumeral rest
    → text.length ≤ fuel
    → readValue values fuel (before.text ++ (text ++ rest)) = some (value, rest)

theorem separated_singleton (text : Text) : separated [text] = text := List.intercalate_singleton

theorem separated_cons {others : List Text} (text : Text) (more : others ≠ [])
    : separated (text :: others) = text ++ ',' :: separated others := by
  simp [separated, List.intercalate_cons_of_ne_nil more]

/-- An item is read up to the white space before what comes next. -/
theorem Item.readValue {item : Item α} (reads : Reads values item.value item.text) {rest : Text}
    (stops : Stops isNumeral rest) {fuel : Nat} (enough : item.padded.length ≤ fuel)
    : ∃ after,
        JsonText.readValue values fuel (item.padded ++ rest) = some (item.value, after)
        ∧ skip after = skip rest := by
  refine ⟨item.after.text ++ rest, ?_, item.after.skip_append rest⟩
  have shorter : item.text.length ≤ fuel := by
    simp only [padded, List.length_append] at enough
    omega
  simpa [padded] using reads item.before (item.after.stops stops) shorter

/-- Items whose texts are read are read as an array's items, by list induction. -/
theorem readItems_of_reads {items : List (Item α)} (nonempty : items ≠ [])
    (reads : ∀ item ∈ items, Reads values item.value item.text) {fuel : Nat}
    (enough : (separated (items.map Item.padded)).length < fuel) (gap : Blank) (rest : Text)
    : readItems values fuel (separated (items.map Item.padded) ++ (gap.text ++ ']' :: rest))
      = some (items.map Item.value, rest) := by
  have closed : Stops isNumeral (']' :: rest) := Text.stops_cons rfl rest
  induction items generalizing fuel with
  | nil => exact absurd rfl nonempty
  | cons item others ih =>
      obtain ⟨fuel, rfl⟩ := Nat.exists_eq_add_one_of_ne_zero (Nat.ne_zero_of_lt enough)
      have here := reads item List.mem_cons_self
      by_cases alone : others = []
      · subst alone
        simp only [List.map_cons, List.map_nil, separated_singleton] at enough ⊢
        obtain ⟨after, read, next⟩ :=
          item.readValue here (gap.stops closed) (Nat.le_of_lt_succ enough)
        rw [gap.skip_cons rfl] at next
        simp [readItems, read, next]
      · have others_ne : others.map Item.padded ≠ [] := by simpa using alone
        rw [List.map_cons, separated_cons _ others_ne, List.length_append,
          List.length_cons] at enough
        have first : item.padded.length ≤ fuel := by omega
        have later : (separated (others.map Item.padded)).length < fuel := by omega
        have more := ih alone (fun next member => reads next (List.mem_cons_of_mem _ member)) later
        obtain ⟨after, read, next⟩ := item.readValue here
          (Text.stops_cons (c := ',') rfl
            (separated (others.map Item.padded) ++ (gap.text ++ ']' :: rest))) first
        rw [skip_cons rfl] at next
        rw [List.map_cons, separated_cons _ others_ne, List.append_assoc, List.cons_append]
        simp [readItems, read, next, more]

/-- A member is read up to its value. -/
theorem Member.readName (member : Member α) {fuel : Nat} (enough : member.line.length ≤ fuel)
    (rest : Text)
    : ∃ before after,
        skip (member.line ++ rest) = '"' :: before
        ∧ readContent fuel before = some (member.name, after)
        ∧ skip after = ':' :: (member.padded ++ rest) := by
  have shorter : member.spelling.length < fuel := by
    simp only [line, List.length_append, List.length_cons] at enough
    omega
  refine ⟨_, _, ?_, readContent_of_spells member.spelled shorter _, member.colon.skip_cons rfl _⟩
  simpa [line] using member.ahead.skip_cons (c := '"') rfl
    (member.spelling ++ '"' :: (member.colon.text ++ ':' :: (member.padded ++ rest)))

/-- Members whose texts are read are read as an object's members, by list induction. -/
theorem readMembers_of_reads {members : List (Member α)} (nonempty : members ≠ [])
    (reads : ∀ member ∈ members, Reads values member.value member.text) {fuel : Nat}
    (enough : (separated (members.map Member.line)).length < fuel) (gap : Blank) (rest : Text)
    : readMembers values fuel
        (separated (members.map Member.line) ++ (gap.text ++ '\x7d' :: rest))
      = some (members.map fun member => (member.name, member.value), rest) := by
  have closed : Stops isNumeral ('\x7d' :: rest) := Text.stops_cons rfl rest
  induction members generalizing fuel with
  | nil => exact absurd rfl nonempty
  | cons member others ih =>
      obtain ⟨fuel, rfl⟩ := Nat.exists_eq_add_one_of_ne_zero (Nat.ne_zero_of_lt enough)
      have here := reads member List.mem_cons_self
      have inner : member.padded.length ≤ member.line.length := by
        simp only [Member.line, List.length_append, List.length_cons]
        omega
      by_cases alone : others = []
      · subst alone
        simp only [List.map_cons, List.map_nil, separated_singleton] at enough ⊢
        obtain ⟨before, after, opened, named, colon⟩ :=
          member.readName (Nat.le_of_lt_succ enough) (gap.text ++ '\x7d' :: rest)
        obtain ⟨last, read, next⟩ :=
          member.toItem.readValue here (gap.stops closed)
            (inner.trans (Nat.le_of_lt_succ enough))
        rw [gap.skip_cons rfl] at next
        simp [readMembers, opened, named, colon, read, next]
      · have others_ne : others.map Member.line ≠ [] := by simpa using alone
        rw [List.map_cons, separated_cons _ others_ne, List.length_append,
          List.length_cons] at enough
        have first : member.line.length ≤ fuel := by omega
        have later : (separated (others.map Member.line)).length < fuel := by omega
        have more := ih alone (fun next member => reads next (List.mem_cons_of_mem _ member)) later
        obtain ⟨before, after, opened, named, colon⟩ := member.readName first
          (',' :: (separated (others.map Member.line) ++ (gap.text ++ '\x7d' :: rest)))
        obtain ⟨last, read, next⟩ :=
          member.toItem.readValue here
            (Text.stops_cons (c := ',') rfl
              (separated (others.map Member.line) ++ (gap.text ++ '\x7d' :: rest)))
            (inner.trans first)
        rw [skip_cons rfl] at next
        rw [List.map_cons, separated_cons _ others_ne, List.append_assoc, List.cons_append]
        simp [readMembers, opened, named, colon, read, next, more]

/-- No value's text starts with white space or with the end of an array. -/
theorem Spells.starts {value : α} {text : Text} (spelled : Spells values value text)
    : ∃ c rest, text = c :: rest ∧ isBlank c = false ∧ c ≠ ']' := by
  cases spelled with
  | number nonempty numeral read =>
      obtain ⟨first, others, rfl⟩ := List.exists_cons_of_ne_nil nonempty
      have starts := numeral first List.mem_cons_self
      refine ⟨first, others, rfl, ?_, fun same => by simp [same, isNumeral] at starts⟩
      by_contra blank
      simp only [isBlank, Bool.not_eq_false, Bool.or_eq_true, beq_iff_eq] at blank
      obtain ((rfl | rfl) | rfl) | rfl := blank <;> simp [isNumeral] at starts
  | bool value => cases value <;> exact ⟨_, _, rfl, rfl, by decide⟩
  | _ => exact ⟨_, _, rfl, rfl, by decide⟩

/-- A separated list starts with its first text. -/
theorem exists_separated_eq (text : Text) (others : List Text)
    : ∃ more, separated (text :: others) = text ++ more := by
  by_cases last : others = []
  · exact ⟨[], by simp [last, separated_singleton]⟩
  · exact ⟨_, separated_cons text last⟩

/-- The items of an array do not start with its end. -/
theorem skip_items {items : List (Item α)} (nonempty : items ≠ [])
    (spelled : ∀ item ∈ items, Spells values item.value item.text) (rest : Text)
    : ∃ c more, skip (separated (items.map Item.padded) ++ rest) = c :: more ∧ c ≠ ']' := by
  obtain ⟨item, others, rfl⟩ := List.exists_cons_of_ne_nil nonempty
  obtain ⟨more, begins⟩ := exists_separated_eq item.padded (others.map Item.padded)
  obtain ⟨c, text, starts, token, other⟩ := (spelled item List.mem_cons_self).starts
  have first := item.before.skip_cons token (text ++ (item.after.text ++ (more ++ rest)))
  refine ⟨c, text ++ (item.after.text ++ (more ++ rest)), ?_, other⟩
  rw [List.map_cons, begins, Item.padded, starts]
  simpa using first

/-- The members of an object start with a quote. -/
theorem skip_members {members : List (Member α)} (nonempty : members ≠ []) (rest : Text)
    : ∃ more, skip (separated (members.map Member.line) ++ rest) = '"' :: more := by
  obtain ⟨member, others, rfl⟩ := List.exists_cons_of_ne_nil nonempty
  obtain ⟨more, begins⟩ := exists_separated_eq member.line (others.map Member.line)
  rw [List.map_cons, begins, List.append_assoc]
  obtain ⟨before, -, opened, -⟩ := member.readName (le_refl _) (more ++ rest)
  exact ⟨before, opened⟩

/-- A text is read when fuel for its first step suffices. -/
theorem reads_of_step {value : α} {text : Text} (nonempty : text ≠ [])
    (step
      : ∀ (before : Blank) {rest : Text} {fuel : Nat},
          Stops isNumeral rest
          → text.length ≤ fuel + 1
          → readValue values (fuel + 1) (before.text ++ (text ++ rest)) = some (value, rest))
    : Reads values value text := by
  intro before rest fuel stops enough
  have some : fuel ≠ 0 :=
    Nat.ne_zero_of_lt ((List.length_pos_of_ne_nil nonempty).trans_le enough)
  obtain ⟨fuel, rfl⟩ := Nat.exists_eq_add_one_of_ne_zero some
  exact step before stops enough

/-- What a text spells is read from it. Witness: induction on the spelling. -/
theorem reads_of_spells {value : α} {text : Text} (spelled : Spells values value text)
    : Reads values value text := by
  induction spelled with
  | null =>
      refine reads_of_step (by simp [nullWord]) fun before rest fuel stops enough => ?_
      exact readValue_scalar (before.skip_cons rfl _) (by decide)
  | bool value =>
      refine reads_of_step (by cases value <;> simp [word]) fun before rest fuel stops enough => ?_
      cases value with
      | true => exact readValue_scalar (before.skip_cons rfl _) (by decide)
      | false => exact readValue_scalar (before.skip_cons rfl _) (by decide)
  | @number value literal nonempty numeral read =>
      refine reads_of_step nonempty fun before rest fuel stops enough => ?_
      have scalar := readScalar_number nonempty numeral read stops
      obtain ⟨first, others, rfl, token, -⟩ := (Spells.number nonempty numeral read).starts
      have starts := numeral first List.mem_cons_self
      have other : first ≠ '"' ∧ first ≠ '[' ∧ first ≠ '\x7b' := by
        refine ⟨?_, ?_, ?_⟩ <;> intro same <;> simp [same, isNumeral] at starts
      exact (readValue_scalar (before.skip_cons token _) other).trans scalar
  | @string content text spelled =>
      refine reads_of_step (by simp) fun before rest fuel stops enough => ?_
      have shorter : text.length < fuel := by
        simp only [List.length_cons, List.length_append] at enough
        omega
      have opened := before.skip_cons (c := '"') rfl (text ++ '"' :: rest)
      simp [readValue, opened, readContent_of_spells spelled shorter]
  | @array items spelled gap ih =>
      refine reads_of_step (by simp) fun before rest fuel stops enough => ?_
      have opened := before.skip_cons (c := '[') rfl
        (separated (items.map Item.padded) ++ (gap.text ++ ']' :: rest))
      by_cases empty : items = []
      · subst empty
        have closed := gap.skip_cons (c := ']') rfl rest
        simp only [List.map_nil, separated, List.intercalate_nil, List.nil_append] at opened ⊢
        simp [readValue, opened, closed]
      · have shorter : (separated (items.map Item.padded)).length < fuel := by
          simp only [List.length_cons, List.length_append] at enough
          omega
        have read := readItems_of_reads empty ih shorter gap rest
        obtain ⟨c, more, first, other⟩ := skip_items empty spelled (gap.text ++ ']' :: rest)
        simp [readValue, opened, first, other, read]
  | @object members spelled gap ih =>
      refine reads_of_step (by simp) fun before rest fuel stops enough => ?_
      have opened := before.skip_cons (c := '\x7b') rfl
        (separated (members.map Member.line) ++ (gap.text ++ '\x7d' :: rest))
      by_cases empty : members = []
      · subst empty
        have closed := gap.skip_cons (c := '\x7d') rfl rest
        simp only [List.map_nil, separated, List.intercalate_nil, List.nil_append] at opened ⊢
        simp [readValue, opened, closed]
      · have shorter : (separated (members.map Member.line)).length < fuel := by
          simp only [List.length_cons, List.length_append] at enough
          omega
        have read := readMembers_of_reads empty ih shorter gap rest
        obtain ⟨more, first⟩ := skip_members empty (gap.text ++ '\x7d' :: rest)
        simp [readValue, opened, first, read]

/-- What a whole text spells is its value. -/
theorem read_of_spells {value : α} {text : Text} (spelled : Spells values value text)
    : read values text = some value := by
  have found : readValue values text.length text = some (value, []) := by
    have found := reads_of_spells spelled ⟨[], by simp⟩ (Text.stops_nil _) (le_refl _)
    simpa using found
  rw [read, found]
  rfl

end Values

end JsonText

end Library
