import AgentFeatures.Json
import AgentFeatures.Library.JsonText

/-! JSON values as texts, in the styles of the programs that write them. -/

namespace AgentFeatures

open Library
open Library.JsonText (Blank Item Member Spells SpellsChar SpellsContent isNumeral separated)

/-- How a program writes JSON texts. -/
structure JsonStyle where
  /-- The white space before an entry at a depth, and before the bracket that closes it. -/
  line : Nat → Blank
  /-- The white space after a colon. -/
  space : Blank
  /-- A character within a string. -/
  escape : Char → Text
  spells : ∀ c, SpellsChar c (escape c)
  int : Int → Text
  float : BitVec 64 → Text

namespace Json

/-- The values of JSON texts for a program that reads numbers this way. A repeated name keeps
its first place and its last value.
-/
def values (number : Text → Option Json) : JsonText.Values Json where
  null := null
  bool := bool
  number := number
  string content := str (.ofList content)
  array := arr
  object members :=
    obj (Dict.ofList (members.map fun member => (String.ofList member.1, member.2))).entries

/-- A text between quotes. -/
def quote (style : JsonStyle) (text : String) : Text :=
  '"' :: (text.toList.flatMap style.escape ++ ['"'])

mutual

/-- The text of a value at a depth. -/
def print (style : JsonStyle) (depth : Nat) : Json → Text
  | null => JsonText.nullWord
  | bool value => JsonText.word value
  | int value => style.int value
  | float bits => style.float bits
  | str text => quote style text
  | arr [] => ['[', ']']
  | arr items =>
      '[' :: (separated (printItems style (depth + 1) items) ++ ((style.line depth).text ++ [']']))
  | obj [] => ['\x7b', '\x7d']
  | obj fields =>
      '\x7b' :: (separated (printFields style (depth + 1) fields)
        ++ ((style.line depth).text ++ ['\x7d']))

def printItems (style : JsonStyle) (depth : Nat) : List Json → List Text
  | [] => []
  | item :: rest =>
      ((style.line depth).text ++ print style depth item) :: printItems style depth rest

def printFields (style : JsonStyle) (depth : Nat) : List (String × Json) → List Text
  | [] => []
  | (name, value) :: rest =>
      ((style.line depth).text
        ++ (quote style name ++ ':' :: (style.space.text ++ print style depth value)))
        :: printFields style depth rest

end

/-- A text that is a number's literal and reads as its value. -/
structure Literal (number : Text → Option Json) (text : Text) (value : Json) : Prop where
  nonempty : text ≠ []
  numeral : ∀ c ∈ text, isNumeral c
  read : number text = some value

/-- Values whose texts read back: names are unique in each object, and numbers read back. -/
inductive ReadsBack (style : JsonStyle) (number : Text → Option Json) : Json → Prop
  | null : ReadsBack style number null
  | bool (value : Bool) : ReadsBack style number (bool value)
  | int {value : Int} (literal : Literal number (style.int value) (int value))
    : ReadsBack style number (int value)
  | float {bits : BitVec 64} (literal : Literal number (style.float bits) (float bits))
    : ReadsBack style number (float bits)
  | str (text : String) : ReadsBack style number (str text)
  | arr {items : List Json} (each : ∀ item ∈ items, ReadsBack style number item)
    : ReadsBack style number (arr items)
  | obj {fields : List (String × Json)} (unique : (fields.map Prod.fst).Nodup)
    (each : ∀ field ∈ fields, ReadsBack style number field.2)
    : ReadsBack style number (obj fields)

variable (style : JsonStyle)

/-- Escaped characters spell a content, by text induction. -/
theorem spellsContent_escape (text : Text) : SpellsContent text (text.flatMap style.escape) := by
  induction text with
  | nil => exact .nil
  | cons c rest ih => exact .cons (style.spells c) ih

/-- An item at a depth, as it is printed. -/
def toItem (depth : Nat) (item : Json) : Item Json where
  value := item
  before := style.line depth
  text := print style depth item
  after := ⟨[], by simp⟩

/-- A field at a depth, as it is printed. -/
def toMember (depth : Nat) (field : String × Json) : Member Json where
  value := field.2
  before := style.space
  text := print style depth field.2
  after := ⟨[], by simp⟩
  name := field.1.toList
  ahead := style.line depth
  spelling := field.1.toList.flatMap style.escape
  spelled := spellsContent_escape style field.1.toList
  colon := ⟨[], by simp⟩

theorem printItems_eq (depth : Nat) (items : List Json)
    : printItems style depth items = (items.map (toItem style depth)).map Item.padded := by
  induction items with
  | nil => rfl
  | cons item rest ih => simp [printItems, ih, toItem, Item.padded]

theorem printFields_eq (depth : Nat) (fields : List (String × Json))
    : printFields style depth fields = (fields.map (toMember style depth)).map Member.line := by
  induction fields with
  | nil => rfl
  | cons field rest ih => simp [printFields, ih, toMember, Member.line, Item.padded, quote]

/-- The text of a value that reads back spells the value, by induction on the value. -/
theorem spells_print {number : Text → Option Json} {value : Json}
    (readsBack : ReadsBack style number value) (depth : Nat)
    : Spells (values number) value (print style depth value) := by
  induction readsBack generalizing depth with
  | null => exact .null
  | bool value => exact .bool value
  | int literal => exact .number literal.nonempty literal.numeral literal.read
  | float literal => exact .number literal.nonempty literal.numeral literal.read
  | str text =>
      have spelled := @Spells.string _ (values number) _ _
        (spellsContent_escape style text.toList)
      have same : (values number).string text.toList = str text := by simp [values]
      rw [same] at spelled
      exact spelled
  | @arr items _ ih =>
      have each : ∀ item ∈ items.map (toItem style (depth + 1)),
          Spells (values number) item.value item.text :=
        List.forall_mem_map.mpr fun item member => ih item member (depth + 1)
      have same : (items.map (toItem style (depth + 1))).map Item.value = items := by
        simp [Function.comp_def, toItem]
      cases items with
      | nil => exact @Spells.array _ (values number) [] (by simp) ⟨[], by simp⟩
      | cons item rest =>
          have spelled := Spells.array each (style.line depth)
          rw [same, ← printItems_eq] at spelled
          exact spelled
  | @obj fields unique _ ih =>
      have each : ∀ member ∈ fields.map (toMember style (depth + 1)),
          Spells (values number) member.value member.text :=
        List.forall_mem_map.mpr fun field member => ih field member (depth + 1)
      have same : (values number).object ((fields.map (toMember style (depth + 1))).map
          fun member => (member.name, member.value)) = obj fields := by
        simp [values, Function.comp_def, toMember, Dict.entries_ofList unique]
      cases fields with
      | nil => exact @Spells.object _ (values number) [] (by simp) ⟨[], by simp⟩
      | cons field rest =>
          have spelled := Spells.object each (style.line depth)
          rw [same, ← printFields_eq] at spelled
          exact spelled

/-- A printed text is read as its value. -/
theorem read_print {number : Text → Option Json} {value : Json}
    (readsBack : ReadsBack style number value)
    : JsonText.read (values number) (print style 0 value) = some value :=
  JsonText.read_of_spells (spells_print style readsBack 0)

end Json

end AgentFeatures
