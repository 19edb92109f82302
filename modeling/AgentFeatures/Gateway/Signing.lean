import AgentFeatures.JsonOrder
import AgentFeatures.JsonText

/-! Manifests as the bytes that are signed. -/

namespace AgentFeatures

open Library
open Library.JsonText (SpellsChar escapes isNumeral unitDigits)

namespace Signing

/-- How Python writes numbers: the texts of `int.__repr__` and of `float.__repr__`. -/
structure Numbers where
  int : Int → Text
  float : BitVec 64 → Text

/-- The text of a number. -/
def Numbers.text (numbers : Numbers) : Json → Text
  | .int value => numbers.int value
  | .float bits => numbers.float bits
  | _ => []

/-- Numbers are written as literals of numbers, and different ones differently. -/
structure Numbers.Distinct (numbers : Numbers) : Prop where
  nonempty : ∀ value, Json.IsNumber value → numbers.text value ≠ []
  numeral : ∀ value, Json.IsNumber value → ∀ c ∈ numbers.text value, isNumeral c
  injective : Set.InjOn numbers.text {value | Json.IsNumber value}

/-- The characters that `json.dumps` escapes with a letter. -/
def letters : List (Char × Char) :=
  [('\\', '\\'), ('"', '"'), ('\x08', 'b'), ('\x0c', 'f'), ('\n', 'n'), ('\r', 'r'), ('\t', 't')]

/-- A character in a string of `json.dumps`: what is not printable ASCII is escaped. -/
def escape (c : Char) : Text :=
  match letters.lookup c with
  | some letter => ['\\', letter]
  | none =>
      if 0x20 ≤ c.toNat ∧ c.toNat ≤ 0x7e then [c]
      else if c.toNat < 0x10000 then '\\' :: 'u' :: unitDigits c.toNat
      else
        let v := c.toNat - 0x10000
        '\\' :: 'u' :: (unitDigits (0xd800 + v / 0x400)
          ++ '\\' :: 'u' :: unitDigits (0xdc00 + v % 0x400))

theorem escapes_of_letters : ∀ entry ∈ letters, escapes.lookup entry.2 = some entry.1 := by decide

/-- Each character is escaped to a spelling of it. -/
theorem spells_escape (c : Char) : SpellsChar c (escape c) := by
  cases found : letters.lookup c with
  | some letter =>
      have member := (Dict.lookup_eq_some_iff (by decide)).mp found
      simp only [escape, found]
      exact .letter (escapes_of_letters _ member)
  | none =>
      have unlisted := List.lookup_eq_none_iff.mp found
      simp only [escape, found]
      by_cases printable : 0x20 ≤ c.toNat ∧ c.toNat ≤ 0x7e
      · simp only [printable, and_self, if_true]
        refine .plain printable.1 ?_ ?_
        · simpa using unlisted ('"', '"') (by simp [letters])
        · simpa using unlisted ('\\', '\\') (by simp [letters])
      · by_cases small : c.toNat < 0x10000
        · simp only [printable, small, if_false, if_true]
          exact .unit (JsonText.codeUnit?_unitDigits small)
        · simp only [printable, small, if_false]
          exact .surrogates (by omega)

/-- The style of `json.dumps(value, separators=(",", ":"))`. -/
def style (numbers : Numbers) : JsonStyle where
  line _ := ⟨[], JsonText.isBlank_of_mem_nil⟩
  space := ⟨[], JsonText.isBlank_of_mem_nil⟩
  escape := escape
  spells := spells_escape
  int := numbers.int
  float := numbers.float

/-- `json.dumps(value, sort_keys=True, separators=(",", ":"))`. -/
def dumps (numbers : Numbers) (value : Json) : String :=
  .ofList (value.sortKeys.print (style numbers) 0)

/-- The exact bytes that get signed. -/
def canonicalBytes (numbers : Numbers) (manifest : Dict String Json) : ByteArray :=
  (dumps numbers (.ofDict manifest)).toUTF8

/-- The content digest of a manifest; `sha256` gives the hexadecimal digits of a digest. -/
def manifestDigest (sha256 : ByteArray → String) (numbers : Numbers)
    (manifest : Dict String Json) : String :=
  "sha256:" ++ sha256 (canonicalBytes numbers manifest)

-----------------------------------------------------------------------------------------
-- Equal bytes
-----------------------------------------------------------------------------------------

variable {numbers : Numbers}

/-- Different numbers have different texts, so some function reads every number's text. -/
theorem exists_read (distinct : numbers.Distinct)
    : ∃ read : Text → Option Json,
        ∀ value, Json.IsNumber value → read (numbers.text value) = some value := by
  have nonempty : Nonempty Json := ⟨.null⟩
  refine ⟨fun text => some (Function.invFunOn numbers.text {value | value.IsNumber} text),
    fun value number => ?_⟩
  exact congrArg some (distinct.injective.leftInvOn_invFunOn number)

/-- A document reads back wherever its numbers do, by induction on the document. -/
theorem readsBack_of_isDocument (distinct : numbers.Distinct) {read : Text → Option Json}
    (reads : ∀ value, Json.IsNumber value → read (numbers.text value) = some value) {value : Json}
    (document : value.IsDocument)
    : Json.ReadsBack (style numbers) read value := by
  have literal {value : Json} (number : value.IsNumber)
      : Json.Literal read (numbers.text value) value :=
    ⟨distinct.nonempty value number, distinct.numeral value number, reads value number⟩
  induction document with
  | null => exact .null
  | bool value => exact .bool value
  | number number =>
      cases number with
      | int value => exact .int (literal (.int value))
      | float finite => exact .float (literal (.float finite))
  | str text => exact .str text
  | arr _ ih => exact .arr ih
  | obj unique _ ih => exact .obj unique ih

/-- Documents with the same text are the same, as each is what its text reads as. -/
theorem eq_of_print_eq (distinct : numbers.Distinct) {left right : Json}
    (leftDocument : left.IsDocument) (rightDocument : right.IsDocument)
    (same : left.print (style numbers) 0 = right.print (style numbers) 0)
    : left = right := by
  obtain ⟨read, reads⟩ := exists_read distinct
  have readLeft := Json.read_print _ (readsBack_of_isDocument distinct reads leftDocument)
  have readRight := Json.read_print _ (readsBack_of_isDocument distinct reads rightDocument)
  rw [same, readRight] at readLeft
  exact (Option.some.inj readLeft).symm

/-- Documents are dumped alike exactly when they are equal up to the order of fields. -/
theorem dumps_eq_iff (distinct : numbers.Distinct) {left right : Json}
    (leftDocument : left.IsDocument) (rightDocument : right.IsDocument)
    : dumps numbers left = dumps numbers right ↔ left.SameUpToOrder right := by
  rw [← Json.sortKeys_eq_iff leftDocument rightDocument, dumps, dumps, String.ofList_inj]
  constructor
  · intro same
    exact eq_of_print_eq distinct (Json.isDocument_sortKeys leftDocument)
      (Json.isDocument_sortKeys rightDocument) same
  · intro same
    rw [same]

example : dumps numbers (.obj [("b", .null), ("a", .str "é")])
    = "\x7b\"a\":\"\\u00e9\",\"b\":null\x7d" := rfl

/-- The order of names in its objects does not change a manifest's digest. -/
theorem manifestDigest_eq_of_same {sha256 : ByteArray → String} {left right : Dict String Json}
    (leftDocument : (Json.ofDict left).IsDocument) (rightDocument : (Json.ofDict right).IsDocument)
    (same : (Json.ofDict left).SameUpToOrder (Json.ofDict right))
    : manifestDigest sha256 numbers left = manifestDigest sha256 numbers right := by
  have sorted := (Json.sortKeys_eq_iff leftDocument rightDocument).mpr same
  simp only [manifestDigest, canonicalBytes, dumps, sorted]

/-- Two manifests have the same canonical bytes exactly when they are equal up to the order of the
names in their objects, at every depth. Witness: the bytes are read back to the sorted manifest.
-/
theorem canonicalBytes_eq_iff (distinct : numbers.Distinct) {left right : Dict String Json}
    (leftDocument : (Json.ofDict left).IsDocument) (rightDocument : (Json.ofDict right).IsDocument)
    : canonicalBytes numbers left = canonicalBytes numbers right
      ↔ (Json.ofDict left).SameUpToOrder (Json.ofDict right) := by
  rw [canonicalBytes, canonicalBytes, String.toUTF8_eq_toByteArray, String.toUTF8_eq_toByteArray,
    String.toByteArray_inj]
  exact dumps_eq_iff distinct leftDocument rightDocument

/-- Decimal numbers. No text of these examples has a float: each is written like an integer of
its bits.
-/
def decimals : Numbers where
  int value := value.repr.toList
  float bits := bits.toNat.repr.toList ++ ['.', '0']

theorem decimals_nat (n : Nat) : n.repr.toList ≠ [] ∧ ∀ c ∈ n.repr.toList, c.isDigit := by
  rw [Nat.toList_repr]
  exact ⟨Nat.toDigits_ne_nil, fun c => Nat.isDigit_of_mem_toDigits (by decide) (by decide)⟩

theorem decimals_int (value : Int)
    : value.repr.toList ≠ [] ∧ ∀ c ∈ value.repr.toList, c.isDigit ∨ c = '-' := by
  rw [Int.repr_eq_if]
  split
  · obtain ⟨nonempty, digits⟩ := decimals_nat value.toNat
    exact ⟨nonempty, fun c member => .inl (digits c member)⟩
  · obtain ⟨-, digits⟩ := decimals_nat (-value).toNat
    refine ⟨by simp, fun c member => ?_⟩
    rcases List.mem_append.mp (by simpa only [String.toList_append] using member) with sign | digit
    · exact .inr (by simpa using sign)
    · exact .inl (digits c digit)

/-- Only floats have a point, and either kind of number is written injectively. -/
theorem decimals_distinct : decimals.Distinct where
  nonempty value number := by
    cases number with
    | int value => exact (decimals_int value).1
    | float _ => simp [Numbers.text, decimals]
  numeral value number := by
    cases number with
    | int value =>
        intro c member
        rcases (decimals_int value).2 c member with digit | rfl
        · simp [isNumeral, digit]
        · rfl
    | @float bits _ =>
        intro c member
        rcases List.mem_append.mp member with digit | ending
        · simp [isNumeral, (decimals_nat bits.toNat).2 c digit]
        · obtain rfl | rfl : c = '.' ∨ c = '0' := by simpa using ending
          · rfl
          · rfl
  injective := by
    have pointed (value : Int) (bits : BitVec 64)
        : value.repr.toList ≠ bits.toNat.repr.toList ++ ['.', '0'] := by
      intro same
      have point : '.' ∈ value.repr.toList := by simp [same]
      rcases (decimals_int value).2 '.' point with digit | dash
      · exact absurd digit (by decide)
      · exact absurd dash (by decide)
    intro left leftNumber right rightNumber same
    cases leftNumber with
    | int value =>
        cases rightNumber with
        | int other => rw [Int.repr_injective (String.toList_inj.mp same)]
        | float _ => exact absurd same (pointed value _)
    | float _ =>
        cases rightNumber with
        | int other => exact absurd same.symm (pointed other _)
        | float _ =>
            have digits := String.toList_inj.mp (List.append_cancel_right same)
            rw [BitVec.eq_of_toNat_eq (Nat.repr_injective digits)]

/-- A manifest whose input is at most `maximum`. -/
def bounded (maximum : Int) : Dict String Json :=
  ⟨[("name", .str "x"), ("input_schema", .obj [("minimum", .int 0), ("maximum", .int maximum)])],
    by simp⟩

/-- The same manifest with other orders of its names. -/
def reordered (maximum : Int) : Dict String Json :=
  ⟨[("input_schema", .obj [("maximum", .int maximum), ("minimum", .int 0)]), ("name", .str "x")],
    by simp⟩

theorem isDocument_bounded (maximum : Int) : (Json.ofDict (bounded maximum)).IsDocument := by
  have schema : (Json.obj [("minimum", .int 0), ("maximum", .int maximum)]).IsDocument :=
    .obj (by simp) (by simp [Json.IsDocument.number, Json.IsNumber.int])
  exact .obj (bounded maximum).nodup (by simp [bounded, schema, Json.IsDocument.str])

theorem isDocument_reordered (maximum : Int) : (Json.ofDict (reordered maximum)).IsDocument := by
  have schema : (Json.obj [("maximum", .int maximum), ("minimum", .int 0)]).IsDocument :=
    .obj (by simp) (by simp [Json.IsDocument.number, Json.IsNumber.int])
  exact .obj (reordered maximum).nodup (by simp [reordered, schema, Json.IsDocument.str])

/-- They are the same manifest exactly when they have the same bound. -/
theorem sameUpToOrder_reordered_iff {maximum other : Int}
    : (Json.ofDict (bounded maximum)).SameUpToOrder (Json.ofDict (reordered other))
      ↔ maximum = other := by
  constructor
  · intro same
    cases same with
    | obj _ each =>
        have schemas := each "input_schema" (.obj [("minimum", .int 0), ("maximum", .int maximum)])
          (.obj [("maximum", .int other), ("minimum", .int 0)]) (by simp [bounded])
          (by simp [reordered])
        cases schemas with
        | obj _ each =>
            cases each "maximum" (.int maximum) (.int other) (by simp) (by simp)
            rfl
  · intro same
    subst same
    have schema : (Json.obj [("minimum", .int 0), ("maximum", .int maximum)]).SameUpToOrder
        (.obj [("maximum", .int maximum), ("minimum", .int 0)]) :=
      .obj (by simp [or_comm]) (by grind [Json.SameUpToOrder.int])
    exact .obj (by simp [bounded, reordered, or_comm])
      (by grind [bounded, reordered, Json.SameUpToOrder.str])

/-- They have the same bytes exactly when they have the same bound. -/
theorem canonicalBytes_eq_iff_bounded
    : canonicalBytes decimals (bounded 9) = canonicalBytes decimals (reordered 9)
      ∧ canonicalBytes decimals (bounded 9) ≠ canonicalBytes decimals (reordered 10) := by
  have same (other : Int) :=
    (canonicalBytes_eq_iff decimals_distinct (isDocument_bounded 9)
      (isDocument_reordered other)).trans sameUpToOrder_reordered_iff
  exact ⟨(same 9).mpr rfl, fun alike => absurd ((same 10).mp alike) (by decide)⟩

end Signing

end AgentFeatures
