import Mathlib

/-! Python string primitives over code points. -/

namespace Library

/-- A Python string as its code points. -/
abbrev Text := List Char

namespace Text

/-- `str.isspace` for one character, the class that `\s` matches and `strip` removes. -/
def isSpace (c : Char) : Bool :=
  let n := c.toNat
  (0x9 ≤ n && n ≤ 0xd) || (0x1c ≤ n && n ≤ 0x20) || n == 0x85 || n == 0xa0
    || n == 0x1680 || (0x2000 ≤ n && n ≤ 0x200a) || n == 0x2028 || n == 0x2029
    || n == 0x202f || n == 0x205f || n == 0x3000

/-- The text does not go on with a character of the class. -/
def Stops (cls : Char → Bool) (text : Text) : Prop := ∀ c ∈ text.head?, cls c = false

theorem stops_nil (cls : Char → Bool) : Stops cls [] := by simp [Stops]

theorem stops_cons {cls : Char → Bool} {c : Char} (outside : cls c = false) (rest : Text)
    : Stops cls (c :: rest) := by
  simpa [Stops] using outside

/-- Characters outside the class may stand in front. -/
theorem Stops.append {cls : Char → Bool} {front rest : Text} (stops : Stops cls rest)
    (outside : ∀ c ∈ front, cls c = false)
    : Stops cls (front ++ rest) := by
  cases front with
  | nil => exact stops
  | cons c front => exact stops_cons (outside c List.mem_cons_self) _

theorem Stops.dropWhile_eq {cls : Char → Bool} {text : Text} (stops : Stops cls text)
    : text.dropWhile cls = text := by
  cases text with
  | nil => rfl
  | cons c rest => simp [stops c rfl]

/-- A run of the class is dropped up to where it stops. -/
theorem Stops.dropWhile_append {cls : Char → Bool} {used rest : Text} (stops : Stops cls rest)
    (all : ∀ c ∈ used, cls c)
    : (used ++ rest).dropWhile cls = rest := by
  rw [List.dropWhile_append_of_pos all, stops.dropWhile_eq]

/-- A run of the class is taken up to where it stops. -/
theorem Stops.takeWhile_append {cls : Char → Bool} {used rest : Text} (stops : Stops cls rest)
    (all : ∀ c ∈ used, cls c)
    : (used ++ rest).takeWhile cls = used := by
  have none : rest.takeWhile cls = [] := by
    cases rest with
    | nil => rfl
    | cons c rest => simp [stops c rfl]
  rw [List.takeWhile_append_of_pos all, none, List.append_nil]

def lstrip (text : Text) : Text := text.dropWhile isSpace

def rstrip (text : Text) : Text := text.rdropWhile isSpace

def strip (text : Text) : Text := rstrip (lstrip text)

/-- The characters at which `str.splitlines` ends a line. -/
def isLineBreak (c : Char) : Bool :=
  let n := c.toNat
  (0xa ≤ n && n ≤ 0xd) || (0x1c ≤ n && n ≤ 0x1e) || n == 0x85 || n == 0x2028 || n == 0x2029

/-- The lines of a text after the beginning of its first one. -/
def splitlinesFrom (line : Text) : Text → List Text
  | [] => if line.isEmpty then [] else [line]
  | '\r' :: '\n' :: rest => line :: splitlinesFrom [] rest
  | c :: rest =>
      if isLineBreak c then line :: splitlinesFrom [] rest else splitlinesFrom (line ++ [c]) rest

/-- `str.splitlines`: no empty line follows a final line break. -/
def splitlines (text : Text) : List Text := splitlinesFrom [] text

/-- Code points of the Unicode 14 decimal digits zero; nine more digits follow each. -/
def decimalZeros : List Nat :=
  [0x30, 0x660, 0x6f0, 0x7c0, 0x966, 0x9e6, 0xa66, 0xae6, 0xb66, 0xbe6, 0xc66, 0xce6, 0xd66,
   0xde6, 0xe50, 0xed0, 0xf20, 0x1040, 0x1090, 0x17e0, 0x1810, 0x1946, 0x19d0, 0x1a80,
   0x1a90, 0x1b50, 0x1bb0, 0x1c40, 0x1c50, 0xa620, 0xa8d0, 0xa900, 0xa9d0, 0xa9f0, 0xaa50,
   0xabf0, 0xff10, 0x104a0, 0x10d30, 0x11066, 0x110f0, 0x11136, 0x111d0, 0x112f0, 0x11450,
   0x114d0, 0x11650, 0x116c0, 0x11730, 0x118e0, 0x11950, 0x11c50, 0x11d50, 0x11da0, 0x16a60,
   0x16ac0, 0x16b50, 0x1d7ce, 0x1d7d8, 0x1d7e2, 0x1d7ec, 0x1d7f6, 0x1e140, 0x1e2f0, 0x1e950,
   0x1fbf0]

/-- Digits that are not decimal (superscripts, circled digits and the like). -/
def otherDigits : List (Nat × Nat) :=
  [(0xb2, 0xb3), (0xb9, 0xb9), (0x1369, 0x1371), (0x19da, 0x19da), (0x2070, 0x2070),
   (0x2074, 0x2079), (0x2080, 0x2089), (0x2460, 0x2468), (0x2474, 0x247c), (0x2488, 0x2490),
   (0x24ea, 0x24ea), (0x24f5, 0x24fd), (0x24ff, 0x24ff), (0x2776, 0x277e), (0x2780, 0x2788),
   (0x278a, 0x2792), (0x10a40, 0x10a43), (0x10e60, 0x10e68), (0x11052, 0x1105a),
   (0x1f100, 0x1f10a)]

/-- The value `int` gives a decimal digit. -/
def digitValue? (c : Char) : Option Nat :=
  (decimalZeros.find? fun start => start ≤ c.toNat && c.toNat < start + 10).map (c.toNat - ·)

/-- `str.isdigit` for one character: decimal digits and other digits alike. -/
def isDigitChar (c : Char) : Bool :=
  (digitValue? c).isSome
    || otherDigits.any fun range => range.1 ≤ c.toNat && c.toNat ≤ range.2

/-- `str.isdigit`. -/
def isdigit (text : Text) : Bool := !text.isEmpty && text.all isDigitChar

/-- CPython's default limit on the digits `int` converts. -/
def maxStrDigits : Nat := 4300

/-- `int(text)` on a text of digits; `none` is a `ValueError`. -/
def int? (text : Text) : Option Nat :=
  if maxStrDigits < text.length then none
  else text.foldlM (fun value c => (digitValue? c).map fun digit => value * 10 + digit) 0

/-- The code points of spaces. -/
def spacePoints : List Nat :=
  [0x9, 0xa, 0xb, 0xc, 0xd, 0x1c, 0x1d, 0x1e, 0x1f, 0x20, 0x85, 0xa0, 0x1680, 0x2000, 0x2001,
    0x2002, 0x2003, 0x2004, 0x2005, 0x2006, 0x2007, 0x2008, 0x2009, 0x200a, 0x2028, 0x2029,
    0x202f, 0x205f, 0x3000]

theorem toNat_mem_spacePoints {c : Char} (space : isSpace c = true) : c.toNat ∈ spacePoints := by
  simp only [isSpace, Bool.or_eq_true, Bool.and_eq_true, decide_eq_true_eq, beq_iff_eq] at space
  simp only [spacePoints, List.mem_cons, List.not_mem_nil, or_false]
  omega

/-- A space is no digit: the two character classes are disjoint. -/
theorem not_isDigitChar_of_isSpace {c : Char} (space : isSpace c = true)
    : isDigitChar c = false := by
  have disjoint : ∀ n ∈ spacePoints,
      (((decimalZeros.find? fun start => start ≤ n && n < start + 10).map (n - ·)).isSome
        || otherDigits.any fun range => range.1 ≤ n && n ≤ range.2) = false := by
    decide +kernel
  exact disjoint c.toNat (toNat_mem_spacePoints space)

/-- Stripping on the right keeps a leading character that is no space, by induction from
the right. -/
theorem rstrip_cons {c : Char} (visible : isSpace c = false) (text : Text)
    : rstrip (c :: text) = c :: rstrip text := by
  induction text using List.reverseRecOn with
  | nil => simp [rstrip, List.rdropWhile_singleton, visible]
  | append_singleton initial last ih =>
      rw [rstrip, ← List.cons_append, List.rdropWhile_concat, rstrip, List.rdropWhile_concat]
      split
      · exact ih
      · rfl

/-- Stripping on the left keeps a text that starts visibly. -/
theorem lstrip_cons {c : Char} (visible : isSpace c = false) (text : Text)
    : lstrip (c :: text) = c :: text := by
  simp [lstrip, visible]

/-- Text without white space has no space at its end. -/
theorem rstrip_eq {text : Text} (visible : ∀ c ∈ text, isSpace c = false) : rstrip text = text := by
  refine List.rdropWhile_eq_self_iff.mpr fun nonempty => ?_
  simp [visible _ (List.getLast_mem nonempty)]

/-- Text without white space is stripped already. -/
theorem strip_eq {text : Text} (visible : ∀ c ∈ text, isSpace c = false) : strip text = text := by
  have start : lstrip text = text := by
    cases text with
    | nil => rfl
    | cons c rest => exact lstrip_cons (visible c List.mem_cons_self) rest
  rw [strip, start, rstrip_eq visible]

/-- The end of a stripped text is stripped. -/
theorem rstrip_of_append {front rest : Text} (stripped : rstrip (front ++ rest) = front ++ rest)
    : rstrip rest = rest := by
  refine List.rdropWhile_eq_self_iff.mpr fun nonempty => ?_
  have last := List.rdropWhile_eq_self_iff.mp stripped (by simp [nonempty])
  rwa [List.getLast_append_of_ne_nil _ nonempty] at last

/-- A text that ends visibly is stripped on the right. -/
theorem rstrip_append {rest : Text} (nonempty : rest ≠ []) (stripped : rstrip rest = rest)
    (front : Text)
    : rstrip (front ++ rest) = front ++ rest := by
  refine List.rdropWhile_eq_self_iff.mpr fun _ => ?_
  rw [List.getLast_append_of_ne_nil _ nonempty]
  exact List.rdropWhile_eq_self_iff.mp stripped nonempty

theorem rstrip_strip (text : Text) : rstrip (strip text) = strip text :=
  List.rdropWhile_idempotent isSpace (lstrip text)

/-- A character that ends no line is added to the current one. -/
theorem splitlinesFrom_cons {c : Char} (unbroken : isLineBreak c = false) (line rest : Text)
    : splitlinesFrom line (c :: rest) = splitlinesFrom (line ++ [c]) rest := by
  have noReturn : c ≠ '\r' := by
    intro same
    subst same
    exact absurd unbroken (by decide)
  rw [splitlinesFrom]
  · simp [unbroken]
  · exact fun _ isReturn => absurd isReturn noReturn

/-- No line of a text has a line break in it, by induction on the text. -/
theorem isLineBreak_of_mem_splitlinesFrom {line text found : Text}
    (begun : ∀ c ∈ line, isLineBreak c = false) (member : found ∈ splitlinesFrom line text)
    : ∀ c ∈ found, isLineBreak c = false := by
  fun_induction splitlinesFrom line text with
  | case1 line empty => simp at member
  | case2 line nonempty =>
      simpa only [List.mem_singleton.mp member] using begun
  | case3 line rest ih =>
      rcases List.mem_cons.mp member with rfl | later
      · exact begun
      · exact ih (by simp) later
  | case4 line c rest _ ends ih =>
      rcases List.mem_cons.mp member with rfl | later
      · exact begun
      · exact ih (by simp) later
  | case5 line c rest _ goesOn ih =>
      refine ih ?_ member
      intro other inLine
      rcases List.mem_append.mp inLine with old | new
      · exact begun other old
      · simpa only [List.mem_singleton.mp new] using Bool.eq_false_iff.mpr goesOn

/-- A line goes on up to its line feed, by induction on its characters. -/
theorem splitlinesFrom_append {text : Text} (unbroken : ∀ c ∈ text, isLineBreak c = false)
    (line rest : Text)
    : splitlinesFrom line (text ++ '\n' :: rest) = (line ++ text) :: splitlinesFrom [] rest := by
  induction text generalizing line with
  | nil => simp [splitlinesFrom, isLineBreak]
  | cons c text ih =>
      obtain ⟨here, later⟩ := List.forall_mem_cons.mp unbroken
      rw [List.cons_append, splitlinesFrom_cons here, ih later]
      simp

/-- Lines that each end in a line feed are split into the same lines. Witness: induction on
the lines.
-/
theorem splitlines_flatMap {lines : List Text}
    (unbroken : ∀ line ∈ lines, ∀ c ∈ line, isLineBreak c = false)
    : splitlines (lines.flatMap (· ++ ['\n'])) = lines := by
  induction lines with
  | nil => rfl
  | cons line rest ih =>
      obtain ⟨here, later⟩ := List.forall_mem_cons.mp unbroken
      rw [List.flatMap_cons, List.append_assoc, List.singleton_append, splitlines,
        splitlinesFrom_append here, List.nil_append]
      exact congrArg _ (ih later)

/-- Two splits of one list, each around an element, are the same or one lies in a part of the
other.
-/
theorem append_cons_eq_append_cons_iff {α : Type} {a b a' b' : List α} {c d : α}
    : a ++ c :: b = a' ++ d :: b'
      ↔ (a = a' ∧ c = d ∧ b = b')
        ∨ (∃ y, a' = a ++ c :: y ∧ b = y ++ d :: b')
        ∨ ∃ y, a = a' ++ d :: y ∧ b' = y ++ c :: b := by
  rw [List.append_eq_append_iff]
  constructor
  · intro same
    rcases same with ⟨gap, rfl, tail⟩ | ⟨gap, rfl, tail⟩
    · cases gap with
      | nil => exact Or.inl ⟨by simp, List.cons.inj tail⟩
      | cons first gap =>
          obtain ⟨rfl, rfl⟩ := List.cons.inj tail
          exact Or.inr (Or.inl ⟨gap, rfl, rfl⟩)
    · cases gap with
      | nil =>
          obtain ⟨rfl, rfl⟩ := List.cons.inj tail
          exact Or.inl ⟨by simp, rfl, rfl⟩
      | cons first gap =>
          obtain ⟨rfl, rfl⟩ := List.cons.inj tail
          exact Or.inr (Or.inr ⟨gap, rfl, rfl⟩)
  · intro splits
    rcases splits with ⟨rfl, rfl, rfl⟩ | ⟨y, rfl, rfl⟩ | ⟨y, rfl, rfl⟩
    · exact Or.inl ⟨[], by simp, rfl⟩
    · exact Or.inl ⟨c :: y, rfl, rfl⟩
    · exact Or.inr ⟨d :: y, rfl, rfl⟩

/-- Two strings split around separators of one character are the same split, or one separator
stands in a part of the other split.
-/
theorem joined_eq_joined_iff {s t : String} {c d : Char} (one : s.toList = [c])
    (one' : t.toList = [d]) {a b a' b' : String}
    : a ++ s ++ b = a' ++ t ++ b'
      ↔ (a = a' ∧ s = t ∧ b = b')
        ∨ (∃ y, a' = a ++ s ++ y ∧ b = y ++ t ++ b')
        ∨ ∃ y, a = a' ++ t ++ y ∧ b' = y ++ s ++ b := by
  have texts (P : List Char → Prop) : (∃ y : String, P y.toList) ↔ ∃ y, P y :=
    ⟨fun found => found.elim fun y holds => ⟨y.toList, holds⟩,
      fun found => found.elim fun y holds => ⟨String.ofList y, by simpa using holds⟩⟩
  simp only [← String.toList_inj, String.toList_append, one, one', List.append_assoc,
    List.singleton_append, List.cons.injEq, and_true]
  rw [append_cons_eq_append_cons_iff,
    texts fun y => a'.toList = a.toList ++ c :: y ∧ b.toList = y ++ d :: b'.toList,
    texts fun y => a.toList = a'.toList ++ d :: y ∧ b'.toList = y ++ c :: b.toList]

end Text

end Library
