import AgentFeatures.Catalog.BestSelection

/-! Which version texts `int` accepts behind the guard of `isdigit`. -/

namespace AgentFeatures

open Library
open Library.Text

/-- `int` converts a row of digits: all of them are decimal, and not more than the limit. -/
def Converts (part : Text) : Prop :=
  (∀ c ∈ part, (digitValue? c).isSome) ∧ part.length ≤ maxStrDigits

/-- The dotted parts of a version in front of its first `-`. -/
def dottedParts (version : Text) : List Text := (version.takeWhile (· != '-')).splitOn '.'

/-- Every dotted part that is a row of digits is one that `int` converts. -/
def DigitsConvert (version : Text) : Prop :=
  ∀ part ∈ dottedParts version, isdigit part → Converts part

/-- The text whose triple a stripped spec compares versions with. -/
def baseText (spec : Text) : Text :=
  if spec.head? = some '^' then spec.tail
  else if spec.head? = some '~' then spec.tail
  else
    match Comparator.all.find? fun op => op.text.isPrefixOf spec with
    | some op => spec.drop op.text.length
    | none => spec

/-- What a match parses converts: nothing for a spec that any version satisfies, and else the
version and the base of the spec.
-/
def MatchConverts (version spec : Text) : Prop :=
  strip spec ∈ anyVersion ∨ DigitsConvert version ∧ DigitsConvert (baseText (strip spec))

/-- What a resolution parses converts: the version of each feature that offers the capability,
and the version pin.
-/
def ResolutionConverts (features : List Feature) (capability : String)
    (version vendor : Option String)
    : Prop :=
  ∀ f ∈ features,
    Offers capability vendor f
    → DigitsConvert f.manifest.version.toList
      ∧ ∀ pin ∈ given version, MatchConverts f.manifest.version.toList pin.toList

/-- `int` accepts exactly short rows of decimal digits. Witness: induction on the digits. -/
theorem int?_isSome_iff {text : Text} : (int? text).isSome ↔ Converts text := by
  have digits (start : Nat)
      : (text.foldlM (fun value c => (digitValue? c).map fun digit => value * 10 + digit)
          start).isSome
        ↔ ∀ c ∈ text, (digitValue? c).isSome := by
    induction text generalizing start with
    | nil => simp
    | cons c rest ih =>
        rw [List.foldlM_cons, List.forall_mem_cons]
        cases digitValue? c with
        | none => simp
        | some digit => simpa using ih (start * 10 + digit)
  rw [int?, Converts]
  split
  · next long => simp [not_le_of_gt long]
  · next short => simp [digits, not_lt.mp short]

/-- A part is read unless it is a row of digits that `int` rejects. -/
theorem versionPart_isSome_iff {part : Text}
    : (versionPart part).isSome ↔ isdigit part → Converts part := by
  rw [versionPart]
  split
  · next digits => simp [digits, int?_isSome_iff]
  · next other => simp [other]

/-- A version text is parsed exactly when its rows of digits convert. -/
theorem semverKey_isSome_iff {version : Text}
    : (semverKey version).isSome ↔ DigitsConvert version := by
  simp only [semverKey, mapM_isSome_iff, versionPart_isSome_iff, DigitsConvert, dottedParts]

theorem triple_isSome_iff {version : Text}
    : (triple version).isSome ↔ DigitsConvert version := by
  rw [triple, Option.isSome_map, semverKey_isSome_iff]

/-- A triple has three parts, so that its places 0, 1 and 2 are there. -/
theorem length_triple {version : Text} {key : List Nat} (known : triple version = some key)
    : key.length = 3 := by
  obtain ⟨parts, -, rfl⟩ := Option.map_eq_some_iff.mp known
  simp [padded]

/-- A range is decided exactly when its base is parsed. -/
theorem matchRange_isSome_iff {v : List Nat} {spec : Text}
    : (matchRange v spec).isSome ↔ DigitsConvert (baseText spec) := by
  rw [matchRange, baseText]
  split
  · rw [Option.isSome_map, triple_isSome_iff]
  · split
    · rw [Option.isSome_map, triple_isSome_iff]
    · cases Comparator.all.find? fun op => op.text.isPrefixOf spec with
      | some op => simp only [Option.isSome_map, triple_isSome_iff]
      | none => simp only [Option.isSome_map, triple_isSome_iff]

/-- A match returns exactly when what it parses converts. -/
theorem matchVersion_isSome_iff {version spec : Text}
    : (matchVersion version spec).isSome ↔ MatchConverts version spec := by
  rw [MatchConverts, ← @triple_isSome_iff version]
  simp only [matchVersion]
  split
  · next any => simp [any]
  · next bounded =>
      simp only [bounded, false_or]
      cases triple version with
      | none => simp
      | some v => simp [matchRange_isSome_iff]

/-- The baseline key of a feature is there exactly when its version converts. -/
theorem rankKey_isSome_iff {feature : Feature}
    : (rankKey feature).isSome ↔ DigitsConvert feature.manifest.version.toList := by
  rw [rankKey, Option.isSome_map, semverKey_isSome_iff]

/-- Ranking returns exactly when every version converts. -/
theorem rankFeatures_isSome_iff {features : List Feature}
    : (rankFeatures features).isSome
      ↔ ∀ f ∈ features, DigitsConvert f.manifest.version.toList := by
  simp only [rankFeatures, sortedBy_isSome_iff, rankKey_isSome_iff]

/-- A resolution returns exactly when what it parses converts. Witness: a feature that a pin
keeps either passed a spec that accepts any version, or its version was parsed there already.
-/
theorem resolutionConverts_iff {features : List Feature} {capability : String}
    {version vendor : Option String}
    : (resolveFeature features capability version vendor).isSome
      ↔ ResolutionConverts features capability version vendor := by
  rw [resolveFeature_isSome_iff]
  simp only [VersionsParse, PinsParse, semverKey_isSome_iff, matchVersion_isSome_iff]
  constructor
  · intro parse f member offers
    have pins := parse.1 f member offers
    refine ⟨?_, pins⟩
    by_cases bounded : ∃ pin ∈ given version, strip pin.toList ∉ anyVersion
    · obtain ⟨pin, isPin, notAny⟩ := bounded
      exact ((pins pin isPin).resolve_left notAny).1
    · refine parse.2 f member ⟨offers, fun pin isPin => ?_⟩
      have any : strip pin.toList ∈ anyVersion := by
        by_contra notAny
        exact bounded ⟨pin, isPin, notAny⟩
      exact if_pos any
  · intro converts
    exact ⟨fun f member offers => (converts f member offers).2,
      fun f member satisfied => (converts f member satisfied.1).1⟩

/-- `int` accepts what `isdigit` lets through, matching, ranking and resolving return, exactly
when the rows of digits that are parsed convert; no place of a triple or of a spec is ever missing.
-/
theorem versionTexts_convert_iff (text spec : Text) (features : List Feature)
    (capability : String) (version vendor : Option String)
    : ((∀ part ∈ dottedParts text, isdigit part → (int? part).isSome) ↔ DigitsConvert text)
      ∧ ((matchVersion text spec).isSome ↔ MatchConverts text spec)
      ∧ ((rankFeatures features).isSome
          ↔ ∀ f ∈ features, DigitsConvert f.manifest.version.toList)
      ∧ ((resolveFeature features capability version vendor).isSome
          ↔ ResolutionConverts features capability version vendor)
      ∧ (∀ key, triple text = some key → key.length = 3)
      ∧ (strip spec ∉ anyVersion → strip spec ≠ []) := by
  refine ⟨?_, matchVersion_isSome_iff, rankFeatures_isSome_iff, resolutionConverts_iff,
    fun _ => length_triple, ?_⟩
  · simp only [int?_isSome_iff, DigitsConvert]
  · intro bounded empty
    exact bounded (empty ▸ List.mem_cons_self)

/-- The superscript two is a digit that `int` rejects: its guard lets it through, and matching,
ranking and resolving raise.
-/
theorem superscript_raises
    : ¬ (∀ part : Text, isdigit part → (int? part).isSome)
      ∧ ¬ (∀ version spec, (matchVersion version spec).isSome)
      ∧ ¬ (∀ features, (rankFeatures features).isSome)
      ∧ ¬ ∀ features capability version vendor,
            (resolveFeature features capability version vendor).isSome := by
  refine ⟨?_, ?_, ?_, ?_⟩
  · intro all
    exact absurd (all ['²'] (by decide)) (by decide)
  · intro all
    exact absurd (all ['²'] ['1']) (by decide)
  · intro all
    exact absurd (all [providerAt "²"]) (by decide)
  · intro all
    exact absurd (all [providerAt "²"] "x" none none) (by decide)

end AgentFeatures
