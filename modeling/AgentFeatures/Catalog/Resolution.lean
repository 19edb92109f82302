import AgentFeatures.Catalog.Version
import AgentFeatures.Library.Selection
import AgentFeatures.Models

/-! Baseline ranking and resolution of the best provider of a capability. -/

namespace AgentFeatures

open Library

/-- Best-first ordering of trust tiers. -/
def trustRank : TrustTier → Nat
  | .official => 0
  | .verified => 1
  | .community => 2

/-- Tier, negated version tuple, vendor: compared as a Python tuple. -/
abbrev RankKey := Nat ×ₗ List Int ×ₗ String

/-- The baseline sort key; `none` when the version text raises. -/
def rankKey (feature : Feature) : Option RankKey :=
  (semverKey feature.manifest.version.toList).map fun key =>
    toLex (trustRank feature.manifest.trust, toLex (negated key, feature.manifest.vendor))

/-- Orders providers best-first: trust tier, then newest version, then vendor. -/
def rankFeatures (features : List Feature) : Option (List Feature) := sortedBy rankKey features

/-- The features providing `capability` under the vendor and version pins, in list order. -/
def selectProviders (features : List Feature) (capability : String)
    (vendor version : Option String)
    : Option (List Feature) :=
  let out := features.filter fun f => f.manifest.capability = capability
  let out :=
    match given vendor with
    | some vendor => out.filter fun f => f.manifest.vendor = vendor
    | none => out
  match given version with
  | some version => filterBy (fun f => matchVersion f.manifest.version.toList version.toList) out
  | none => some out

/-- Picks the best feature for a capability; the outer `none` is a raised `ValueError`. -/
def resolveFeature (features : List Feature) (capability : String)
    (version vendor : Option String)
    : Option (Option Feature) := do
  let candidates ← selectProviders features capability vendor version
  let ranked ← rankFeatures candidates
  return ranked.head?

/-- The capability and vendor tests a provider passes before its version is looked at. -/
def Offers (capability : String) (vendor : Option String) (feature : Feature) : Prop :=
  feature.manifest.capability = capability
  ∧ ∀ pin ∈ given vendor, feature.manifest.vendor = pin

instance (capability : String) (vendor : Option String)
    : DecidablePred (Offers capability vendor) :=
  fun _ => inferInstanceAs (Decidable (_ ∧ ∀ pin ∈ given vendor, _ = pin))

/-- The feature has the capability and satisfies both pins. -/
def Satisfies (capability : String) (version vendor : Option String) (feature : Feature)
    : Prop :=
  Offers capability vendor feature
  ∧ ∀ pin ∈ given version,
      matchVersion feature.manifest.version.toList pin.toList = some true

instance (capability : String) (version vendor : Option String)
    : DecidablePred (Satisfies capability version vendor) :=
  fun feature => inferInstanceAs (Decidable (Offers capability vendor feature
    ∧ ∀ pin ∈ given version,
        matchVersion feature.manifest.version.toList pin.toList = some true))

/-- No test on the version of an offering feature raises. -/
def PinsParse (features : List Feature) (capability : String)
    (version vendor : Option String)
    : Prop :=
  ∀ f ∈ features,
    Offers capability vendor f
    → ∀ pin ∈ given version, (matchVersion f.manifest.version.toList pin.toList).isSome

/-- Selection raises iff some version test does, and otherwise keeps the satisfying
features in order.
-/
theorem selectProviders_eq_some_iff {features kept : List Feature} {capability : String}
    {version vendor : Option String}
    : selectProviders features capability vendor version = some kept
      ↔ PinsParse features capability version vendor
        ∧ (features.filter fun f => Satisfies capability version vendor f) = kept := by
  have offered : (match given vendor with
      | some vendor =>
          (features.filter fun f => f.manifest.capability = capability).filter
            fun f => f.manifest.vendor = vendor
      | none => features.filter fun f => f.manifest.capability = capability)
      = features.filter fun f => Offers capability vendor f := by
    cases pin : given vendor with
    | none => exact List.filter_congr fun f _ => by simp [Offers, pin]
    | some pin' =>
        simp only [List.filter_filter]
        exact List.filter_congr fun f _ => by simp [Offers, pin, Bool.and_comm]
  have satisfying : (features.filter fun f => Satisfies capability version vendor f)
      = match given version with
        | some version =>
            (features.filter fun f => Offers capability vendor f).filter
              fun f => matchVersion f.manifest.version.toList version.toList = some true
        | none => features.filter fun f => Offers capability vendor f := by
    cases pin : given version with
    | none => exact List.filter_congr fun f _ => by simp [Satisfies, pin]
    | some pin' =>
        simp only [List.filter_filter]
        exact List.filter_congr fun f _ => by simp [Satisfies, pin, Bool.and_comm]
  rw [satisfying]
  simp only [selectProviders, offered, PinsParse]
  cases given version with
  | none => simp
  | some pin => simp [filterBy_eq_some_iff]

end AgentFeatures
