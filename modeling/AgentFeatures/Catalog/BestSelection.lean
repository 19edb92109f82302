import AgentFeatures.Catalog.Resolution

/-! When the baseline resolution picks the newest provider in the order the pins use. -/

namespace AgentFeatures

open Library

/-- No version text that the resolution reads raises. -/
def VersionsParse (features : List Feature) (capability : String)
    (version vendor : Option String)
    : Prop :=
  PinsParse features capability version vendor
  ∧ ∀ f ∈ features,
      Satisfies capability version vendor f
      → (semverKey f.manifest.version.toList).isSome

/-- `f` stands in the list at a place no satisfying feature sorts ahead of. -/
def SortsFirst (features : List Feature) (capability : String)
    (version vendor : Option String) (f : Feature)
    : Prop :=
  ∃ before after,
    features = before ++ f :: after
    ∧ Satisfies capability version vendor f
    ∧ Leads rankKey (before.filter fun g => Satisfies capability version vendor g) f
        (after.filter fun g => Satisfies capability version vendor g)

section Outcome

variable {features : List Feature} {capability : String} {version vendor : Option String}

/-- Ranking the satisfying features succeeds iff their versions parse. -/
theorem rank_satisfying_isSome_iff
    : (rankFeatures (features.filter fun f => Satisfies capability version vendor f)).isSome
      ↔ ∀ f ∈ features,
          Satisfies capability version vendor f
          → (semverKey f.manifest.version.toList).isSome := by
  simp [rankFeatures, sortedBy_isSome_iff, rankKey]

/-- A resolution that parses is the head of the ranked satisfying features. -/
theorem resolveFeature_of_parse (parse : VersionsParse features capability version vendor)
    : ∃ ranked,
        rankFeatures (features.filter fun f => Satisfies capability version vendor f)
          = some ranked
        ∧ resolveFeature features capability version vendor = some ranked.head? := by
  have selected := selectProviders_eq_some_iff.mpr ⟨parse.1, rfl⟩
  obtain ⟨ranked, known⟩ := Option.isSome_iff_exists.mp (rank_satisfying_isSome_iff.mpr parse.2)
  exact ⟨ranked, known, by simp [resolveFeature, selected, known]⟩

/-- Resolution returns exactly when no version text raises, by its two stages. -/
theorem resolveFeature_isSome_iff
    : (resolveFeature features capability version vendor).isSome
      ↔ VersionsParse features capability version vendor := by
  constructor
  · intro h
    obtain ⟨outcome, known⟩ := Option.isSome_iff_exists.mp h
    simp only [resolveFeature, Option.bind_eq_bind, Option.bind_eq_some_iff] at known
    obtain ⟨kept, selected, ranked, sorted, -⟩ := known
    obtain ⟨pins, rfl⟩ := selectProviders_eq_some_iff.mp selected
    exact ⟨pins, rank_satisfying_isSome_iff.mp (by rw [sorted]; rfl)⟩
  · intro parse
    obtain ⟨ranked, -, resolved⟩ := resolveFeature_of_parse parse
    rw [resolved]
    rfl

/-- Without an exception nothing is returned exactly when nothing satisfies the request. -/
theorem resolveFeature_eq_none_iff (parse : VersionsParse features capability version vendor)
    : resolveFeature features capability version vendor = some none
      ↔ ∀ f ∈ features, ¬ Satisfies capability version vendor f := by
  obtain ⟨ranked, known, resolved⟩ := resolveFeature_of_parse parse
  have size := (sortedBy_perm known).length_eq
  rw [resolved, Option.some.injEq, List.head?_eq_none_iff]
  constructor
  · rintro rfl f member satisfied
    have empty := List.eq_nil_of_length_eq_zero size.symm
    have kept : f ∈ features.filter fun f => Satisfies capability version vendor f := by
      simpa using ⟨member, satisfied⟩
    rw [empty] at kept
    cases kept
  · intro none
    have empty : (features.filter fun f => Satisfies capability version vendor f) = [] := by
      simpa using none
    rw [empty] at size
    exact List.eq_nil_of_length_eq_zero size

/-- The returned feature is the one that sorts first. Witness: the head of the stable sort
leads the filtered list, and only one place of a list leads it.
-/
theorem resolveFeature_eq_some_iff (parse : VersionsParse features capability version vendor)
    {f : Feature}
    : resolveFeature features capability version vendor = some (some f)
      ↔ SortsFirst features capability version vendor f := by
  obtain ⟨ranked, known, resolved⟩ := resolveFeature_of_parse parse
  rw [resolved, Option.some.injEq]
  constructor
  · intro head
    obtain ⟨tail, rfl⟩ := List.head?_eq_some_iff.mp head
    obtain ⟨before, after, split, leads⟩ := sortedBy_head known
    obtain ⟨left, right, rfl, rfl, right'⟩ := List.filter_eq_append_iff.mp split
    obtain ⟨skipped, rest, rfl, dropped, satisfied, rfl⟩ := List.filter_eq_cons_iff.mp right'
    refine ⟨left ++ skipped, rest, by simp, by simpa using satisfied, ?_⟩
    have none : (skipped.filter fun f => Satisfies capability version vendor f) = [] := by
      simpa using dropped
    rw [List.filter_append, none, List.append_nil]
    exact leads
  · intro split
    rcases split with ⟨before, after, rfl, satisfied, leads⟩
    rw [List.filter_append, List.filter_cons_of_pos (by simpa using satisfied)] at known
    obtain ⟨others, heads⟩ := sortedBy_of_leads leads
    rw [rankFeatures, heads] at known
    cases known
    rfl

end Outcome

/-- `g` has a better tier than `f`, or the same tier and a newer version in the pin order. -/
def Better (g f : Feature) : Prop :=
  trustRank g.manifest.trust < trustRank f.manifest.trust
  ∨ g.manifest.trust = f.manifest.trust
    ∧ matchVersion g.manifest.version.toList ('>' :: f.manifest.version.toList) = some true

/-- The law of a resolution: it returns nothing iff nothing satisfies the request, and
otherwise a satisfying feature that no other satisfying feature is better than.
-/
def PicksBest (features : List Feature) (capability : String)
    (version vendor : Option String)
    : Option (Option Feature) → Prop
  | none => False
  | some none => ∀ f ∈ features, ¬ Satisfies capability version vendor f
  | some (some f) =>
      f ∈ features
      ∧ Satisfies capability version vendor f
      ∧ ∀ g ∈ features, g ≠ f → Satisfies capability version vendor g → ¬ Better g f

/-- `f` may hide the newer `g` of its tier: `f` has fewer than three version parts and `g`
continues them, or the text of `f`'s version starts with `=`.
-/
def Hides (f g : Feature) : Prop :=
  g.manifest.trust = f.manifest.trust
  ∧ matchVersion g.manifest.version.toList ('>' :: f.manifest.version.toList) = some true
  ∧ (f.manifest.version.toList.head? = some '='
    ∨ ∃ short long,
        semverKey f.manifest.version.toList = some short
        ∧ semverKey g.manifest.version.toList = some long
        ∧ short <+: long
        ∧ short.length < 3)

/-- No satisfying feature that hides a newer one sorts first: another one always sorts
strictly ahead of it, or equal and earlier in the list.
-/
def HidersOutranked (features : List Feature) (capability : String)
    (version vendor : Option String)
    : Prop :=
  ∀ before f after,
    features = before ++ f :: after
    → Satisfies capability version vendor f
    → (∃ g ∈ features, g ≠ f ∧ Satisfies capability version vendor g ∧ Hides f g)
    → ∃ h k bound,
        Satisfies capability version vendor h
        ∧ rankKey h = some k
        ∧ rankKey f = some bound
        ∧ (h ∈ before ∧ k ≤ bound ∨ h ∈ after ∧ k < bound)

/-- A feature that is newer although it does not sort ahead is hidden. Witness: the raw
tuples and the padded triples order alike up to the length of the shorter one.
-/
theorem hides_of_not_ahead {f g : Feature} {bound k : RankKey}
    (known : rankKey f = some bound) (other : rankKey g = some k) (order : bound ≤ k)
    (tier : g.manifest.trust = f.manifest.trust)
    (newer
      : matchVersion g.manifest.version.toList ('>' :: f.manifest.version.toList)
        = some true)
    : Hides f g := by
  refine ⟨tier, newer, ?_⟩
  by_cases equals : f.manifest.version.toList.head? = some '='
  · exact Or.inl equals
  · refine Or.inr ?_
    obtain ⟨short, shortKey, rfl⟩ := Option.map_eq_some_iff.mp known
    obtain ⟨long, longKey, rfl⟩ := Option.map_eq_some_iff.mp other
    refine ⟨short, long, shortKey, longKey, ?_⟩
    rw [matchVersion_gt equals, triple, longKey, Option.map_some, Option.bind_some,
      Option.map_eq_some_iff] at newer
    obtain ⟨base, stripped, above⟩ := newer
    obtain ⟨cut, cutKey, rfl⟩ := Option.map_eq_some_iff.mp stripped
    have above : padded 3 cut < padded 3 long := by simpa using above
    have versions : negated short ≤ negated long := by
      rw [Prod.Lex.toLex_le_toLex, Prod.Lex.toLex_le_toLex] at order
      rcases order with smaller | ⟨-, less | ⟨same, -⟩⟩
      · exact absurd (tier ▸ smaller) (lt_irrefl _)
      · exact le_of_lt less
      · exact le_of_eq same
    exact prefix_of_shadowed versions (lt_of_le_of_lt (padded_rstrip shortKey cutKey) above)

section Picks

variable {features before after : List Feature} {capability : String}
  {version vendor : Option String} {f g : Feature}

/-- `h` sorts ahead of `f`, or equal and in the part of the list before it. -/
def Outranks (before after : List Feature) (capability : String)
    (version vendor : Option String) (f h : Feature)
    : Prop :=
  ∃ k bound,
    Satisfies capability version vendor h
    ∧ rankKey h = some k
    ∧ rankKey f = some bound
    ∧ (h ∈ before ∧ k ≤ bound ∨ h ∈ after ∧ k < bound)

/-- A satisfying feature that nothing outranks sorts first. -/
theorem sortsFirst_of_not_outranked
    (parse : VersionsParse (before ++ f :: after) capability version vendor)
    (satisfied : Satisfies capability version vendor f)
    (alone : ∀ h, ¬ Outranks before after capability version vendor f h)
    : SortsFirst (before ++ f :: after) capability version vendor f := by
  have parses {h : Feature} (member : h ∈ before ++ f :: after)
      (satisfied : Satisfies capability version vendor h)
      : ∃ k, rankKey h = some k := by
    obtain ⟨key, known⟩ := Option.isSome_iff_exists.mp (parse.2 h member satisfied)
    exact ⟨_, by rw [rankKey, known]; rfl⟩
  obtain ⟨bound, known⟩ := parses (by simp) satisfied
  refine ⟨before, after, rfl, satisfied, bound, known, ?_, ?_⟩
  · intro h kept
    obtain ⟨early, satisfied⟩ : h ∈ before ∧ Satisfies capability version vendor h := by
      simpa using kept
    obtain ⟨k, key⟩ := parses (by simp [early]) satisfied
    exact ⟨k, key, lt_of_not_ge fun small =>
      alone h ⟨k, bound, satisfied, key, known, Or.inl ⟨early, small⟩⟩⟩
  · intro h kept
    obtain ⟨late, satisfied⟩ : h ∈ after ∧ Satisfies capability version vendor h := by
      simpa using kept
    obtain ⟨k, key⟩ := parses (by simp [late]) satisfied
    exact ⟨k, key, le_of_not_gt fun small =>
      alone h ⟨k, bound, satisfied, key, known, Or.inr ⟨late, small⟩⟩⟩

/-- Nothing outranks the feature that leads the satisfying ones. -/
theorem not_outranks_of_leads
    (leads
      : Leads rankKey (before.filter fun g => Satisfies capability version vendor g) f
        (after.filter fun g => Satisfies capability version vendor g))
    (h : Feature)
    : ¬ Outranks before after capability version vendor f h := by
  intro outranks
  obtain ⟨bound, known, strict, weak⟩ := leads
  obtain ⟨k, bound', satisfied, key, known', place⟩ := outranks
  cases known.symm.trans known'
  rcases place with ⟨early, small⟩ | ⟨late, small⟩
  · obtain ⟨k', key', above⟩ := strict h (by simpa using ⟨early, satisfied⟩)
    cases key.symm.trans key'
    exact absurd small (not_le_of_gt above)
  · obtain ⟨k', key', above⟩ := weak h (by simpa using ⟨late, satisfied⟩)
    cases key.symm.trans key'
    exact absurd small (not_lt_of_ge above)

/-- A feature better than the one that leads the satisfying ones is hidden by it. -/
theorem hides_of_leads
    (leads
      : Leads rankKey (before.filter fun g => Satisfies capability version vendor g) f
        (after.filter fun g => Satisfies capability version vendor g))
    (member : g ∈ before ++ f :: after) (differs : g ≠ f)
    (satisfied : Satisfies capability version vendor g) (better : Better g f)
    : Hides f g := by
  obtain ⟨bound, known, strict, weak⟩ := leads
  have notAhead : ∃ k, rankKey g = some k ∧ bound ≤ k := by
    rcases List.mem_append.mp member with early | late
    · obtain ⟨k, key, above⟩ := strict g (by simpa using ⟨early, satisfied⟩)
      exact ⟨k, key, le_of_lt above⟩
    · rcases List.mem_cons.mp late with same | late
      · exact absurd same differs
      · exact weak g (by simpa using ⟨late, satisfied⟩)
  obtain ⟨k, key, order⟩ := notAhead
  rcases better with tier | ⟨tier, newer⟩
  · obtain ⟨short, -, rfl⟩ := Option.map_eq_some_iff.mp known
    obtain ⟨long, -, rfl⟩ := Option.map_eq_some_iff.mp key
    rw [Prod.Lex.toLex_le_toLex] at order
    rcases order with smaller | ⟨same, -⟩
    · exact absurd smaller (lt_asymm tier)
    · exact absurd same (ne_of_gt tier)
  · exact hides_of_not_ahead known key order tier newer

end Picks

/-- Resolution picks the best provider exactly when the version texts it reads parse and no
provider that hides a newer one sorts first. Witness: the returned feature is the first
in sort order, and a better feature that does not sort ahead of it is hidden by it.
-/
theorem resolveFeature_picksBest_iff (features : List Feature) (capability : String)
    (version vendor : Option String)
    : PicksBest features capability version vendor
          (resolveFeature features capability version vendor)
      ↔ VersionsParse features capability version vendor
        ∧ HidersOutranked features capability version vendor := by
  constructor
  · intro best
    have parse : VersionsParse features capability version vendor := by
      rw [← resolveFeature_isSome_iff]
      cases resolved : resolveFeature features capability version vendor with
      | none => exact absurd best (by simp [resolved, PicksBest])
      | some outcome => rfl
    refine ⟨parse, ?_⟩
    rintro before f after rfl satisfied ⟨g, member, differs, other, tier, newer, -⟩
    by_contra alone
    have first := sortsFirst_of_not_outranked parse satisfied fun h outranks => alone ⟨h, outranks⟩
    rw [(resolveFeature_eq_some_iff parse).mpr first] at best
    exact best.2.2 g member differs other (Or.inr ⟨tier, newer⟩)
  · intro both
    rcases both with ⟨parse, outranked⟩
    obtain ⟨outcome, resolved⟩ :=
      Option.isSome_iff_exists.mp (resolveFeature_isSome_iff.mpr parse)
    rw [resolved]
    cases outcome with
    | none => exact (resolveFeature_eq_none_iff parse).mp resolved
    | some f =>
        obtain ⟨before, after, rfl, satisfied, leads⟩ :=
          (resolveFeature_eq_some_iff parse).mp resolved
        refine ⟨by simp, satisfied, ?_⟩
        intro g member differs other better
        have hidden := hides_of_leads leads member differs other better
        obtain ⟨h, outranks⟩ :=
          outranked before f after rfl satisfied ⟨g, member, differs, other, hidden⟩
        exact not_outranks_of_leads leads h outranks

/-- A provider of capability `x` by vendor `v` at the given version. -/
def providerAt (version : String) : Feature where
  manifest :=
    { name := "x-" ++ version, version, vendor := "v", capability := "x",
      defaultCapability := by simp }

/-- Version `1.2` is returned although `1.2.3` is newer: as a raw tuple it sorts first. -/
theorem resolveFeature_prefers_short_version
    : ¬ PicksBest [providerAt "1.2", providerAt "1.2.3"] "x" none none
        (resolveFeature [providerAt "1.2", providerAt "1.2.3"] "x" none none) := by
  have picked : resolveFeature [providerAt "1.2", providerAt "1.2.3"] "x" none none
      = some (some (providerAt "1.2")) := rfl
  rw [picked]
  intro picksBest
  rcases picksBest with ⟨-, -, best⟩
  refine best (providerAt "1.2.3") (by simp) ?_ ⟨⟨rfl, by simp [given]⟩, by simp [given]⟩
    (Or.inr ⟨rfl, by decide⟩)
  intro same
  have versions : "1.2.3" = "1.2" := congrArg (fun f => f.manifest.version) same
  exact absurd versions (by decide)

end AgentFeatures
