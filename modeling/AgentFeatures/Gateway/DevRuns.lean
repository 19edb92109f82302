import AgentFeatures.Gateway.DevGateway

/-! What the built-in composite of the dev gateway returns, in any interleaving of requests. -/

namespace AgentFeatures

open Library
open Gateway (VersionsConvert)

namespace Samples

/-- The two greetings for a name. -/
def greetings (name : String) : List String :=
  ["Hello, " ++ name ++ ". — Acme", "hey " ++ name ++ "!! ~globex"]

/-- The statistics of a text as the output of its feature. -/
def statistics (text : String) : Dict String Json :=
  Dict.ofList
    [("characters", .int text.length), ("words", .int (words text.toList).length),
      ("sentences", .int (sentences text.toList).length)]

/-- The result of the composite for a greeting. -/
def reportOn (greeting : String) : CompositeResult where
  composite := "greet-report"
  output :=
    Dict.ofList
      [("greeting", .str greeting), ("characters", .int greeting.length),
        ("words", .int (words greeting.toList).length)]
  trace :=
    [⟨"greeting", "greet", Dict.ofList [("greeting", .str greeting)]⟩,
      ⟨"stats", "text_stats", statistics greeting⟩]

/-- A request with a name is answered by the report on one of its greetings; one without a name
is rejected.
-/
def Reported (input : Dict String Json) (outcome : Except Fault Response) : Prop :=
  match input.get? "name" with
  | some (.str name) => ∃ greeting ∈ greetings name, outcome = .ok (.composed (reportOn greeting))
  | _ => ∃ errors, errors ≠ [] ∧ outcome = .error (.http 422 (.errors errors))

/-- The local invoker answers, and no other composite takes the name of the built-in one. -/
def serving (python : Python) : Contract AppState Write ChatEvent Dispatch Reply where
  reads state := state.composites.get? "greet-report" = some greetReport
  replies := LocalInvoker.Answers (handlers python)
  writes change := ∀ composite ∈ change.published?, composite.name ≠ "greet-report"
  emits _ := True
  calls _ := True

section Providers

variable {python : Python}

/-- A feature of the dev catalog comes with its registered handler. -/
theorem handler_of_mem {feature : Feature} (listed : feature ∈ (catalog python).list)
    : ∃ handler,
        (feature.manifest, handler) ∈ features python
        ∧ (handlers python).get? feature.manifest.name = some handler := by
  have published : feature.manifest ∈ manifests python := by
    rw [← InMemoryCatalog.manifests_published nodup_names]
    exact List.mem_map_of_mem ((catalog python).mem_list_iff.mp listed)
  obtain ⟨⟨manifest, handler⟩, registered, same⟩ := List.mem_map.mp published
  cases same
  refine ⟨handler, registered, Dict.get?_eq_some_iff.mpr ?_⟩
  have distinct :
      (((features python).map fun entry => (entry.1.name, entry.2)).map Prod.fst).Nodup :=
    @nodup_names python
  rw [handlers, Dict.entries_ofList distinct]
  exact List.mem_map_of_mem (f := fun entry => (entry.1.name, entry.2)) registered

/-- Every sample is listed. -/
theorem exists_listed {manifest : Manifest} (registered : manifest ∈ manifests python)
    : ∃ feature ∈ (catalog python).list, feature.manifest = manifest := by
  rw [← InMemoryCatalog.manifests_published nodup_names] at registered
  obtain ⟨feature, published, same⟩ := List.mem_map.mp registered
  exact ⟨feature, (catalog python).mem_list_iff.mpr published, same⟩

/-- The versions of the samples convert. -/
theorem versions_convert (validator : Validator) (runtime : Runtime) (ranking : Option String)
    : (gateway python validator runtime ranking).VersionsConvert := by
  intro feature listed
  obtain ⟨handler, registered, -⟩ := handler_of_mem listed
  have versions : ∀ version ∈ ["1.0.0", "1.2.0"], (semverKey version.toList).isSome := by decide
  refine semverKey_isSome_iff.mp (versions _ ?_)
  simp only [features, List.mem_cons, List.not_mem_nil, or_false, Prod.mk.injEq] at registered
  rcases registered with ⟨same, -⟩ | ⟨same, -⟩ | ⟨same, -⟩ | ⟨same, -⟩ | ⟨same, -⟩ <;>
    simp [same, calculatorManifest, textStatsManifest, clockManifest, greetAcmeManifest,
      greetGlobexManifest]

end Providers

section Steps

variable {python : Python} {validator : Validator} {runtime : Runtime} {ranking : Option String}
  {capability : String}

/-- The handlers' ranking finds a provider of every capability that a sample has. -/
theorem rankProviders_serves {manifest : Manifest} (registered : manifest ∈ manifests python)
    (offered : manifest.capability = capability)
    : ((gateway python validator runtime ranking).rankProviders capability none none).Keeps
        (serving python) fun outcome =>
          ∃ feature others,
            outcome = .ok (feature :: others)
            ∧ feature ∈ (catalog python).list
            ∧ feature.manifest.capability = capability := by
  let provides (f : Feature) : Bool := decide (f.manifest.capability = capability)
  have noPin : PinConverts none := fun _ absent => nomatch absent
  have selected : (gateway python validator runtime ranking).providers capability none none
      = some ((catalog python).list.filter provides) := rfl
  rw [Gateway.rankProviders, selected]
  intro state _
  have present := Gateway.ranking_isSome
    (Gateway.createApp_byScore (catalog python) validator runtime ranking)
    (versions_convert validator runtime ranking) noPin capability none state.store
  obtain ⟨ranked, known⟩ := Option.isSome_iff_exists.mp present
  rw [Gateway.ranking] at known
  change (gateway python validator runtime ranking).policy.rank
    ((catalog python).list.filter provides) state.store = some ranked at known
  have order := RankingPolicy.rank_perm _ _ _ _ known
  obtain ⟨provider, listed, same⟩ := exists_listed registered
  have chosen : provider ∈ ranked :=
    order.mem_iff.mpr (List.mem_filter.mpr ⟨listed, by simp [provides, same, offered]⟩)
  simp only [known]
  cases ranked with
  | nil => cases chosen
  | cons feature others =>
      have kept := List.mem_filter.mp (order.mem_iff.mp List.mem_cons_self)
      exact ⟨feature, others, rfl, kept.1, of_decide_eq_true kept.2⟩

/-- What makes every provider of a capability return a good output for an input. -/
structure Served (python : Python) (validator : Validator) (capability : String)
    (input : Dict String Json) (Good : Dict String Json → Prop)
    : Prop where
  provided : ∃ manifest ∈ manifests python, manifest.capability = capability
  returns
    : ∀ manifest handler,
        (manifest, handler) ∈ features python
        → manifest.capability = capability
        → collectErrors validator (.ofDict input) manifest.inputSchema = []
          ∧ ∃ values output,
              handler input = .ok values
              ∧ LocalInvoker.jsonOutput? values = some output
              ∧ Good output

/-- A step of such a capability completes with a good output. -/
theorem runCapability_serves {input : Dict String Json} {Good : Dict String Json → Prop}
    (served : Served python validator capability input Good)
    : ((gateway python validator runtime ranking).runCapability capability input none none).Keeps
        (serving python) fun outcome =>
          ∃ output, Good output ∧ outcome = .ok (some output, none) := by
  obtain ⟨manifest, registered, offered⟩ := served.provided
  refine (rankProviders_serves registered offered).bind ?_ ?_
  · rintro ranked ⟨feature, others, first, listed, offers⟩
    cases first
    obtain ⟨handler, registered, found⟩ := handler_of_mem listed
    obtain ⟨accepted, values, output, computed, shown, good⟩ :=
      served.returns feature.manifest handler registered offers
    have noErrors : (gateway python validator runtime ranking).inputErrors feature
        (.ofDict input) = [] := accepted
    dsimp only
    rw [noErrors]
    refine ⟨trivial, fun reply answered => ?_⟩
    obtain ⟨latencyMs, rfl⟩ := LocalInvoker.result_of_answers found computed shown answered
    exact ⟨nofun, output, good, rfl⟩
  · rintro fault ⟨feature, others, failed, -⟩
    cases failed

/-- Greeting a name returns the greeting. -/
theorem greet_computes {input : Dict String Json} {name : String}
    (given : input.get? "name" = some (.str name)) (before after : String)
    : greet python before after input
      = .ok (Dict.ofList [("greeting", .json (.str (before ++ name ++ after)))]) := by
  simp only [greet, getItem, given]

/-- The greeting step returns one of the greetings. -/
theorem greet_served (reads : ReadsTexts validator) {input : Dict String Json} {name : String}
    (given : input.get? "name" = some (.str name))
    : Served python validator "greet" input fun output =>
        ∃ greeting ∈ greetings name, output = Dict.ofList [("greeting", .str greeting)] where
  provided := ⟨greetAcmeManifest, by simp [manifests, features], rfl⟩
  returns := by
    have accepted := (collectErrors_textSchema_iff reads).mpr ⟨name, given⟩
    intro manifest handler registered offers
    simp only [features, List.mem_cons, List.not_mem_nil, or_false, Prod.mk.injEq] at registered
    rcases registered with
      ⟨rfl, -⟩ | ⟨rfl, -⟩ | ⟨rfl, -⟩ | ⟨rfl, rfl⟩ | ⟨rfl, rfl⟩
    · exact absurd offers (by decide)
    · exact absurd offers (by decide)
    · exact absurd offers (by decide)
    · exact ⟨accepted, _, _, greet_computes given _ _, rfl, _, List.mem_cons_self, rfl⟩
    · exact ⟨accepted, _, _, greet_computes given _ _, rfl, _,
        List.mem_cons_of_mem _ List.mem_cons_self, rfl⟩

/-- The statistics step returns the statistics of its text. -/
theorem textStats_served (reads : ReadsTexts validator) (text : String)
    : Served python validator "text_stats" (Dict.ofList [("text", .str text)]) fun output =>
        output = statistics text where
  provided := ⟨textStatsManifest, by simp [manifests, features], rfl⟩
  returns := by
    intro manifest handler registered offers
    simp only [features, List.mem_cons, List.not_mem_nil, or_false, Prod.mk.injEq] at registered
    rcases registered with
      ⟨rfl, -⟩ | ⟨rfl, rfl⟩ | ⟨rfl, -⟩ | ⟨rfl, -⟩ | ⟨rfl, -⟩
    · exact absurd offers (by decide)
    · exact ⟨(collectErrors_textSchema_iff reads).mpr ⟨text, rfl⟩, _, _, rfl, rfl, rfl⟩
    · exact absurd offers (by decide)
    · exact absurd offers (by decide)
    · exact absurd offers (by decide)

end Steps

section Report

variable {python : Python} {validator : Validator} {runtime : Runtime} {ranking : Option String}

/-- The name resolves to the caller's. -/
theorem resolveRefs_name {input : Dict String Json} {name : String}
    (given : input.get? "name" = some (.str name))
    : resolveRefs (Dict.empty.set "input" (.ofDict input)) (Dict.ofList [("name", "input.name")])
      = .ok (Dict.ofList [("name", .str name)]) := by
  have resolved : resolveRef (Dict.empty.set "input" (.ofDict input)) "input.name"
      = .ok (.str name) := by
    refine resolveRef_eq_ok_iff.mpr ⟨.ofDict input, rfl, ?_⟩
    change (input.get? "name").bind (walk []) = some (.str name)
    rw [given]
    rfl
  refine Dict.mapM_eq_ok_iff.mpr ?_
  change Dict.mapValues _ [("name", "input.name")] = _
  rw [Dict.mapValues, resolved]
  rfl

/-- The composite returns the report on one of the greetings. Witness: its two steps, one after
the other.
-/
theorem run_greetReport (reads : ReadsTexts validator) {input : Dict String Json} {name : String}
    (given : input.get? "name" = some (.str name))
    : (Composer.run (gateway python validator runtime ranking).runCapability greetReport
        input).Keeps (serving python) fun outcome =>
          ∃ greeting ∈ greetings name, outcome = .ok (reportOn greeting) := by
  have first : resolveRefs (Dict.empty.set "input" (.ofDict input)) greetingStep.inputs
      = .ok (Dict.ofList [("name", .str name)]) :=
    resolveRefs_name given
  change (Composer.runSteps (gateway python validator runtime ranking).runCapability greetReport
    [greetingStep, statsStep] (Dict.empty.set "input" (.ofDict input)) []).Keeps _ _
  rw [Composer.runSteps_resolved _ _ _ _ first]
  refine (runCapability_serves (greet_served reads rfl)).bind ?_ ?_
  · rintro reply ⟨output, ⟨greeting, known, rfl⟩, returned⟩
    cases returned
    let greeted : Json := .ofDict (Dict.ofList [("greeting", .str greeting)])
    let ctx := (Dict.empty.set "input" (.ofDict input)).set "greeting" greeted
    have second : resolveRefs ctx statsStep.inputs
        = .ok (Dict.ofList [("text", .str greeting)]) := rfl
    change (Composer.runSteps (gateway python validator runtime ranking).runCapability
      greetReport [statsStep] ctx [_]).Keeps _ _
    rw [Composer.runSteps_resolved _ _ _ _ second]
    refine (runCapability_serves (textStats_served reads greeting)).bind ?_ ?_
    · rintro reply ⟨output, rfl, returned⟩
      cases returned
      exact ⟨greeting, known, rfl⟩
    · rintro fault ⟨output, -, failed⟩
      cases failed
  · rintro fault ⟨output, -, failed⟩
    cases failed

/-- The built-in composite reports on every input. -/
theorem invokeComposite_reports (reads : ReadsTexts validator) (body : InvokeRequest)
    : ((gateway python validator runtime ranking).serve
        (.invokeComposite "greet-report" body)).Keeps (serving python)
          (Reported body.input) := by
  refine Coroutine.Keeps.map _ fun state registered => ?_
  have accepts : collectErrors validator (.ofDict body.input) (textSchema "name") = []
      ↔ ∃ text, body.input.get? "name" = some (.str text) := collectErrors_textSchema_iff reads
  simp only [show state.composites.get? "greet-report" = some greetReport from registered]
  cases errors : collectErrors validator (.ofDict body.input) (textSchema "name") with
  | nil =>
      obtain ⟨name, given⟩ := accepts.mp errors
      simp only [Reported, given]
      have none : collectErrors (gateway python validator runtime ranking).validator
          (.ofDict body.input) greetReport.inputSchema = [] := errors
      rw [none]
      refine (run_greetReport reads given).mono ?_
      rintro outcome ⟨greeting, known, rfl⟩
      exact ⟨greeting, known, rfl⟩
  | cons error others =>
      have some : collectErrors (gateway python validator runtime ranking).validator
          (.ofDict body.input) greetReport.inputSchema = error :: others := errors
      rw [some]
      unfold Reported
      split
      · next name given =>
          have valid := accepts.mpr ⟨name, given⟩
          rw [errors] at valid
          cases valid
      · exact ⟨_, List.cons_ne_nil error others, rfl⟩

/-- Other requests leave the registered composite alone. -/
theorem serve_keepsRegistered (request : Request)
    (others : ∀ spec ∈ request.publications, spec.name ≠ "greet-report")
    : ((gateway python validator runtime ranking).serve request).Keeps (serving python)
        fun _ => True := by
  have publishes := (gateway python validator runtime ranking).serve_publishes request
  refine (publishes.allWrites fun change owed => ?_).keeps (fun _ => trivial) fun _ => trivial
  exact fun composite published => others composite (owed composite published)

end Report

/-- The part of the validator that the samples need. -/
def sampleValidator : Validator where
  iterErrors schema payload :=
    if (Json.ofDict schema).accepts payload then [] else [⟨[], "the instance is not valid"⟩]

/-- Someone is greeted while a second request without a name comes in. -/
def greeted : List (Action Request Reply) :=
  [
    .arrive (.invokeComposite "greet-report" { input := Dict.ofList [("name", .str "Ada")] }),
    .reply 0 (.result (Dict.ofList [("greeting", .str "Hello, Ada. — Acme")]) 3),
    .arrive (.invokeComposite "greet-report" {}),
    .reply 0 (.result (statistics "Hello, Ada. — Acme") 1)
  ]

end Samples

end AgentFeatures
