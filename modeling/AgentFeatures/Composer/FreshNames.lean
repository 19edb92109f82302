import AgentFeatures.Composer.References

/-! When references keep their meaning for a whole run: no step output shadows an entry. -/

namespace AgentFeatures

open Library

/-- A reference read as `value` means what it says: a path into the caller's input, or into
the output of a completed step of that name.
-/
def Means (callerInput : Dict String Json) (completed : List TraceEntry) (ref : String)
    (value : Option Json)
    : Prop :=
  (refHead ref = "input" → value = walk (refPath ref) (.ofDict callerInput))
  ∧ ∀ entry ∈ completed,
      refHead ref = entry.step → value = walk (refPath ref) (.ofDict entry.output)

/-- References keep their meaning for a whole run. -/
structure ReferencesKept (composite : Composite) (callerInput : Dict String Json)
    (calls : List CapabilityCall) (result : CompositeResult) : Prop where
  /-- Every context of the run still holds the caller's input. -/
  inputKept
    : ∀ i,
        (contextAfter callerInput (result.trace.take i)).get? "input"
          = some (.ofDict callerInput)
  /-- Every context of the run still holds the outputs of the steps completed by then. -/
  outputsKept
    : ∀ i,
        ∀ entry ∈ result.trace.take i,
          (contextAfter callerInput (result.trace.take i)).get? entry.step
            = some (.ofDict entry.output)
  /-- Every field passed to the invoker is what its reference means. -/
  stepsRead
    : ∀ i step call key ref,
        composite.steps[i]? = some step
        → calls[i]? = some call
        → (key, ref) ∈ step.inputs.entries
        → Means callerInput (result.trace.take i) ref (call.input.get? key)
  /-- Every field of the output is what its reference means. -/
  outputReads
    : result.error = none
      → ∀ key ref,
          (key, ref) ∈ composite.output.entries
          → Means callerInput result.trace ref (result.output.get? key)

/-- Every run of the composite keeps the meaning of its references. -/
def KeepsReferences (composite : Composite) : Prop :=
  ∀ (σ : Type) (invoke : CapabilityInvoke (StateM σ)) (callerInput : Dict String Json)
    (world : σ),
    let observed := Composer.run (logged invoke) composite callerInput (world, [])
    ReferencesKept composite callerInput observed.2.2 observed.1

/-- No step takes the name of the caller's input or of an earlier step, up to the first step
with a reference that starts at neither, where every run ends.
-/
def FreshNames (composite : Composite) : Prop :=
  ∀ front step back,
    composite.steps = front ++ step :: back
    → Known ["input"] (front ++ [step])
    → step.name ∉ "input" :: front.map Step.name

/-- A context in which the completed steps have distinct names, none of them `input`, gives
every reference its meaning.
-/
theorem means_of_distinct {callerInput : Dict String Json} {completed : List TraceEntry}
    (distinct : ("input" :: completed.map TraceEntry.step).Nodup) {ref : String} {value : Json}
    (resolved : resolveRef (contextAfter callerInput completed) ref = .ok value)
    : Means callerInput completed ref (some value) := by
  obtain ⟨start, found, reached⟩ := resolveRef_eq_ok_iff.mp resolved
  obtain ⟨absent, distinct⟩ := List.nodup_cons.mp distinct
  constructor
  · intro isInput
    rw [isInput, contextAfter, get?_extendContext_of_not_mem absent, Dict.get?_set_self] at found
    rw [Option.some.inj found, reached]
  · intro entry member isStep
    rw [isStep, contextAfter, get?_extendContext_of_mem distinct member] at found
    rw [Option.some.inj found, reached]

/-- Under fresh names the steps a run completes have distinct names, none of them `input`.
Witness: induction on how many steps are looked at; those called have known references.
-/
theorem FreshNames.distinct {composite : Composite} (fresh : FreshNames composite) {n : Nat}
    (bound : n ≤ composite.steps.length) (known : Known ["input"] (composite.steps.take n))
    : ("input" :: (composite.steps.take n).map Step.name).Nodup := by
  induction n with
  | zero => simp
  | succ n ih =>
      have here : n < composite.steps.length := by omega
      have split : composite.steps.take (n + 1) = composite.steps.take n ++ [composite.steps[n]] :=
        List.take_succ_eq_append_getElem here
      have knownBefore : Known ["input"] (composite.steps.take n) := by
        rw [known_iff] at known ⊢
        intro i step atStep entry member
        have inRange : i < n := by
          have := (List.getElem?_eq_some_iff.mp atStep).1
          simp at this
          omega
        have atLonger : (composite.steps.take (n + 1))[i]? = some step := by
          rw [split, List.getElem?_append_left (by simp; omega), atStep]
        simpa [List.take_take, Nat.min_eq_left (Nat.le_of_lt inRange),
          Nat.min_eq_left (show i ≤ n + 1 by omega)]
          using known i step atLonger entry member
      have newName := fresh (composite.steps.take n) composite.steps[n]
        (composite.steps.drop (n + 1)) (by simp) (split ▸ known)
      rw [split, List.map_append, List.map_singleton, ← List.cons_append]
      exact List.nodup_append.mpr ⟨ih (by omega) knownBefore, List.nodup_singleton _,
        fun name member other isLast same =>
          newName (List.mem_singleton.mp isLast ▸ same ▸ member)⟩

/-- Fresh names keep the meaning of references in every run. -/
theorem FreshNames.keepsReferences {composite : Composite} (fresh : FreshNames composite)
    : KeepsReferences composite := by
  intro σ invoke callerInput world observed
  obtain ⟨segment, -, -, ends⟩ := run_segment invoke composite callerInput world
  have distinct (i : Nat)
      : ("input" :: (observed.1.trace.take i).map TraceEntry.step).Nodup := by
    have all := fresh.distinct segment.called segment.known
    have sub : ("input" :: (observed.1.trace.take i).map TraceEntry.step).Sublist
        ("input" :: (composite.steps.take observed.2.2.length).map Step.name) := by
      refine List.Sublist.cons_cons _ ?_
      rw [List.map_take, segment.names, ← List.map_take, List.take_take]
      exact (List.take_sublist_take_left
        (Nat.le_trans (Nat.min_le_right _ _) segment.completed_le)).map Step.name
    exact all.sublist sub
  have whole := distinct observed.1.trace.length
  rw [List.take_length] at whole
  refine ⟨?_, ?_, ?_, ?_⟩
  · intro i
    rw [contextAfter, get?_extendContext_of_not_mem (List.nodup_cons.mp (distinct i)).1,
      Dict.get?_set_self]
  · intro i entry member
    exact get?_extendContext_of_mem (List.nodup_cons.mp (distinct i)).2 member
  · intro i step call key ref atStep atCall member
    obtain ⟨value, resolved, passed⟩ :=
      Dict.get?_of_mapM (segment.aligned i step call atStep atCall).2.1 member
    rw [passed]
    exact means_of_distinct (distinct i) resolved
  · intro noError key ref member
    rcases ends with ⟨-, -, resolved⟩ | ⟨anError, -⟩
    · obtain ⟨value, read, stored⟩ := Dict.get?_of_mapM resolved member
      rw [stored]
      exact means_of_distinct whole read
    · exact absurd noError anError

-----------------------------------------------------------------------------------------
-- A run that reaches every step it can
-----------------------------------------------------------------------------------------

/-- An object in which every path of at most `depth` parts out of `names` resolves. -/
def deep (names : List String) : Nat → Json
  | 0 => .obj []
  | depth + 1 => .obj (names.map fun name => (name, deep names depth))

/-- The fields of a deep object. -/
def deepFields {names : List String} (distinct : names.Nodup) (depth : Nat)
    : Dict String Json :=
  ⟨names.map fun name => (name, deep names depth), by simpa [Function.comp_def] using distinct⟩

/-- Deep objects resolve their paths. Witness: induction on the path. -/
theorem walk_deep {names : List String} (distinct : names.Nodup) {path : List String}
    (within : path ⊆ names) {depth : Nat} (short : path.length ≤ depth)
    : ∃ value, walk path (deep names depth) = some value := by
  induction path generalizing depth with
  | nil => exact ⟨_, rfl⟩
  | cons part rest ih =>
      obtain ⟨here, later⟩ := List.cons_subset.mp within
      cases depth with
      | zero => simp at short
      | succ depth =>
          have found : (deepFields distinct depth).get? part = some (deep names depth) :=
            Dict.get?_eq_some_iff.mpr (List.mem_map.mpr ⟨part, here, rfl⟩)
          obtain ⟨value, reached⟩ := ih later (Nat.le_of_succ_le_succ short)
          refine ⟨value, ?_⟩
          change ((deepFields distinct depth).get? part).bind (walk rest) = some value
          rw [found, Option.bind_some, reached]

/-- Deep objects of different depths differ. Witness: induction on the depth. -/
theorem deep_injective {name : String} {names : List String} {depth other : Nat}
    (same : deep (name :: names) depth = deep (name :: names) other)
    : depth = other := by
  induction depth generalizing other with
  | zero =>
      cases other with
      | zero => rfl
      | succ other => simp [deep] at same
  | succ depth ih =>
      cases other with
      | zero => simp [deep] at same
      | succ other =>
          simp only [deep, List.map_cons, Json.obj.injEq, List.cons.injEq, Prod.mk.injEq,
            true_and] at same
          rw [ih same.1]

/-- The invoker that answers every call with a deep object, deeper each time. -/
def deepInvoke {names : List String} (distinct : names.Nodup)
    : CapabilityInvoke (StateM Nat) :=
  fun _ _ _ _ depth => ((some (deepFields distinct depth), none), depth + 1)

/-- The steps completed by the deep invoker. -/
def deepEntries {names : List String} (distinct : names.Nodup) (steps : List Step)
    (depth : Nat)
    : List TraceEntry :=
  (steps.zipIdx depth).map fun (step, depth) =>
    ⟨step.name, step.capability, deepFields distinct depth⟩

/-- Every entry of the context resolves paths of up to `bound` parts. -/
def DeepContext (names : List String) (bound : Nat) (ctx : Dict String Json) : Prop :=
  ∀ name ∈ ctx.keys, ∃ depth, bound ≤ depth ∧ ctx.get? name = some (deep names depth)

theorem DeepContext.empty {names : List String} {bound : Nat} : DeepContext names bound ∅ :=
  fun _ absent => absurd absent List.not_mem_nil

/-- Storing one more deep output keeps the context deep. -/
theorem DeepContext.set {names : List String} {bound : Nat} {ctx : Dict String Json}
    (deepCtx : DeepContext names bound ctx) (distinct : names.Nodup) {name : String}
    {depth : Nat} (enough : bound ≤ depth + 1)
    : DeepContext names bound (ctx.set name (.ofDict (deepFields distinct depth))) := by
  intro other member
  rw [Dict.get?_set]
  split
  · exact ⟨depth + 1, enough, rfl⟩
  · next differs =>
      exact deepCtx other ((Dict.mem_keys_set.mp member).resolve_right differs)

/-- The references of the step are short paths over `names`. -/
def Shallow (names : List String) (bound : Nat) (step : Step) : Prop :=
  ∀ entry ∈ step.inputs.entries,
    refPath entry.2 ⊆ names ∧ (refPath entry.2).length ≤ bound

/-- In a deep context the inputs of a shallow step with known heads resolve. -/
theorem DeepContext.resolves {names : List String} {bound : Nat} {ctx : Dict String Json}
    (deepCtx : DeepContext names bound ctx) (distinct : names.Nodup) {step : Step}
    (shallow : Shallow names bound step)
    (heads : ∀ entry ∈ step.inputs.entries, refHead entry.2 ∈ ctx.keys)
    : ∃ stepInput, resolveRefs ctx step.inputs = .ok stepInput := by
  refine Dict.mapM_isOk_iff.mpr fun entry member => ?_
  obtain ⟨depth, enough, found⟩ := deepCtx _ (heads entry member)
  obtain ⟨within, short⟩ := shallow entry member
  obtain ⟨value, reached⟩ := walk_deep distinct within (Nat.le_trans short enough)
  exact ⟨value, resolveRef_eq_ok_iff.mpr ⟨_, found, reached⟩⟩

/-- The deep invoker completes steps with known heads, one after the other. Witness:
induction on the steps; the context stays deep.
-/
theorem runSteps_deep {names : List String} (distinct : names.Nodup) {bound : Nat}
    (composite : Composite) (front back : List Step) {ctx : Dict String Json}
    (trace : List TraceEntry) {depth : Nat} (log : List CapabilityCall)
    (deepCtx : DeepContext names bound ctx) (enough : bound ≤ depth)
    (shallow : ∀ step ∈ front, Shallow names bound step) {known : List String}
    (heads : Known known front) (present : known ⊆ ctx.keys)
    : ∃ calls,
        Composer.runSteps (logged (deepInvoke distinct)) composite (front ++ back) ctx trace
            (depth, log)
          = Composer.runSteps (logged (deepInvoke distinct)) composite back
              (extendContext ctx (deepEntries distinct front depth))
              (trace ++ deepEntries distinct front depth) (depth + front.length, calls) := by
  induction front generalizing ctx trace depth log known with
  | nil => exact ⟨log, by simp [deepEntries, extendContext]⟩
  | cons step rest ih =>
      obtain ⟨stepInput, resolved⟩ := deepCtx.resolves distinct (shallow step (by simp))
        fun entry member => present (heads.1 entry member)
      have stored : known ++ [step.name]
          ⊆ (ctx.set step.name (.ofDict (deepFields distinct depth))).keys := by
        intro name member
        rcases List.mem_append.mp member with old | new
        · exact Dict.mem_keys_set.mpr (.inl (present old))
        · exact Dict.mem_keys_set.mpr (.inr (List.mem_singleton.mp new))
      have deepNext : DeepContext names bound
          (ctx.set step.name (.ofDict (deepFields distinct depth))) :=
        deepCtx.set distinct (by omega)
      obtain ⟨calls, later⟩ := ih
        (trace ++ [⟨step.name, step.capability, deepFields distinct depth⟩])
        (log ++ [⟨step.capability, stepInput, step.vendor, step.version,
          (some (deepFields distinct depth), none)⟩])
        deepNext (Nat.le_succ_of_le enough)
        (fun other member => shallow other (List.mem_cons_of_mem step member)) heads.2 stored
      refine ⟨calls, ?_⟩
      rw [List.cons_append, Composer.runSteps_resolved _ _ _ _ resolved]
      simpa [bind, StateT.bind, logged, deepInvoke, stepOutcome, given, deepEntries,
        extendContext, List.zipIdx_cons, Nat.add_comm, Nat.add_left_comm] using later

/-- The paths of all references of some steps. -/
def stepPaths (steps : List Step) : List (List String) :=
  steps.flatMap fun step => step.inputs.entries.map fun entry => refPath entry.2

/-- Every step is shallow for the parts of all paths. -/
theorem shallow_of_mem {steps : List Step} {names : List String}
    (parts : ∀ part ∈ (stepPaths steps).flatten, part ∈ names) {step : Step}
    (member : step ∈ steps)
    : Shallow names (stepPaths steps).flatten.length step := by
  intro entry written
  have path : refPath entry.2 ∈ stepPaths steps :=
    List.mem_flatMap.mpr ⟨step, member, List.mem_map.mpr ⟨entry, written, rfl⟩⟩
  have sub := List.sublist_flatten_of_mem path
  exact ⟨fun part inPath => parts part (sub.subset inPath), sub.length_le⟩

/-- The entry of the last of some steps stands under its name. -/
theorem get?_deepEntries_last {names : List String} (distinct : names.Nodup)
    (ctx : Dict String Json) (front : List Step) (step : Step) (depth : Nat)
    : (extendContext ctx (deepEntries distinct (front ++ [step]) depth)).get? step.name
      = some (deep names (depth + front.length + 1)) := by
  simp only [deepEntries, List.zipIdx_append, List.zipIdx_cons, List.zipIdx_nil,
    List.map_append, List.map_cons, List.map_nil, extendContext, List.foldl_append,
    List.foldl_cons, List.foldl_nil, Dict.get?_set_self]
  rfl

/-- The deep invoker's run completes the steps in front whose heads are known. -/
theorem run_deep {names : List String} (distinct : names.Nodup) {bound : Nat}
    {composite : Composite} {front back : List Step} (split : composite.steps = front ++ back)
    (shallow : ∀ step ∈ front, Shallow names bound step) (known : Known ["input"] front)
    : let observed := Composer.run (logged (deepInvoke distinct)) composite
        (deepFields distinct bound) (bound + 1, [])
      observed.1.trace.take front.length = deepEntries distinct front (bound + 1) := by
  have deepCtx : DeepContext names bound (contextAfter (deepFields distinct bound) []) :=
    DeepContext.empty.set distinct
      (Nat.le_succ bound)
  obtain ⟨calls, ran⟩ := runSteps_deep distinct composite front back [] [] deepCtx
    (Nat.le_succ bound) shallow known (by simp [mem_keys_contextAfter])
  obtain ⟨-, later, -, -, -, traced, -⟩ := runSteps_segment (deepInvoke distinct) composite back
    (extendContext (contextAfter (deepFields distinct bound) [])
      (deepEntries distinct front (bound + 1)))
    ([] ++ deepEntries distinct front (bound + 1)) (bound + 1 + front.length) calls
  rw [← ran, ← split] at traced
  have length : (deepEntries distinct front (bound + 1)).length = front.length := by
    simp [deepEntries]
  change List.take _ (Composer.runSteps (logged (deepInvoke distinct)) composite composite.steps
    (contextAfter (deepFields distinct bound) []) [] (bound + 1, [])).1.trace = _
  rw [traced, List.nil_append, ← length, List.take_left]

/-- A composite keeps the meaning of references in every run iff the names of the steps its
runs can reach are fresh. Witness: the run of the deep invoker reaches a clash, where an entry
of the context is replaced by a deeper one.
-/
theorem keepsReferences_iff_freshNames (composite : Composite)
    : KeepsReferences composite ↔ FreshNames composite := by
  refine ⟨?_, FreshNames.keepsReferences⟩
  intro kept front step back split known clash
  obtain ⟨name, others, nonempty⟩ : ∃ name others,
      ("" :: (stepPaths composite.steps).flatten).dedup = name :: others :=
    List.exists_cons_of_ne_nil (List.ne_nil_of_mem (List.mem_dedup.mpr List.mem_cons_self))
  have distinct : (name :: others).Nodup := nonempty ▸ List.nodup_dedup _
  let bound := (stepPaths composite.steps).flatten.length
  have split' : composite.steps = (front ++ [step]) ++ back := by simp [split]
  have shallow : ∀ other ∈ front ++ [step], Shallow (name :: others) bound other := by
    intro other member
    refine shallow_of_mem (fun part inPaths => ?_) (split' ▸ List.mem_append_left back member)
    rw [← nonempty]
    exact List.mem_dedup.mpr (List.mem_cons_of_mem _ inPaths)
  have reached := run_deep distinct split' shallow known
  have final := get?_deepEntries_last distinct
    (contextAfter (deepFields distinct bound) []) front step (bound + 1)
  have started := kept Nat (deepInvoke distinct) (deepFields distinct bound) (bound + 1)
  rcases List.mem_cons.mp clash with isInput | earlier
  · have input := started.inputKept (front ++ [step]).length
    rw [reached] at input
    rw [isInput] at final
    have same : bound + 1 = bound + 1 + front.length + 1 :=
      deep_injective (Option.some.inj (input.symm.trans final))
    omega
  · obtain ⟨other, inFront, sameName⟩ := List.mem_map.mp earlier
    obtain ⟨j, bounded, found⟩ := List.mem_iff_getElem.mp inFront
    have entry : ⟨other.name, other.capability, deepFields distinct (bound + 1 + j)⟩
        ∈ deepEntries distinct (front ++ [step]) (bound + 1) := by
      refine List.mem_map.mpr ⟨(other, bound + 1 + j), ?_, rfl⟩
      rw [List.mem_zipIdx_iff_le_and_getElem?_sub]
      refine ⟨Nat.le_add_right _ _, ?_⟩
      rw [Nat.add_sub_cancel_left, List.getElem?_append_left bounded,
        List.getElem?_eq_getElem bounded, found]
    have output := started.outputsKept (front ++ [step]).length _ (reached ▸ entry)
    rw [reached] at output
    rw [← sameName] at final
    have same : bound + 1 + j + 1 = bound + 1 + front.length + 1 :=
      deep_injective (Option.some.inj (output.symm.trans final))
    omega

/-- A pipeline whose only step is named like the caller's input. -/
def shadowingComposite : Composite where
  name := "shadow"
  capability := "shadow"
  steps := [{ name := "input", capability := "lookup" }]
  output := Dict.empty.set "field" "input.field"
  defaultCapability := by decide

/-- An invoker that always answers the same object. -/
def constantInvoke (output : Dict String Json) : CapabilityInvoke (StateM Unit) :=
  fun _ _ _ _ _ => ((some output, none), ())

/-- A step named `input` replaces the caller's input: `input.field` reads the step's output. -/
theorem shadowingComposite_reads_step_output
    : ¬ ∀ composite, KeepsReferences composite := by
  intro all
  let reply : Dict String Json := Dict.empty.set "field" (.int 2)
  let callerInput : Dict String Json := Dict.empty.set "field" (.int 1)
  have kept := all shadowingComposite Unit (constantInvoke reply) callerInput ()
  have kept := kept.inputKept 1
  have stored : (contextAfter callerInput [⟨"input", "lookup", reply⟩]).get? "input"
      = some (.ofDict reply) := Dict.get?_set_self ..
  have same : Json.ofDict reply = Json.ofDict callerInput :=
    Option.some.inj (stored.symm.trans kept)
  cases same

end AgentFeatures
