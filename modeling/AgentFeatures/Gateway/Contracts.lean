import AgentFeatures.Gateway.Samples
import AgentFeatures.Gateway.Schemas

/-! Which requests the sample features answer as their manifests promise. -/

namespace AgentFeatures

open Library Library.FloatRange

namespace Samples

/-- The output is an object of JSON with finite numbers, valid for the schema. -/
def IsAnswer (schema : Dict String Json) (output : Dict String SampleValue) : Prop :=
  ∃ fields : Dict String Json,
    output.entries = fields.entries.map (Prod.map id SampleValue.json)
    ∧ (Json.ofDict schema).accepts (Json.ofDict fields)
    ∧ (Json.ofDict fields).IsDocument

/-- The handler ends as the manifest promises: with an answer, or with a `FeatureInputError`. -/
def Honours (manifest : Manifest) : Except SampleFailure (Dict String SampleValue) → Prop
  | .ok output => IsAnswer manifest.outputSchema output
  | .error (.featureInputError _) => True
  | .error (.raised _) => False

/-- The text is parsed to a tree that neither escapes nor ends outside the finite reals, or its
parsing fails with an error that the calculator catches.
-/
def Computes (python : Python) (source : String) : Prop :=
  match python.parse source with
  | .ok tree =>
      ¬ Calculator.Escapes python.powers tree python.frames
      ∧ ¬ Calculator.EndsUnreal python.powers tree
  | .error raised => (Calculator.caughtText? raised).isSome

/-- The number of hours is finite and below 24, by more than half a microsecond. -/
def WithinDay (hours : Float) : Prop := hours.isFinite ∧ |value hours| < 24 - 1 / 7200000000

/-- The offset is a number of hours within a day. -/
def OffsetWithinDay : Json → Prop
  | .int n => WithinDay (ofInt n)
  | .float bits => WithinDay (Float.ofBits ⟨bits⟩)
  | _ => False

/-- What keeps the contract of the feature of this name, for a payload valid for its input. -/
def Suits (python : Python) (payload : Dict String Json) (feature : String) : Prop :=
  match feature with
  | "calculator" =>
      ∀ source, payload.get? "expression" = some (.str source) → Computes python source
  | "clock" => OffsetWithinDay ((payload.get? "utc_offset_hours").getD (.int 0))
  | _ => True

-----------------------------------------------------------------------------------------
-- Payloads and outputs
-----------------------------------------------------------------------------------------

theorem nodup_pair {type properties : Json}
    : (List.map Prod.fst [("type", type), ("properties", properties)]).Nodup := by
  simp

theorem nodup_schema {type properties required : Json}
    : (List.map Prod.fst
        [("type", type), ("properties", properties), ("required", required)]).Nodup := by
  simp

/-- A payload valid for a text schema has the text. -/
theorem text_of_accepts {field : String} {payload : Dict String Json}
    (valid : (Json.ofDict (textSchema field)).accepts (Json.ofDict payload))
    : ∃ text, payload.get? field = some (.str text) := by
  rw [textSchema, Json.ofDict, Dict.entries_ofList nodup_schema] at valid
  simp only [Json.ofDict, Json.accepts, Json.acceptsKeywords, Json.acceptsProperties,
    Json.acceptsFields, Bool.and_true, Bool.and_eq_true] at valid
  obtain ⟨-, ofType, required⟩ := valid
  simp only [Json.acceptsRequired, List.all_cons, List.all_nil, Bool.and_true] at required
  obtain ⟨value, found⟩ := Option.isSome_iff_exists.mp required
  rw [found] at ofType
  cases value with
  | str text => exact ⟨text, found⟩
  | _ => simp [Json.acceptsType, Json.hasType] at ofType

/-- A payload valid for the clock has a number as its offset. -/
theorem offset_of_accepts {payload : Dict String Json}
    (valid : (Json.ofDict clockManifest.inputSchema).accepts (Json.ofDict payload))
    : (∃ n, (payload.get? "utc_offset_hours").getD (.int 0) = .int n)
      ∨ ∃ bits, (payload.get? "utc_offset_hours").getD (.int 0) = .float bits := by
  simp only [clockManifest, objectSchema, Json.ofDict, Dict.entries_ofList nodup_pair,
    Json.accepts, Json.acceptsKeywords, Json.acceptsProperties, Json.acceptsFields, Bool.and_true,
    Bool.and_eq_true] at valid
  have ofType := valid.2
  rw [Dict.get?]
  cases found : payload.entries.lookup "utc_offset_hours" with
  | none => exact .inl ⟨0, rfl⟩
  | some value =>
      rw [found] at ofType
      cases value with
      | int n => exact .inl ⟨n, rfl⟩
      | float bits => exact .inr ⟨bits, rfl⟩
      | _ => simp [Json.acceptsType, Json.hasType] at ofType

/-- An output of JSON values is an answer when they are valid for the properties and finite. -/
theorem isAnswer_ofList_iff {properties : List (String × Json)} (items : List (String × Json))
    (unique : (items.map Prod.fst).Nodup)
    : IsAnswer (objectSchema properties) (Dict.ofList (items.map (Prod.map id SampleValue.json)))
      ↔ Json.acceptsFields properties items ∧ ∀ item ∈ items, item.2.IsDocument := by
  have kept : ((items.map (Prod.map id SampleValue.json)).map Prod.fst).Nodup := by
    simpa [List.map_map, Function.comp_def] using unique
  have accepts (fields : Dict String Json)
      : (Json.ofDict (objectSchema properties)).accepts (Json.ofDict fields)
        = Json.acceptsFields properties fields.entries := by
    simp [objectSchema, Json.ofDict, Dict.entries_ofList nodup_pair, Json.accepts,
      Json.acceptsKeywords, Json.acceptsProperties, Json.acceptsType, Json.hasType]
  unfold IsAnswer
  simp only [accepts, Dict.entries_ofList kept]
  constructor
  · rintro ⟨fields, same, valid, document⟩
    have injective : Function.Injective (Prod.map (id : String → String) SampleValue.json) :=
      Function.injective_id.prodMap fun _ _ => SampleValue.json.inj
    have entries := List.map_injective_iff.mpr injective same
    rw [← entries] at valid
    rw [Json.ofDict, ← entries] at document
    exact ⟨valid, document.field⟩
  · intro both
    exact ⟨⟨items, unique⟩, rfl, both.1, .obj unique both.2⟩

/-- A float is a value of JSON documents exactly when it is finite. -/
theorem isDocument_floatJson_iff (x : Float) : (floatJson x).IsDocument ↔ x.isFinite := by
  rw [isFinite_iff_toBits]
  constructor
  · intro document
    cases document with
    | number number =>
        cases number with
        | float finite => exact finite
  · exact fun finite => .number (.float finite)

-----------------------------------------------------------------------------------------
-- Handlers
-----------------------------------------------------------------------------------------

variable {python : Python} {payload : Dict String Json}

theorem isAnswer_result_iff (v : PyNumber)
    : IsAnswer calculatorManifest.outputSchema (Dict.ofList [("result", numberValue v)])
      ↔ v.IsReal := by
  cases v with
  | float x =>
      refine (isAnswer_ofList_iff [("result", floatJson x)] (List.nodup_singleton _)).trans ?_
      rw [and_iff_right (by rfl), List.forall_mem_singleton]
      exact isDocument_floatJson_iff x
  | complex z =>
      refine iff_of_false ?_ id
      rintro ⟨fields, same, -⟩
      change [("result", SampleValue.complex z)] = _ at same
      cases shape : fields.entries with
      | nil => simp [shape] at same
      | cons field rest => simp [shape, Prod.map] at same

/-- The calculator honours its manifest exactly for texts that compute. -/
theorem honours_calculator_iff {source : String}
    (given : payload.get? "expression" = some (.str source))
    : Honours calculatorManifest (calculator python payload) ↔ Computes python source := by
  have evaluated
      : calculate python payload
        = (python.parse source >>= fun tree =>
            Calculator.safeEval python.powers tree python.frames) := by
    simp only [calculate, getItem, given]
    rfl
  unfold calculator Computes
  rw [evaluated]
  cases python.parse source with
  | error raised =>
      simp only [bind, Except.bind]
      cases Calculator.caughtText? raised <;> simp [Honours]
  | ok tree =>
      simp only [bind, Except.bind]
      rw [← Calculator.safeEval_settles_iff]
      cases result : Calculator.safeEval python.powers tree python.frames with
      | ok v => simp [Honours, isAnswer_result_iff]
      | error raised =>
          cases caught : Calculator.caughtText? raised <;> simp [Honours, caught]

/-- The text statistics are an answer for every text. -/
theorem honours_textStats {text : String} (given : payload.get? "text" = some (.str text))
    : Honours textStatsManifest (textStats payload) := by
  simp only [textStats, getItem, given]
  refine (isAnswer_ofList_iff
    [("characters", .int _), ("words", .int _), ("sentences", .int _)] (by simp)).mpr ?_
  refine ⟨rfl, fun item member => ?_⟩
  simp only [List.mem_cons, List.not_mem_nil, or_false] at member
  rcases member with rfl | rfl | rfl <;> exact .number (.int _)

/-- A greeting is an answer for every name. -/
theorem honours_greet {before after : String} {manifest : Manifest}
    (greets : manifest.outputSchema = greetOutput) {name : String}
    (given : payload.get? "name" = some (.str name))
    : Honours manifest (greet python before after payload) := by
  simp only [greet, getItem, given, Honours, greets]
  refine (isAnswer_ofList_iff [("greeting", .str _)] (List.nodup_singleton _)).mpr ⟨rfl, ?_⟩
  rw [List.forall_mem_singleton]
  exact .str _

/-- A number of hours is within a day when it is less than a day in rounded microseconds. -/
theorem abs_microseconds_lt_day_iff (hours : Float)
    : |roundHalfEven (value hours * hour)| < day ↔ |value hours| < 24 - 1 / 7200000000 := by
  have unit : |((hour : Int) : Rat)| = 3600000000 := by norm_num [hour]
  have bound : ((day : Int) : Rat) - 1 / 2 = (24 - 1 / 7200000000) * 3600000000 := by
    norm_num [day]
  rw [abs_roundHalfEven_lt_iff (by decide), abs_mul, unit, bound]
  exact mul_lt_mul_iff_of_pos_right (by norm_num)

theorem timedelta_eq_ok_iff {hours : Float} {offset : Int}
    : timedelta hours = .ok offset
      ↔ hours.isFinite
        ∧ offset = roundHalfEven (value hours * hour)
        ∧ |offset.fdiv day| ≤ 999999999 := by
  unfold timedelta
  rw [isFinite_iff_not]
  split
  · next nan => exact iff_of_false nofun fun both => both.1.1 nan
  · next number =>
      split
      · next infinite => exact iff_of_false nofun fun both => both.1.2 infinite
      · next finite =>
          rw [and_iff_right ⟨number, finite⟩]
          generalize roundHalfEven (value hours * hour) = microseconds
          dsimp only
          split
          · next inRange =>
              rw [Except.ok.injEq]
              exact ⟨fun same => ⟨same.symm, same ▸ inRange⟩, fun both => both.1.symm⟩
          · next outOfRange =>
              exact iff_of_false nofun fun both => outOfRange (both.1 ▸ both.2)

theorem timezone_eq_ok_iff {offset zone : Int}
    : timezone offset = .ok zone ↔ zone = offset ∧ |offset| < day := by
  unfold timezone
  split
  · next below =>
      rw [Except.ok.injEq, and_iff_left below]
      exact eq_comm
  · next above => exact iff_of_false nofun fun both => above both.2

/-- A time zone is made exactly for the offsets within a day. -/
theorem zone_iff (hours : Float)
    : (∃ zone, (timedelta hours >>= timezone) = .ok zone) ↔ WithinDay hours := by
  simp only [Calculator.bind_eq_ok_iff, timedelta_eq_ok_iff, timezone_eq_ok_iff]
  rw [WithinDay, ← abs_microseconds_lt_day_iff]
  constructor
  · rintro ⟨zone, offset, ⟨finite, rfl, -⟩, -, below⟩
    exact ⟨finite, below⟩
  · rintro ⟨finite, below⟩
    refine ⟨_, _, ⟨finite, rfl, ?_⟩, rfl, below⟩
    rw [Int.fdiv_eq_ediv_of_nonneg _ (by decide)]
    rw [day, abs_lt] at *
    rw [abs_le]
    omega

/-- An offset that is a float is answered exactly within a day. -/
theorem honours_clock_float_iff {hours : Float}
    (given : toFloat python ((payload.get? "utc_offset_hours").getD (.int 0)) = .ok hours)
    : Honours clockManifest (clock python payload) ↔ WithinDay hours := by
  have ticked
      : tick python payload
        = (timedelta hours >>= timezone).map fun zone =>
            Dict.ofList
              [
                ("iso8601", .json (.str (python.now zone))),
                ("utc_offset_hours", .json (floatJson hours))
              ] := by
    unfold tick
    rw [given]
    change (timedelta hours >>= timezone >>= fun zone => pure _) = _
    cases timedelta hours >>= timezone <;> rfl
  unfold clock
  rw [ticked, ← zone_iff]
  cases made : timedelta hours >>= timezone with
  | error raised => exact iff_of_false id (by simp)
  | ok zone =>
      refine iff_of_true ?_ ⟨zone, rfl⟩
      have within := (zone_iff hours).mp ⟨zone, made⟩
      refine (isAnswer_ofList_iff
        [("iso8601", .str (python.now zone)), ("utc_offset_hours", floatJson hours)]
        (by simp)).mpr ⟨rfl, fun item member => ?_⟩
      simp only [List.mem_cons, List.not_mem_nil, or_false] at member
      rcases member with rfl | rfl
      · exact .str _
      · exact (isDocument_floatJson_iff hours).mpr within.1

/-- The clock honours its manifest exactly for the offsets within a day. -/
theorem honours_clock_iff
    (valid : (Json.ofDict clockManifest.inputSchema).accepts (Json.ofDict payload))
    : Honours clockManifest (clock python payload)
      ↔ OffsetWithinDay ((payload.get? "utc_offset_hours").getD (.int 0)) := by
  rcases offset_of_accepts valid with ⟨n, given⟩ | ⟨bits, given⟩
  · rw [given]
    by_cases finite : (ofInt n).isFinite
    · refine honours_clock_float_iff ?_
      rw [given]
      exact if_pos finite
    · refine iff_of_false ?_ fun within => finite within.1
      have raised : tick python payload = .error .overflowError := by
        unfold tick
        rw [given, toFloat, Calculator.floatOfInt, if_neg finite]
        rfl
      simp [clock, raised, Except.mapError, Honours]
  · rw [given]
    refine honours_clock_float_iff ?_
    rw [given, toFloat]

/-- A handler honours its manifest exactly for payloads that suit it. -/
theorem honours_iff_suits (python : Python) {manifest : Manifest} {handler : SampleHandler}
    (registered : (manifest, handler) ∈ features python) {payload : Dict String Json}
    (valid : (Json.ofDict manifest.inputSchema).accepts (Json.ofDict payload))
    : Honours manifest (handler payload) ↔ Suits python payload manifest.name := by
  simp only [features, List.mem_cons, List.not_mem_nil, or_false, Prod.mk.injEq] at registered
  rcases registered with
    ⟨rfl, rfl⟩ | ⟨rfl, rfl⟩ | ⟨rfl, rfl⟩ | ⟨rfl, rfl⟩ | ⟨rfl, rfl⟩
  · obtain ⟨source, given⟩ := text_of_accepts valid
    rw [honours_calculator_iff given]
    constructor
    · intro computes source' given'
      cases given.symm.trans given'
      exact computes
    · exact fun suits => suits source given
  · obtain ⟨text, given⟩ := text_of_accepts valid
    exact iff_of_true (honours_textStats given) trivial
  · exact honours_clock_iff valid
  · obtain ⟨name, given⟩ := text_of_accepts valid
    exact iff_of_true (honours_greet rfl given) trivial
  · obtain ⟨name, given⟩ := text_of_accepts valid
    exact iff_of_true (honours_greet rfl given) trivial

/-- A Python that knows two expressions, a sum and a product. -/
def plainPython : Python where
  powers :=
    {
      pow := fun _ _ => none
      isFinite_pow := nofun
      complexPow := fun _ _ => .error .overflow
    }
  parse := fun source =>
    match source with
    | "1+2" => .ok (.expression (.binOp (.constant (.int 1)) .add (.constant (.int 2))))
    | "1e308*10" =>
        .ok
          (.expression
            (.binOp (.constant (.float (Float.ofBits 0x7fe1ccf385ebc8a0))) .mult
              (.constant (.int 10))))
    | _ => .error (.syntaxError "invalid syntax (<unknown>, line 1)")
  frames := 900
  floatOfStr := fun _ => .error (.valueError "could not convert string to float")
  str := fun _ => ""
  now := fun _ => "2026-01-01T12:00:00.000000+00:00"

/-- The sum is answered as promised. -/
theorem plainPython_honours
    : Honours calculatorManifest
        (calculator plainPython (Dict.ofList [("expression", .str "1+2")])) := by
  refine (honours_iff_suits plainPython (.head _) (by decide)).mpr fun source given => ?_
  cases given
  refine Calculator.safeEval_settles_iff.mp (.inl ⟨.float (ofInt 1 + ofInt 2), rfl, ?_⟩)
  change (ofInt 1 + ofInt 2).isFinite = true
  decide +kernel

/-- The clock raises a `ValueError` at 24 hours, and the calculator returns an infinite product. -/
theorem plainPython_dishonours
    : let fullDay := Dict.ofList [("utc_offset_hours", Json.int 24)]
      let product := Dict.ofList [("expression", Json.str "1e308*10")]
      ((Json.ofDict clockManifest.inputSchema).accepts (Json.ofDict fullDay)
        ∧ ¬ Honours clockManifest (clock plainPython fullDay))
      ∧ (Json.ofDict calculatorManifest.inputSchema).accepts (Json.ofDict product)
      ∧ ¬ Honours calculatorManifest (calculator plainPython product) := by
  refine ⟨⟨by decide, fun honours => ?_⟩, by decide, fun honours => ?_⟩
  · have below : |value (ofInt 24)| < 24 - 1 / 7200000000 :=
      ((honours_clock_iff (by decide)).mp honours).2
    have full : value (ofInt 24) = 24 := by decide +kernel
    rw [full] at below
    norm_num at below
  · have finite : (PyNumber.float (Float.ofBits 0x7fe1ccf385ebc8a0 * ofInt 10)).IsReal :=
      (isAnswer_result_iff _).mp honours
    have infinite : ¬ (Float.ofBits 0x7fe1ccf385ebc8a0 * ofInt 10).isFinite := by decide +kernel
    exact infinite finite

end Samples

end AgentFeatures
