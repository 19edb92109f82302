import AgentFeatures.AgentDsl.Casing
import AgentFeatures.AgentDsl.Composites

/-! Generated code against its template with all placeholders replaced at once. -/

namespace AgentFeatures

open Library
open Library.Substitution

namespace AgentDsl

variable {py : TextFunctions} {composite : Composite} {language : Language}

-----------------------------------------------------------------------------------------
-- The table of values
-----------------------------------------------------------------------------------------

/-- The values for the placeholders of a language, if Python can compute them. -/
def table (py : TextFunctions) (composite : Composite) (language : Language)
    : Option (List (Token × Text)) :=
  (compositeProps composite).bind fun props => subs py composite props language

theorem codegen_eq {lang : String} (supported : Language.ofName? (unaliased lang) = some language)
    : codegen py composite lang
      = (table py composite language).map fun subs =>
          substituteAll Token.spell subs (fill Token.spell language.template) := by
  simp only [codegen, supported, table, Option.map_bind]
  rfl

/-- The placeholder that only one language has. -/
def Language.fieldToken? : Language → Option Token
  | js | java => none
  | ts => some .tsFields
  | go => some .goFields
  | rust => some .rsFields
  | proto => some .protoIn

def commonTokens : List Token := [.name, .desc, .camel, .pascal, .snake, .fields, .outs]

/-- The placeholders with a value for the language, in the order of their replacement. -/
def Language.tokens (language : Language) : List Token :=
  commonTokens ++ language.fieldToken?.toList

theorem nodup_tokens (language : Language) : language.tokens.Nodup := by
  cases language <;> decide

/-- Every placeholder of a template has a value. -/
theorem mem_tokens_of_hole {token : Token} (inTemplate : .hole token ∈ language.template)
    : token ∈ language.tokens := by
  cases language <;> cases token <;> first | decide | exact absurd inTemplate (by decide)

/-- The value of the language's own placeholder, if it has one. -/
theorem map_fst_of_fieldSubs {props : List (String × Json)} {extra : List (Token × Text)}
    (made : fieldSubs py props language = some extra)
    : extra.map Prod.fst = language.fieldToken?.toList := by
  cases language with
  | js | java =>
      cases made
      rfl
  | ts | go | rust | proto =>
      obtain ⟨fields, -, rfl⟩ := Option.map_eq_some_iff.mp made
      rfl

/-- A table is made of the common values and that of the language. -/
theorem exists_of_table {subs : List (Token × Text)}
    (made : table py composite language = some subs)
    : ∃ props extra,
        compositeProps composite = some props
        ∧ fieldSubs py props language = some extra
        ∧ subs = commonSubs py composite props ++ extra := by
  obtain ⟨props, known, completed⟩ := Option.bind_eq_some_iff.mp made
  obtain ⟨extra, fields, rfl⟩ := Option.map_eq_some_iff.mp completed
  exact ⟨props, extra, known, fields, rfl⟩

theorem map_fst_of_table {subs : List (Token × Text)}
    (made : table py composite language = some subs)
    : subs.map Prod.fst = language.tokens := by
  obtain ⟨props, extra, -, fields, rfl⟩ := exists_of_table made
  simp only [List.map_append, map_fst_of_fieldSubs fields]
  rfl

-----------------------------------------------------------------------------------------
-- Values that no replacement changes
-----------------------------------------------------------------------------------------

theorem not_mem_commonTokens {token : Token} (own : token ∈ language.fieldToken?.toList)
    : token ∉ commonTokens := by
  have disjoint := (List.nodup_append.mp (nodup_tokens language)).2.2
  exact fun common => disjoint token common token own rfl

/-- Nothing comes after the language's own placeholder in its tokens. -/
theorem eq_nil_of_tokens_eq {token : Token} {before after : List Token}
    (split : language.tokens = before ++ token :: after) (own : token ∉ commonTokens)
    : after = [] := by
  have atMostOne : language.fieldToken?.toList.length ≤ 1 := by cases language <;> decide
  rcases List.append_eq_append_iff.mp split with ⟨gap, -, rest⟩ | ⟨gap, common, rest⟩
  · simp only [rest, List.length_append, List.length_cons] at atMostOne
    exact List.eq_nil_of_length_eq_zero (by omega)
  · cases gap with
    | nil =>
        rw [← List.nil_append language.fieldToken?.toList, ← rest, List.length_cons] at atMostOne
        exact List.eq_nil_of_length_eq_zero (by omega)
    | cons first gap =>
        obtain ⟨rfl, -⟩ := List.cons.inj rest
        exact absurd (common ▸ List.mem_append_right _ List.mem_cons_self) own

/-- The value of the language's own placeholder is replaced last. -/
theorem keepsValue_own {subs : List (Token × Text)}
    (made : table py composite language = some subs) {token : Token}
    (own : token ∉ commonTokens)
    : KeepsValue Token.spell subs token := by
  intro before value after split
  have keys := map_fst_of_table made
  simp only [split, List.map_append, List.map_cons] at keys
  simp only [List.map_eq_nil_iff.mp (eq_nil_of_tokens_eq keys.symm own)]
  rfl

/-- The value of a converted name has no placeholder in it. -/
theorem keepsValue_converted {subs : List (Token × Text)}
    (made : table py composite language = some subs) {token : Token}
    (converted : token ∈ [Token.camel, .pascal, .snake])
    : KeepsValue Token.spell subs token := by
  obtain ⟨props, extra, -, fields, rfl⟩ := exists_of_table made
  intro before value after split
  have member : (token, value) ∈ commonSubs py composite props := by
    have inAll : (token, value) ∈ commonSubs py composite props ++ extra := by simp [split]
    refine (List.mem_append.mp inAll).resolve_right fun inExtra => ?_
    have own : token ∈ extra.map Prod.fst := List.mem_map_of_mem inExtra
    simp only [map_fst_of_fieldSubs fields] at own
    have common : ∀ token ∈ [Token.camel, .pascal, .snake], token ∈ commonTokens := by decide
    exact not_mem_commonTokens own (common token converted)
  have plain : Unmarked value := by
    simp only [List.mem_cons, List.not_mem_nil, or_false] at converted
    rcases converted with rfl | rfl | rfl <;>
      simp only [commonSubs, List.mem_cons, Prod.mk.injEq, reduceCtorEq, false_and, false_or,
        true_and, List.not_mem_nil, or_false] at member
    · exact member ▸ unmarked_camel _
    · exact member ▸ unmarked_pascal _
    · exact member ▸ unmarked_snake _
  exact substituteAll_of_absent fun entry _ => plain entry.1

/-- Tokens whose values no other replacement changes. -/
def settledTokens : List Token :=
  [.camel, .pascal, .snake, .tsFields, .goFields, .rsFields, .protoIn]

theorem keepsValue_settled {subs : List (Token × Text)}
    (made : table py composite language = some subs) {token : Token}
    (settled : token ∈ settledTokens)
    : KeepsValue Token.spell subs token := by
  by_cases common : token ∈ commonTokens
  · have converted : ∀ token ∈ settledTokens,
        token ∈ commonTokens → token ∈ [Token.camel, .pascal, .snake] := by
      decide
    exact keepsValue_converted made (converted token settled common)
  · exact keepsValue_own made common

-----------------------------------------------------------------------------------------
-- Verbatim code
-----------------------------------------------------------------------------------------

/-- The generated code is the language's template with all placeholders replaced by their values
at once; none of them is left over.
-/
def Verbatim (py : TextFunctions) (composite : Composite) (lang : String) (language : Language)
    : Prop :=
  ∃ subs,
    table py composite language = some subs
    ∧ codegen py composite lang = some (simultaneous Token.spell subs language.template)
    ∧ ∀ token, .hole token ∈ language.template → token ∈ subs.map Prod.fst

/-- The values exist, and the later replacements leave each value that the template shows. -/
def ValuesKept (py : TextFunctions) (composite : Composite) (language : Language) : Prop :=
  ∃ subs,
    table py composite language = some subs ∧ Keeps Token.spell subs language.template

/-- No text that the templates show as it is has a line feed. -/
structure OneLine (composite : Composite) : Prop where
  name : '\n' ∉ composite.name.toList
  description : '\n' ∉ composite.description.toList
  inputs
    : ∀ props, compositeProps composite = some props → ∀ field ∈ props, '\n' ∉ field.1.toList
  outputs : ∀ key ∈ composite.output.keys, '\n' ∉ key.toList

theorem mem_of_mem_orText {c : Char} {text other : Text} (member : c ∈ orText text other)
    : c ∈ text ∨ c ∈ other := by
  simp only [orText] at member
  split at member
  · exact .inr member
  · exact .inl member

/-- A joined text has the characters of its words and of the separator, by list induction. -/
theorem mem_of_mem_join {sep : String} {c : Char} {words : List Text}
    (member : c ∈ join sep words)
    : c ∈ sep.toList ∨ ∃ word ∈ words, c ∈ word := by
  induction words with
  | nil => exact absurd member List.not_mem_nil
  | cons first rest ih =>
      cases rest with
      | nil =>
          simp only [join, List.intercalate_singleton] at member
          exact .inr ⟨first, List.mem_cons_self, member⟩
      | cons next others =>
          simp only [join, List.intercalate_cons_cons, List.append_assoc,
            List.mem_append] at member
          rcases member with inFirst | inSep | later
          · exact .inr ⟨first, List.mem_cons_self, inFirst⟩
          · exact .inl inSep
          · refine (ih later).imp_right fun found => ?_
            obtain ⟨word, inRest, inWord⟩ := found
            exact ⟨word, List.mem_cons_of_mem _ inRest, inWord⟩

/-- A list of one-line texts joined by commas, or its replacement, is on one line. -/
theorem oneLine_list {words : List Text} (oneLine : ∀ word ∈ words, '\n' ∉ word) {other : Text}
    (oneLine' : '\n' ∉ other)
    : '\n' ∉ orText (join ", " words) other := by
  intro member
  rcases mem_of_mem_orText member with joined | isOther
  · rcases mem_of_mem_join joined with inSep | ⟨word, inWords, inWord⟩
    · exact absurd inSep (by decide)
    · exact oneLine word inWords inWord
  · exact oneLine' isOther

/-- The values of a composite on one line are on one line, but for those of settled tokens. -/
theorem OneLine.shownValue {subs : List (Token × Text)} (oneLine : OneLine composite)
    (made : table py composite language = some subs) {token : Token}
    (unsettled : token ∉ settledTokens)
    : '\n' ∉ shownValue Token.spell subs token := by
  obtain ⟨props, extra, known, -, rfl⟩ := exists_of_table made
  have shown : token ∈ [Token.name, .desc, .fields, .outs] := by
    cases token <;> first | decide | exact absurd (by decide) unsettled
  simp only [List.mem_cons, List.not_mem_nil, or_false] at shown
  rcases shown with rfl | rfl | rfl | rfl
  · exact oneLine.name
  · intro member
    rcases mem_of_mem_orText member with inText | absent
    · exact oneLine.description inText
    · exact absurd absent (by decide)
  · refine oneLine_list ?_ (by decide)
    exact List.forall_mem_map.mpr (oneLine.inputs props known)
  · refine oneLine_list ?_ (by decide)
    exact List.forall_mem_map.mpr oneLine.outputs

/-- Kept values make the replacements one after another a simultaneous one. -/
theorem verbatim_of_valuesKept {lang : String}
    (supported : Language.ofName? (unaliased lang) = some language)
    (kept : ValuesKept py composite language)
    : Verbatim py composite lang language := by
  obtain ⟨subs, made, keeps⟩ := kept
  have keys := map_fst_of_table made
  refine ⟨subs, made, ?_, fun token inTemplate => keys ▸ mem_tokens_of_hole inTemplate⟩
  simp only [codegen_eq supported, made, Option.map_some, substituteAll_eq_simultaneous spelling
    (keys ▸ nodup_tokens language) (sealed_template language) keeps]

/-- The templates end a line after the first hole of each token that is not settled. -/
theorem readable_template (language : Language)
    : readable '\n' settledTokens language.template := by
  cases language <;> decide +kernel

/-- On one line, code is verbatim only if the values are kept. Witness: the holes show as many
line feeds as their values, so the code can be read back line by line.
-/
theorem valuesKept_of_verbatim {lang : String}
    (supported : Language.ofName? (unaliased lang) = some language) (oneLine : OneLine composite)
    (verbatim : Verbatim py composite lang language)
    : ValuesKept py composite language := by
  obtain ⟨subs, made, generated, -⟩ := verbatim
  have distinct : (subs.map Prod.fst).Nodup := map_fst_of_table made ▸ nodup_tokens language
  simp only [codegen_eq supported, made, Option.map_some, Option.some.injEq,
    substituteAll_fill spelling (sealed_template language), simultaneous] at generated
  have settled : ∀ token ∈ settledTokens,
      substituteAll Token.spell subs token.spell = shownValue Token.spell subs token :=
    fun token isSettled => (keepsValue_iff spelling distinct).mp (keepsValue_settled made isSettled)
  have atLeast : ∀ token, .hole token ∈ language.template
      → (shownValue Token.spell subs token).count '\n'
        ≤ (substituteAll Token.spell subs token.spell).count '\n' := by
    intro token _
    by_cases isSettled : token ∈ settledTokens
    · rw [settled token isSettled]
    · simp only [List.count_eq_zero.mpr (oneLine.shownValue made isSettled)]
      exact Nat.zero_le _
  have counts := count_eq_of_fill_eq atLeast generated
  refine ⟨subs, made, fun token inTemplate => (keepsValue_iff spelling distinct).mpr ?_⟩
  refine eq_of_fill_eq (readable_template language) settled ?_ generated token inTemplate
  intro token inTemplate unsettled
  have flat := oneLine.shownValue made unsettled
  refine ⟨List.count_eq_zero.mp ?_, flat⟩
  simp only [counts token inTemplate, List.count_eq_zero.mpr flat]

/-- The properties of what was declared are the declared inputs. -/
theorem compositeProps_composite (state : ParseState)
    : compositeProps state.composite = some state.props.entries := by
  simp [compositeProps, ParseState.composite, get?_properties_inputSchema, Json.ofDict]

/-- What the parser accepts is on one line. -/
theorem oneLine_of_accepted {text : String} (accepted : (parse text).1 = some composite)
    : OneLine composite := by
  obtain ⟨state, regular, named, ⟨name, isName⟩, rfl⟩ := exists_named accepted
  have flat (name : Name) : '\n' ∉ name.string.toList := by
    intro member
    simp only [Word.string, String.toList_ofList] at member
    exact absurd (isNameChar_of_mem name member) (by decide)
  refine ⟨?_, ?_, ?_, ?_⟩
  · have isFlat := flat name
    rwa [← isName] at isFlat
  · exact fun member => absurd (regular.description _ member) (by decide)
  · intro props known field member
    simp only [compositeProps_composite, Option.some.injEq] at known
    obtain ⟨name, same⟩ := named.inputs field.1 (List.mem_map_of_mem (known ▸ member))
    exact same ▸ flat name
  · intro key member
    obtain ⟨name, same⟩ := named.outputs key member
    exact same ▸ flat name

/-- Kept values make the code verbatim; where the composite's texts are on one line, as all are
that the parser accepts, nothing else does.
-/
theorem codegen_verbatim_iff (py : TextFunctions) (composite : Composite) {lang : String}
    {language : Language} (supported : Language.ofName? (unaliased lang) = some language)
    : (ValuesKept py composite language → Verbatim py composite lang language)
      ∧ (OneLine composite
          → (Verbatim py composite lang language ↔ ValuesKept py composite language))
      ∧ ∀ text,
          (parse text).1 = some composite
          → (Verbatim py composite lang language ↔ ValuesKept py composite language) := by
  have onlyKept (oneLine : OneLine composite)
      : Verbatim py composite lang language ↔ ValuesKept py composite language :=
    ⟨valuesKept_of_verbatim supported oneLine, verbatim_of_valuesKept supported⟩
  exact ⟨verbatim_of_valuesKept supported, onlyKept,
    fun text accepted => onlyKept (oneLine_of_accepted accepted)⟩

/-- An agent whose name and fields hold no placeholder. -/
def greeter : Composite where
  name := "greet-report"
  capability := "greet-report"
  description := "Greet someone."
  inputSchema := inputSchema (Dict.ofList [("name", .obj [("type", .str "string")])]) ["name"]
  output := Dict.ofList [("greeting", "greeting.greeting")]
  defaultCapability := id

/-- The code of that agent is verbatim. -/
theorem greeter_verbatim : Verbatim asciiText greeter "typescript" .ts := by
  refine (codegen_verbatim_iff asciiText greeter rfl).1 ⟨_, rfl, keeps_of_pairwise ?_ _⟩
  decide +kernel

/-- An agent named like the placeholder of its outputs. -/
def outsAgent : String := "agent __OUTS__\nstep s = c()"

/-- The parser accepts the agent, and the code shows its missing outputs in place of its name. -/
theorem outsAgent_not_verbatim
    : ∃ composite,
        (parse outsAgent).1 = some composite
        ∧ ¬ Verbatim asciiText composite "js" .js := by
  have parsed : (parse outsAgent).1.map (fun composite => (composite.name, composite.output.keys))
      = some ("__OUTS__", []) := by
    decide +kernel
  obtain ⟨composite, accepted, declared⟩ := Option.map_eq_some_iff.mp parsed
  obtain ⟨name, outputs⟩ := Prod.mk.inj declared
  refine ⟨composite, accepted, fun verbatim => ?_⟩
  obtain ⟨subs, made, keeps⟩ :=
    valuesKept_of_verbatim rfl (oneLine_of_accepted accepted) verbatim
  obtain ⟨props, extra, -, fields, rfl⟩ := exists_of_table made
  cases fields
  have kept := keeps .name (by decide) [] _ _ rfl
  simp only [name, outputs] at kept
  have replaced : ∀ front : List (Token × Text),
      front.map Prod.fst = [.desc, .camel, .pascal, .snake, .fields]
      → substituteAll Token.spell (front ++ [(.outs, "(none)".toList)]) Token.outs.spell
        = "(none)".toList :=
    fun front keys => substituteAll_spell spelling (by rw [keys]; decide) _
  have shown : "(none)".toList = "__OUTS__".toList :=
    (replaced [_, _, _, _, _] rfl).symm.trans kept
  exact absurd shown (by decide)

end AgentDsl

end AgentFeatures
