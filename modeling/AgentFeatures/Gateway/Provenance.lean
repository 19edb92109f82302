import AgentFeatures.Gateway.DevGateway
import AgentFeatures.Gateway.Signing

/-! The provenance of features: at a release the manifests of the samples are exported and
signed; at runtime the gateway says whether what it serves is what was signed.
-/

namespace AgentFeatures

open Library

-----------------------------------------------------------------------------------------
-- A manifest as JSON
-----------------------------------------------------------------------------------------

/-- The values of the enumerations. -/
def Visibility.value : Visibility → String
  | .public => "public"
  | .internal => "internal"
  | .private => "private"

def Protocol.value : Protocol → String
  | .grpc => "grpc"
  | .http => "http"

def TrustTier.value : TrustTier → String
  | .official => "official"
  | .verified => "verified"
  | .community => "community"

/-- `manifest.model_dump(mode="json")`. -/
def Manifest.modelDump (manifest : Manifest) : Dict String Json where
  entries := [
    ("name", .str manifest.name),
    ("version", .str manifest.version),
    ("description", .str manifest.description),
    ("tags", .arr (manifest.tags.map .str)),
    ("input_schema", .ofDict manifest.inputSchema),
    ("output_schema", .ofDict manifest.outputSchema),
    ("visibility", .str manifest.visibility.value),
    ("protocol", .str manifest.protocol.value),
    ("vendor", .str manifest.vendor),
    ("capability", .str manifest.capability),
    ("trust", .str manifest.trust.value)
  ]
  nodup := by simp

/-- The schemas of a manifest are JSON documents. -/
structure Manifest.Documented (manifest : Manifest) : Prop where
  inputSchema : (Json.ofDict manifest.inputSchema).IsDocument
  outputSchema : (Json.ofDict manifest.outputSchema).IsDocument

/-- Manifests that are equal but for the order of names in their schemas. -/
structure Manifest.Same (left right : Manifest) : Prop where
  fields
    : { left with inputSchema := right.inputSchema, outputSchema := right.outputSchema } = right
  inputSchema : (Json.ofDict left.inputSchema).SameUpToOrder (.ofDict right.inputSchema)
  outputSchema : (Json.ofDict left.outputSchema).SameUpToOrder (.ofDict right.outputSchema)

theorem Visibility.value_inj {left right : Visibility}
    : left.value = right.value ↔ left = right := by
  cases left <;> cases right <;> decide

theorem Protocol.value_inj {left right : Protocol} : left.value = right.value ↔ left = right := by
  cases left <;> cases right <;> decide

theorem TrustTier.value_inj {left right : TrustTier}
    : left.value = right.value ↔ left = right := by
  cases left <;> cases right <;> decide

/-- The dump of a manifest with documented schemas is a document. -/
theorem Manifest.isDocument_modelDump {manifest : Manifest} (documented : manifest.Documented)
    : (Json.ofDict manifest.modelDump).IsDocument := by
  refine .obj manifest.modelDump.nodup ?_
  have tags : (Json.arr (manifest.tags.map .str)).IsDocument := by
    refine .arr fun item member => ?_
    obtain ⟨tag, -, rfl⟩ := List.mem_map.mp member
    exact .str tag
  simp [modelDump, Json.IsDocument.str, tags, documented.inputSchema, documented.outputSchema]

/-- Manifests have the same dump up to order only when they are the same. -/
theorem Manifest.sameUpToOrder_modelDump_iff {left right : Manifest}
    : (Json.ofDict left.modelDump).SameUpToOrder (.ofDict right.modelDump)
      ↔ left.Same right := by
  have names : left.modelDump.entries.map Prod.fst = right.modelDump.entries.map Prod.fst := rfl
  refine (Json.sameUpToOrder_obj_iff names left.modelDump.nodup).trans ?_
  simp only [modelDump, List.forall₂_cons, List.forall₂_nil_left_iff, and_true,
    Json.sameUpToOrder_str_iff, Json.sameUpToOrder_strings_iff, Visibility.value_inj,
    Protocol.value_inj, TrustTier.value_inj]
  constructor
  · rintro ⟨name, version, description, tags, input, output, visibility, protocol, vendor,
      capability, trust⟩
    exact ⟨by cases left; cases right; simp_all, input, output⟩
  · rintro ⟨fields, input, output⟩
    rw [← fields]
    exact ⟨rfl, rfl, rfl, rfl, input, output, rfl, rfl, rfl, rfl, rfl⟩

-----------------------------------------------------------------------------------------
-- Files
-----------------------------------------------------------------------------------------

namespace Signing

/-- The files of a machine, by path. -/
abbrev Files := Dict String ByteArray

/-- `os.unlink`. -/
def Files.unlink (files : Files) (path : String) : Files where
  entries := files.entries.filter fun entry => entry.1 ≠ path
  nodup := files.nodup.sublist (List.filter_sublist.map Prod.fst)

/-- `os.path.join`. -/
def joinPath (directory path : String) : String :=
  if path.toList.head? = some '/' then path
  else if directory = "" ∨ directory.toList.getLast? = some '/' then directory ++ path
  else directory ++ "/" ++ path

-----------------------------------------------------------------------------------------
-- The release
-----------------------------------------------------------------------------------------

variable (numbers : Numbers)

/-- `main` of the export script, over a catalog. -/
def exportManifests (catalog : Catalog) (outDir : String) (files : Files) : Files :=
  catalog.list.foldl
    (fun files feature =>
      files.set (joinPath outDir (feature.manifest.name ++ ".json"))
        (canonicalBytes numbers feature.manifest.modelDump))
    files

/-- The name of a file that `*` matches in its directory. -/
def Plain (name : String) : Prop :=
  '/' ∉ name.toList ∧ (name ++ ".json").toList.head? ≠ some '.'

instance (name : String) : Decidable (Plain name) := inferInstanceAs (Decidable (_ ∧ _))

/-- `$(basename "$m" .json)` for an `m` that `manifests/*.json` matches. -/
def globbed? (path : String) : Option String :=
  let name := String.ofList ((path.toList.drop 10).take (path.toList.length - 15))
  if path = "manifests/" ++ name ++ ".json" ∧ Plain name then some name else none

variable (signBlob : ByteArray → ByteArray)

/-- Signs a manifest into its bundle; `signBlob` is what `cosign sign-blob` makes of a blob. -/
def signManifest (files : Files) (name : String) : Files :=
  match files.get? ("manifests/" ++ name ++ ".json") with
  | some blob => files.set ("signatures/" ++ name ++ ".bundle") (signBlob blob)
  | none => files

/-- Signs each exported manifest. -/
def signManifests (files : Files) : Files :=
  (files.keys.filterMap globbed?).foldl (signManifest signBlob) files

-----------------------------------------------------------------------------------------
-- Verification
-----------------------------------------------------------------------------------------

/-- The environment of a deployed gateway. -/
structure Settings where
  signaturesDir : String := "signatures"
  signingIdentity : String := ""
  signingOidcIssuer : String := "https://token.actions.githubusercontent.com"

/-- The machine of a deployed gateway. `run` is the exit code of a subprocess over the files, none
when it cannot be started or takes too long; `tempName` is the path that `NamedTemporaryFile`
takes.
-/
structure Host where
  cosignAvailable : Bool
  run : List String → Files → Option Int
  tempName : Files → String

/-- A signature status. -/
inductive SignatureStatus where
  | unsigned
  | unverified
  | failed
  | verified
deriving DecidableEq

/-- What is said of a feature's signature. -/
structure SignatureReport where
  feature : String
  digest : String
  algorithm : String := "sha256"
  issuer : String
  command : String := ""
  signed : Bool := false
  status : SignatureStatus := .unsigned
  reason : Option String := none

variable (settings : Settings)

/-- The bundle's path for a name, or none if it is unknown. -/
def resolveBundle (name : String) (knownNames : List String) : Option String :=
  let allowed :=
    Dict.ofList (knownNames.map fun n => (n, joinPath settings.signaturesDir (n ++ ".bundle")))
  allowed.get? name

/-- The command that a reader may run. -/
def verifyCommand (bundle : String) : String :=
  "cosign verify-blob "
    ++ "--bundle " ++ bundle ++ " "
    ++ "--certificate-identity "
    ++ (if settings.signingIdentity = "" then "<expected-identity>" else settings.signingIdentity)
    ++ " "
    ++ "--certificate-oidc-issuer " ++ settings.signingOidcIssuer ++ " <manifest.json>"

/-- The arguments of the subprocess. -/
def verifyArguments (bundle blob : String) : List String :=
  ["cosign", "verify-blob", "--bundle", bundle, "--certificate-oidc-issuer",
    settings.signingOidcIssuer]
    ++ (if settings.signingIdentity = "" then []
        else ["--certificate-identity", settings.signingIdentity])
    ++ [blob]

variable (sha256 : ByteArray → String) (host : Host)

/-- Reports the signature status of a feature's manifest, with the files it leaves. -/
def verify (feature : String) (manifest : Dict String Json) (bundle : Option String)
    (files : Files)
    : SignatureReport × Files :=
  let base : SignatureReport :=
    { feature
      digest := manifestDigest sha256 numbers manifest
      issuer := settings.signingOidcIssuer }
  match given bundle with
  | none => (base, files)
  | some bundle =>
      let base := { base with command := verifyCommand settings bundle }
      if (files.get? bundle).isNone then (base, files)
      else if host.cosignAvailable = false then
        ({ base with
            signed := true
            status := .unverified
            reason := some "cosign is not available in this environment" },
          files)
      else
        let blob := host.tempName files
        let files := files.set blob (canonicalBytes numbers manifest)
        let proc := host.run (verifyArguments settings bundle blob) files
        let files := Files.unlink files blob
        match proc with
        | none =>
            ({ base with
                signed := true
                status := .unverified
                reason := some "cosign verification could not run" },
              files)
        | some returncode =>
            ({ base with
                signed := true
                status := if returncode = 0 then .verified else .failed },
              files)

/-- `GET /features/{name}/signature`. -/
def featureSignature (catalog : Catalog) (name : String) (files : Files)
    : Except Fault SignatureReport × Files :=
  match catalog.get name with
  | none => (.error (.http 404 (.text s!"unknown feature: {name}")), files)
  | some feature =>
      let known := catalog.list.map fun f => f.manifest.name
      let bundle := resolveBundle settings feature.manifest.name known
      let (report, files) :=
        verify numbers settings sha256 host feature.manifest.name feature.manifest.modelDump bundle
          files
      (.ok report, files)

-----------------------------------------------------------------------------------------
-- What a release leaves behind
-----------------------------------------------------------------------------------------

/-- A file that is written to a fresh path and unlinked leaves the files as they were. -/
theorem unlink_set {files : Files} {path : String} (fresh : files.get? path = none)
    (bytes : ByteArray)
    : Files.unlink (files.set path bytes) path = files := by
  have absent := Dict.get?_eq_none_iff.mp fresh
  have others (entry : String × ByteArray) (member : entry ∈ files.entries) : entry.1 ≠ path :=
    fun same => absent (same ▸ List.mem_map_of_mem member)
  refine Dict.ext ?_
  simp only [Files.unlink, Dict.entries_set_of_not_mem absent, List.filter_append]
  simpa using fun name bytes member => others (name, bytes) member

theorem globbed?_eq_some_iff {path name : String}
    : globbed? path = some name ↔ path = "manifests/" ++ name ++ ".json" ∧ Plain name := by
  constructor
  · intro found
    simp only [globbed?] at found
    split at found
    · next holds =>
        cases found
        exact holds
    · cases found
  · rintro ⟨rfl, plain⟩
    have middle : String.ofList
        ((("manifests/" ++ name ++ ".json").toList.drop 10).take
          (("manifests/" ++ name ++ ".json").toList.length - 15)) = name := by
      simp
    simp only [globbed?, middle, plain, and_self, if_true]

/-- Plain names are exported into the directory of manifests. -/
theorem joinPath_plain {name : String} (plain : Plain name)
    : joinPath "manifests" (name ++ ".json") = "manifests/" ++ name ++ ".json" := by
  have inside : (name ++ ".json").toList.head? ≠ some '/' := by
    rw [String.toList_append]
    cases start : name.toList with
    | nil => simp
    | cons c rest =>
        rintro first
        cases first
        exact plain.1 (start ▸ List.mem_cons_self)
  have open' : ("manifests" : String).toList.getLast? ≠ some '/' := by decide
  simp only [joinPath, inside, open', if_false, or_false]
  simp [String.append_assoc]

theorem bundlePath_inj {name other : String}
    : "signatures/" ++ name ++ ".bundle" = "signatures/" ++ other ++ ".bundle" ↔ name = other := by
  simp

/-- A checkout without exported manifests and without bundles. -/
structure Clean (checkout : Files) : Prop where
  manifests : ∀ path ∈ checkout.keys, globbed? path = none
  bundles : ∀ path ∈ checkout.keys, ∀ name, path ≠ "signatures/" ++ name ++ ".bundle"

variable {numbers : Numbers} {signBlob : ByteArray → ByteArray}

/-- Signing a manifest leaves every other file as it is. -/
theorem get?_signManifest_ne {files : Files} {name path : String}
    (other : path ≠ "signatures/" ++ name ++ ".bundle")
    : (signManifest signBlob files name).get? path = files.get? path := by
  simp only [signManifest]
  split
  · exact Dict.get?_set_ne _ _ other
  · rfl

/-- No manifest is a bundle. -/
theorem manifest_ne_bundle (name other : String)
    : "manifests/" ++ name ++ ".json" ≠ "signatures/" ++ other ++ ".bundle" := by
  intro same
  have texts := congrArg String.toList same
  simp at texts

/-- Signing the manifests of some names leaves every file but their bundles as it is, by induction
on the names.
-/
theorem get?_foldl_signManifest_ne {names : List String} {files : Files} {path : String}
    (others : ∀ name ∈ names, path ≠ "signatures/" ++ name ++ ".bundle")
    : (names.foldl (signManifest signBlob) files).get? path = files.get? path := by
  induction names generalizing files with
  | nil => rfl
  | cons name rest ih =>
      rw [List.foldl_cons, ih fun other member => others other (List.mem_cons_of_mem _ member)]
      exact get?_signManifest_ne (others name List.mem_cons_self)

/-- Each of the names gets the bundle of its manifest, by induction on the names. -/
theorem get?_foldl_signManifest {names : List String} {files : Files} {name : String}
    {blob : ByteArray} (member : name ∈ names)
    (exported : files.get? ("manifests/" ++ name ++ ".json") = some blob)
    : (names.foldl (signManifest signBlob) files).get? ("signatures/" ++ name ++ ".bundle")
      = some (signBlob blob) := by
  induction names generalizing files with
  | nil => exact absurd member List.not_mem_nil
  | cons first rest ih =>
      rw [List.foldl_cons]
      have kept : (signManifest signBlob files first).get? ("manifests/" ++ name ++ ".json")
          = some blob :=
        (get?_signManifest_ne (manifest_ne_bundle name first)).trans exported
      by_cases later : name ∈ rest
      · exact ih later kept
      · have same : name = first := (List.mem_cons.mp member).resolve_right later
        have others (other : String) (inRest : other ∈ rest)
            : "signatures/" ++ name ++ ".bundle" ≠ "signatures/" ++ other ++ ".bundle" := by
          intro alike
          rw [bundlePath_inj] at alike
          exact later (alike ▸ inRest)
        rw [get?_foldl_signManifest_ne others, ← same]
        simp only [signManifest, exported]
        exact Dict.get?_set_self ..

variable (numbers) in
/-- The exported files come after the checkout, one for each feature. -/
theorem entries_exportManifests {catalog : Catalog} {checkout : Files} (clean : Clean checkout)
    (plain : ∀ feature ∈ catalog.list, Plain feature.manifest.name)
    (distinct : (catalog.list.map fun feature => feature.manifest.name).Nodup)
    : (exportManifests numbers catalog "manifests" checkout).entries
      = checkout.entries
        ++ catalog.list.map fun feature =>
            ("manifests/" ++ feature.manifest.name ++ ".json",
              canonicalBytes numbers feature.manifest.modelDump) := by
  let exported (feature : Feature) : String × ByteArray :=
    ("manifests/" ++ feature.manifest.name ++ ".json",
      canonicalBytes numbers feature.manifest.modelDump)
  have paths : exportManifests numbers catalog "manifests" checkout
      = (catalog.list.map exported).foldl (fun files file => files.set file.1 file.2) checkout := by
    rw [List.foldl_map]
    refine List.foldl_ext _ _ _ fun files feature member => ?_
    rw [joinPath_plain (plain feature member)]
  rw [paths]
  refine Dict.entries_foldl_set _ _ ?_
  rw [List.map_map, List.nodup_append]
  refine ⟨checkout.nodup, ?_, ?_⟩
  · have injective : Function.Injective fun name : String => "manifests/" ++ name ++ ".json" :=
      fun name other same => by simpa using same
    have := distinct.map injective
    rwa [List.map_map] at this
  · rintro path present other member rfl
    obtain ⟨feature, listed, rfl⟩ := List.mem_map.mp member
    have hidden := clean.manifests _ present
    have shown : globbed? (exported feature).1 = some feature.manifest.name :=
      globbed?_eq_some_iff.mpr ⟨rfl, plain feature listed⟩
    cases hidden.symm.trans shown


variable (numbers signBlob) in
/-- What the release makes of a checkout. -/
def release (catalog : Catalog) (checkout : Files) : Files :=
  signManifests signBlob (exportManifests numbers catalog "manifests" checkout)

/-- A release leaves one bundle for each feature, which is made of its manifest. -/
theorem get?_release {catalog : Catalog} {checkout : Files} (clean : Clean checkout)
    (plain : ∀ feature ∈ catalog.list, Plain feature.manifest.name)
    (distinct : (catalog.list.map fun feature => feature.manifest.name).Nodup) (name : String)
    : (release numbers signBlob catalog checkout).get? ("signatures/" ++ name ++ ".bundle")
      = (catalog.list.find? fun feature => feature.manifest.name = name).map fun feature =>
          signBlob (canonicalBytes numbers feature.manifest.modelDump) := by
  have entries := entries_exportManifests numbers clean plain distinct
  let files := exportManifests numbers catalog "manifests" checkout
  have names : files.keys.filterMap globbed?
      = catalog.list.map fun feature => feature.manifest.name := by
    have none : (checkout.entries.map Prod.fst).filterMap globbed? = [] :=
      List.filterMap_eq_nil_iff.mpr clean.manifests
    simp only [files, Dict.keys, entries, List.map_append, List.filterMap_append, none,
      List.nil_append, List.map_map, List.filterMap_map]
    refine (List.filterMap_congr fun feature listed => ?_).trans
      (congrFun List.filterMap_eq_map catalog.list)
    exact globbed?_eq_some_iff.mpr ⟨rfl, plain feature listed⟩
  have unsigned : files.get? ("signatures/" ++ name ++ ".bundle") = none := by
    refine Dict.get?_eq_none_iff.mpr fun present => ?_
    simp only [files, Dict.keys, entries, List.map_append, List.mem_append, List.map_map] at present
    rcases present with checkedOut | exported
    · exact clean.bundles _ checkedOut name rfl
    · obtain ⟨feature, -, same⟩ := List.mem_map.mp exported
      exact manifest_ne_bundle _ _ same
  simp only [release, signManifests]
  rw [show exportManifests numbers catalog "manifests" checkout = files from rfl, names]
  cases found : catalog.list.find? fun feature => feature.manifest.name = name with
  | none =>
      rw [get?_foldl_signManifest_ne, unsigned, Option.map_none]
      intro other member same
      obtain ⟨feature, listed, rfl⟩ := List.mem_map.mp member
      have differs := List.find?_eq_none.mp found feature listed
      exact differs (decide_eq_true (bundlePath_inj.mp same).symm)
  | some feature =>
      have listed := List.mem_of_find?_eq_some found
      have named : feature.manifest.name = name := by simpa using List.find?_some found
      refine get?_foldl_signManifest (named ▸ List.mem_map_of_mem listed) ?_
      refine Dict.get?_eq_some_iff.mpr ?_
      simp only [files, entries]
      refine List.mem_append_right _ (List.mem_map.mpr ⟨feature, listed, by rw [named]⟩)

end Signing

end AgentFeatures
