import AgentFeatures.Gateway.Provenance

/-! What a signature status attests: whether the served manifest is the one that was signed. -/

namespace AgentFeatures

open Library

namespace Signing

/-- A signing service under the identity of the release: the bundle it makes of a blob, and the
blob that a bundle signs.
-/
structure Sigstore where
  signBlob : ByteArray → ByteArray
  Signs : ByteArray → ByteArray → Prop
  signs : ∀ blob, Signs (signBlob blob) blob
  unique : ∀ {bundle blob other}, Signs bundle blob → Signs bundle other → blob = other

namespace Host

/-- Run as the gateway does, `cosign verify-blob` exits with zero exactly when the bundle signs the
blob.
-/
def Verifies (host : Host) (settings : Settings) (sigstore : Sigstore) : Prop :=
  ∀ (files : Files) bundlePath blobPath code,
    host.run (verifyArguments settings bundlePath blobPath) files = some code
    → (code = 0
      ↔ ∃ bundle blob,
          files.get? bundlePath = some bundle
          ∧ files.get? blobPath = some blob
          ∧ sigstore.Signs bundle blob)

/-- A temporary file has a path of its own. -/
def Fresh (host : Host) : Prop := ∀ files : Files, files.get? (host.tempName files) = none

/-- There is a cosign that runs. -/
structure Runs (host : Host) : Prop where
  available : host.cosignAvailable = true
  run : ∀ argv files, (host.run argv files).isSome

end Host

variable {numbers : Numbers} {settings : Settings} {sha256 : ByteArray → String} {host : Host}
  {sigstore : Sigstore}

variable (numbers settings sha256) in
/-- Whatever comes of it, verifying leaves the files as they were. -/
theorem files_of_verify (fresh : host.Fresh) (feature : String) (manifest : Dict String Json)
    (bundle : Option String) (files : Files)
    : (verify numbers settings sha256 host feature manifest bundle files).2 = files := by
  have left := unlink_set (fresh files) (canonicalBytes numbers manifest)
  simp only [verify]
  split
  · rfl
  · split
    · rfl
    · split
      · rfl
      · split
        · exact left
        · exact left

/-- What the status says of the bundle at a path. -/
structure Attests (numbers : Numbers) (host : Host) (sigstore : Sigstore)
    (manifest : Dict String Json) (bundle : Option ByteArray) (status : SignatureStatus)
    : Prop where
  unsigned : status = .unsigned ↔ bundle = none
  unverified : status = .unverified → ¬ host.Runs
  verified
    : status = .verified
      → ∃ signed ∈ bundle, sigstore.Signs signed (canonicalBytes numbers manifest)
  failed
    : status = .failed
      → ∃ signed ∈ bundle, ¬ sigstore.Signs signed (canonicalBytes numbers manifest)

variable (numbers sha256) in
/-- The status attests the bundle at the path. Witness: the blob is written to a path of its own, so
the bundle stays as it is.
-/
theorem verify_attests (fresh : host.Fresh) (verifies : host.Verifies settings sigstore)
    (feature : String) (manifest : Dict String Json) {path : String} (named : path ≠ "")
    (files : Files)
    : Attests numbers host sigstore manifest (files.get? path)
        (verify numbers settings sha256 host feature manifest (some path) files).1.status := by
  have present : given (some path) = some path := by simp [given, named]
  simp only [verify, present]
  cases found : files.get? path with
  | none => exact ⟨by simp, by simp, by simp, by simp⟩
  | some bundle =>
      by_cases missing : host.cosignAvailable = false
      · have stays : ¬ host.Runs := fun runs => by simp [runs.available] at missing
        simp only [missing, Option.isNone_some, if_true]
        exact ⟨by simp, fun _ => stays, by simp, by simp⟩
      · simp only [missing, Option.isNone_some]
        let blob := host.tempName files
        let written := files.set blob (canonicalBytes numbers manifest)
        have other : path ≠ blob := fun same => by
          have := fresh files
          rw [← show path = host.tempName files from same, found] at this
          cases this
        have bundled : written.get? path = some bundle :=
          (Dict.get?_set_ne _ _ other).trans found
        have stored : written.get? blob = some (canonicalBytes numbers manifest) :=
          Dict.get?_set_self ..
        cases ran : host.run (verifyArguments settings path blob) written with
        | none =>
            have stays : ¬ host.Runs := fun runs => by
              have := runs.run (verifyArguments settings path blob) written
              simp [ran] at this
            exact ⟨by simp, fun _ => stays, by simp, by simp⟩
        | some code =>
            have exits : code = 0 ↔ sigstore.Signs bundle (canonicalBytes numbers manifest) := by
              rw [verifies _ _ _ _ ran]
              simp [bundled, stored]
            dsimp only
            by_cases zero : code = 0
            · have signed := exits.mp zero
              exact ⟨by simp [zero], by simp [zero], fun _ => ⟨bundle, rfl, signed⟩, by simp [zero]⟩
            · have unsigned := fun signed => zero (exits.mpr signed)
              exact ⟨by simp [zero], by simp [zero], by simp [zero],
                fun _ => ⟨bundle, rfl, unsigned⟩⟩

-----------------------------------------------------------------------------------------
-- From the release to the gateway
-----------------------------------------------------------------------------------------

/-- The bundle's path is one. -/
theorem joinPath_ne_empty (directory name : String)
    : joinPath directory (name ++ ".bundle") ≠ "" := by
  intro empty
  have texts := congrArg String.toList empty
  simp only [joinPath] at texts
  split at texts
  · simp at texts
  · split at texts <;> simp at texts

/-- A known name has its bundle in the directory of signatures. -/
theorem resolveBundle_known {name : String} {knownNames : List String} (known : name ∈ knownNames)
    : resolveBundle settings name knownNames
      = some (joinPath settings.signaturesDir (name ++ ".bundle")) := by
  let bundle (n : String) : String × String := (n, joinPath settings.signaturesDir (n ++ ".bundle"))
  have paths : ∀ entry ∈ (Dict.ofList (knownNames.map bundle)).entries, entry = bundle entry.1 := by
    refine Dict.forall_entries_ofList fun item member => ?_
    obtain ⟨n, -, rfl⟩ := List.mem_map.mp member
    rfl
  have stored : name ∈ (Dict.ofList (knownNames.map bundle)).keys :=
    Dict.mem_keys_ofList.mpr
      (List.mem_map_of_mem (f := Prod.fst) (List.mem_map_of_mem (f := bundle) known))
  obtain ⟨path, found⟩ := Option.isSome_iff_exists.mp (Dict.isSome_get?_iff.mpr stored)
  have same := paths (name, path) (Dict.get?_eq_some_iff.mp found)
  simp only [resolveBundle]
  exact found.trans (congrArg some (congrArg Prod.snd same))

section Samples

open Samples (Python manifests)

variable {python : Python}

/-- The samples' catalog lists their manifests. -/
theorem mem_manifests_iff {manifest : Manifest}
    : manifest ∈ manifests python
      ↔ ∃ feature ∈ (Samples.catalog python).list, feature.manifest = manifest := by
  rw [← InMemoryCatalog.manifests_published (@Samples.nodup_names python),
    List.mem_map]
  exact exists_congr fun feature => and_congr_left' (PublishedCatalog.mem_list_iff _).symm

/-- The samples' names are plain. -/
theorem plain_samples : ∀ feature ∈ (Samples.catalog python).list, Plain feature.manifest.name := by
  have each : ∀ name ∈ (manifests python).map Manifest.name, Plain name := by
    change ∀ name ∈ ["calculator", "text_stats", "clock", "greet-acme", "greet-globex"], Plain name
    decide
  intro feature listed
  exact each _ (List.mem_map_of_mem (mem_manifests_iff.mpr ⟨feature, listed, rfl⟩))

/-- The samples' names are distinct in their catalog. -/
theorem nodup_samples
    : ((Samples.catalog python).list.map fun feature => feature.manifest.name).Nodup := by
  have names : (Samples.catalog python).published.map (fun feature => feature.manifest.name)
      = (manifests python).map Manifest.name := by
    rw [← InMemoryCatalog.manifests_published (@Samples.nodup_names python),
      List.map_map]
    rfl
  have sorted : (Samples.catalog python).list.Perm (Samples.catalog python).published := by
    rw [PublishedCatalog.list_eq]
    exact List.perm_insertionSort _ _
  rw [(sorted.map _).nodup_iff, names]
  exact Samples.nodup_names

theorem isDocument_objectSchema {properties : List (String × Json)}
    (unique : (properties.map Prod.fst).Nodup)
    (documents : ∀ property ∈ properties, property.2.IsDocument)
    : (Json.ofDict (Samples.objectSchema properties)).IsDocument := by
  refine .obj (Samples.objectSchema properties).nodup ?_
  rw [Samples.objectSchema, Dict.entries_ofList (by simp)]
  simpa [Json.IsDocument.str] using Json.IsDocument.obj unique documents

theorem isDocument_textSchema (field : String)
    : (Json.ofDict (Samples.textSchema field)).IsDocument := by
  refine .obj (Samples.textSchema field).nodup ?_
  rw [Samples.textSchema, Dict.entries_ofList (by simp)]
  have property : (Json.obj [("type", .str "string")]).IsDocument :=
    .obj (by simp) (by simp [Json.IsDocument.str])
  have properties : (Json.obj [(field, .obj [("type", .str "string")])]).IsDocument :=
    .obj (by simp) (by simpa using property)
  have required : (Json.arr [.str field]).IsDocument := .arr (by simp [Json.IsDocument.str])
  simp [Json.IsDocument.str, properties, required]

/-- The samples' schemas are documents. -/
theorem documented_samples : ∀ manifest ∈ manifests python, manifest.Documented := by
  have typed (text : String) : (Json.obj [("type", .str text)]).IsDocument :=
    .obj (by simp) (by simp [Json.IsDocument.str])
  have offset : (Json.obj [("type", .str "number"), ("default", .int 0)]).IsDocument :=
    .obj (by simp) (by simp [Json.IsDocument.str, Json.IsDocument.number, Json.IsNumber.int])
  have greeting : (Json.ofDict Samples.greetOutput).IsDocument :=
    isDocument_objectSchema (by simp) (by simp [typed])
  intro manifest member
  simp only [manifests, Samples.features, List.map_cons, List.map_nil, List.mem_cons,
    List.not_mem_nil, or_false] at member
  rcases member with rfl | rfl | rfl | rfl | rfl
  · exact ⟨isDocument_textSchema _, isDocument_objectSchema (by simp) (by simp [typed])⟩
  · exact ⟨isDocument_textSchema _, isDocument_objectSchema (by simp) (by simp [typed])⟩
  · exact ⟨isDocument_objectSchema (by simp) (by simp [offset]),
      isDocument_objectSchema (by simp) (by simp [typed])⟩
  · exact ⟨isDocument_textSchema _, greeting⟩
  · exact ⟨isDocument_textSchema _, greeting⟩

/-- Manifests with documented schemas have the same bytes exactly when they are the same. -/
theorem canonicalBytes_modelDump_iff (distinct : numbers.Distinct) {left right : Manifest}
    (leftDocumented : left.Documented) (rightDocumented : right.Documented)
    : canonicalBytes numbers left.modelDump = canonicalBytes numbers right.modelDump
      ↔ left.Same right := by
  rw [← Manifest.sameUpToOrder_modelDump_iff,
    ← dumps_eq_iff distinct (Manifest.isDocument_modelDump leftDocumented)
      (Manifest.isDocument_modelDump rightDocumented),
    canonicalBytes, canonicalBytes, String.toUTF8_eq_toByteArray, String.toUTF8_eq_toByteArray,
    String.toByteArray_inj]

/-- A bundle signs the blob it was made of and no other. -/
theorem Sigstore.signs_iff {blob other : ByteArray}
    : sigstore.Signs (sigstore.signBlob blob) other ↔ blob = other := by
  constructor
  · exact sigstore.unique (sigstore.signs blob)
  · rintro rfl
    exact sigstore.signs blob

/-- A machine whose cosign accepts a bundle that is a copy of the blob. -/
def copyingHost : Host where
  cosignAvailable := true
  run argv files :=
    match argv with
    | [_, _, _, bundle, _, _, _, _, blob] =>
        some (if (files.get? bundle).isSome ∧ files.get? bundle = files.get? blob then 0 else 1)
    | _ => some 1
  tempName files := files.keys.foldr (fun key path => key ++ path) "/tmp/blob.json"

/-- The signing service of such bundles. -/
def copying : Sigstore where
  signBlob := id
  Signs := Eq
  signs _ := rfl
  unique first second := first.symm.trans second

/-- The settings of a gateway that knows who signs. -/
def knowing : Settings where
  signingIdentity := "release"

theorem copyingHost_fresh : copyingHost.Fresh := by
  intro files
  refine Dict.get?_eq_none_iff.mpr fun present => ?_
  have longer (keys : List String)
      : ∀ key ∈ keys,
          key.length < (keys.foldr (fun key path => key ++ path) "/tmp/blob.json").length := by
    induction keys with
    | nil => simp
    | cons first rest ih =>
        intro key member
        simp only [List.foldr_cons, String.length_append]
        rcases List.mem_cons.mp member with rfl | later
        · have positive :
              0 < (rest.foldr (fun key path => key ++ path) "/tmp/blob.json").length := by
            cases rest with
            | nil => decide
            | cons second rest => exact Nat.zero_lt_of_lt (ih second List.mem_cons_self)
          omega
        · have := ih key later
          omega
  exact absurd (longer files.keys _ present) (lt_irrefl _)

theorem copyingHost_verifies : copyingHost.Verifies knowing copying := by
  intro files bundlePath blobPath code ran
  have same : code
      = if (files.get? bundlePath).isSome ∧ files.get? bundlePath = files.get? blobPath
        then 0 else 1 :=
    (Option.some.inj ran).symm
  subst same
  cases files.get? bundlePath <;> cases files.get? blobPath <;> simp [copying]

/-- The files after a release from an empty checkout. -/
def releasedFiles : Files :=
  release decimals copying.signBlob (Samples.catalog Samples.plainPython).toCatalog ∅

end Samples

end Signing

end AgentFeatures
