import FusionLocalServer.Backup.Containment
import FusionLocalServer.Backup.Verify

/-!
# What verifies can be restored

Verifying and restoring check the same snapshot, each in its own way. They differ in the config
file: verifying asks for some JSON document, but a restore reads it into a map, with every
number, and puts the live secret into that.
-/

namespace FusionLocalServer.Backup

open Lib Lib.Json

section

variable {number : List Char → Option (List Char)} {roots : RestoreRoots} {e : Engine}
  {expected : Expected} {disk : FileTree Bytes} {snapDir : Path} {f : ManifestFile}
  {m : Manifest} {rep : VerifyReport} {data : Bytes} {live : Option Bytes}

/-! ## The config file -/

/-- An object whose numbers can all be read, or `null` where there is no live secret. -/
def Mergeable (number : List Char → Option (List Char)) (data : Bytes) (live : Option Bytes) :
    Prop :=
  (∃ members, parse (decodeUtf8 data) = some (.obj members) ∧
      ∀ lit ∈ literals (.obj members), (number lit).isSome) ∨
    (parse (decodeUtf8 data) = some .null ∧ liveSecret number live = none)

theorem mergeable_iff :
    Mergeable number data live ↔ ∃ merged, mergeConfigSecret number data live = .ok merged := by
  unfold Mergeable mergeConfigSecret unmarshalMap
  cases hparse : parse (decodeUtf8 data) with
  | none => simp
  | some v =>
    cases v with
    | null => cases hsecret : liveSecret number live <;> simp [readMap]
    | obj members =>
      have hread : (readFields number members ∅).isSome ↔
          ∀ lit ∈ literals (.obj members), (number lit).isSome :=
        readFields_isSome number members ∅
      cases hfields : readFields number members ∅ with
      | none =>
        rw [hfields] at hread
        simpa [readMap, hfields] using hread
      | some fields =>
        rw [hfields] at hread
        -- there is a map to put a secret into
        cases hsecret : liveSecret number live <;> simpa [readMap, hfields] using hread
    | bool _ => simp [readMap]
    | num _ => simp [readMap]
    | str _ => simp [readMap]
    | arr _ => simp [readMap]

/-! ## What a good report says -/

/-- What was found of an entry that is fully in order. -/
theorem verifyFile_passed (h : (verifyFile disk snapDir expected f).ok = true) :
    Path.escapes (Path.cleanPath f.path) = false ∧
      (∃ data, disk.readFile (Path.join snapDir (Path.cleanPath f.path)) = some data ∧
        Sha256.hexSum data = f.sha256) ∧
      ∀ cur, expected f.store f.path = some cur → f.schemaVersion ≤ cur := by
  unfold verifyFile at h
  cases hrel : safeRel f.path with
  | none => simp [hrel, FileResult.ok] at h
  | some rel =>
    obtain ⟨rfl, hinside⟩ := safeRel_iff.mp hrel
    cases hdata : disk.readFile (Path.join snapDir (Path.cleanPath f.path)) with
    | none => simp [hrel, hdata, FileResult.ok] at h
    | some data =>
      cases hcur : expected f.store f.path with
      | none =>
        simp only [hrel, hdata, hcur, FileResult.ok, Bool.and_eq_true] at h
        exact ⟨hinside, ⟨data, rfl, of_decide_eq_true h.1.1.1.2⟩, fun _ hc => (nomatch hc)⟩
      | some cur =>
        simp only [hrel, hdata, hcur] at h
        split at h
        · simp [FileResult.ok] at h
        · next hle =>
          simp only [FileResult.ok, Bool.and_eq_true] at h
          refine ⟨hinside, ⟨data, rfl, of_decide_eq_true h.1.1.1.2⟩, fun _ hc => ?_⟩
          cases hc
          omega

/-- A report that is in order and has no warning: the snapshot is of this hub, and so is each of
its files. -/
theorem Engine.verify_passed (hverify : e.verify disk snapDir expected = .ok rep)
    (hok : rep.ok = true) (hwarning : rep.warning = none)
    (hm : readManifest disk snapDir = .ok m) :
    checkRestorable e m = .ok () ∧
      ∀ f ∈ m.files, (verifyFile disk snapDir expected f).ok = true := by
  unfold Engine.verify Backup.verify at hverify
  simp only [hm] at hverify
  split at hverify
  · cases hverify
    cases hwarning
  · next hversion =>
    split at hverify
    · cases hverify
      cases hwarning
    · next hsame =>
      cases hverify
      refine ⟨?_, fun f hf => ?_⟩
      · unfold checkRestorable
        rw [if_neg hversion, if_neg hsame]
      · exact List.all_eq_true.mp hok _ (List.mem_append_left _ (List.mem_map_of_mem hf))

/-- **A snapshot in order, and not from a newer version, passes the checks of a restore** where
its config file can be merged, and only there. -/
theorem verified_restorable (number : List Char → Option (List Char)) (roots : RestoreRoots)
    (hverify : e.verify disk snapDir expected = .ok rep) (hok : rep.ok = true)
    (hwarning : rep.warning = none) (hm : readManifest disk snapDir = .ok m)
    (happ : snapshotNewerThanApp m.appVersion e.appVersion = false) :
    (∃ plans, validate number roots e expected disk snapDir = .ok plans) ↔
      ∀ f ∈ m.files, Path.cleanPath f.path = configName →
        ∀ data, disk.readFile (Path.join snapDir configName) = some data →
          Mergeable number data (disk.readFile (roots.configDir ++ [configName])) := by
  obtain ⟨hsame, hfiles⟩ := Engine.verify_passed hverify hok hwarning hm
  constructor
  · rintro ⟨plans, hplans⟩ f hf hconfig data hdata
    obtain ⟨m', haccepted, -⟩ := validate_spec hplans
    cases hm.symm.trans haccepted.manifest
    have hserver : Path.cleanPath f.path ≠ serverName := by
      rw [hconfig]
      decide
    obtain ⟨found, hfound, -, hmerged⟩ := (haccepted.files f hf).intact hserver
    rw [hconfig] at hfound
    cases hdata.symm.trans hfound
    exact mergeable_iff.mpr (hmerged hconfig)
  · intro hmergeable
    obtain ⟨hversion, hslug, hhub⟩ := checkRestorable_iff.mp hsame
    have haccepted : Accepted number roots e expected disk snapDir m := by
      refine ⟨hm, hversion, hslug, hhub, happ, fun f hf => (verifyFile_passed (hfiles f hf)).2.2,
        fun f hf => ?_⟩
      obtain ⟨hinside, ⟨data, hdata, hsum⟩, -⟩ := verifyFile_passed (hfiles f hf)
      refine ⟨hinside, fun _ => ⟨data, hdata, hsum, fun hconfig => ?_⟩⟩
      rw [hconfig] at hdata
      exact mergeable_iff.mp (hmergeable f hf hconfig data hdata)
    obtain ⟨plans, hplans, -⟩ := haccepted.validate
    exact ⟨plans, hplans⟩

end

/-! ## A config file that verifies -/

/-- A snapshot of the config file alone, next to a live one with a secret. -/
def configDisk (config : Bytes) : FileTree Bytes :=
  let m : Manifest := { version := 2, createdAt := 0, kind := "manual", files :=
    [{ path := configName, store := "config", sha256 := Sha256.hexSum config, size := 1 }] }
  let disk : Option (FileTree Bytes) := do
    let disk ← FileTree.empty.mkdirAll garbledDir
    let disk ← disk.writeFile (garbledDir ++ [manifestName]) (m.marshal.getD [])
    let disk ← disk.writeFile (garbledDir ++ [configName]) config
    let disk ← disk.mkdirAll plainRoots.hubRoot
    disk.writeFile (plainRoots.configDir ++ [configName])
      (encodeUtf8 "\x7b\"client_secret\":\"s\"\x7d".toList)
  disk.getD .empty

/-- Whether a snapshot is reported to be in order. -/
def reported (e : Engine) (disk : FileTree Bytes) (snapDir : Path) : Bool :=
  match e.verify disk snapDir fun _ _ => none with
  | .ok rep => rep.ok && rep.warning.isNone
  | .error _ => false

def emptyObject : Bytes := encodeUtf8 "\x7b\x7d".toList

theorem verified_restorable_object : ∃ plans, validate some plainRoots plainEngine
    (fun _ _ => none) (configDisk emptyObject) garbledDir = .ok plans := by
  have hreported : reported plainEngine (configDisk emptyObject) garbledDir = true := by
    decide +kernel
  have hread : (configDisk emptyObject).readFile (Path.join garbledDir configName) =
      some emptyObject := by decide +kernel
  unfold reported at hreported
  cases hverify : plainEngine.verify (configDisk emptyObject) garbledDir fun _ _ => none with
  | error err => simp [hverify] at hreported
  | ok rep =>
    cases hm : readManifest (configDisk emptyObject) garbledDir with
    | error err => simp [Engine.verify, Backup.verify, hm] at hverify
    | ok m =>
      -- no version is newer than an unknown one
      have happ : snapshotNewerThanApp m.appVersion plainEngine.appVersion = false := by
        unfold snapshotNewerThanApp
        cases parseVersion m.appVersion <;> rfl
      simp only [hverify, Bool.and_eq_true, Option.isNone_iff_eq_none] at hreported
      refine (verified_restorable some plainRoots hverify hreported.1 hreported.2 hm happ).mpr
        fun f _ _ data hdata => ?_
      cases hread.symm.trans hdata
      exact .inl ⟨[], rfl, fun _ hlit => (nomatch hlit)⟩

/-- **A config file of `null` or a list verifies**, and ends the restore, one in a panic. -/
theorem restore_panics :
    reported plainEngine (configDisk (encodeUtf8 "null".toList)) garbledDir = true ∧
    validate some plainRoots plainEngine (fun _ _ => none)
      (configDisk (encodeUtf8 "null".toList)) garbledDir = .error .panic ∧
    reported plainEngine (configDisk (encodeUtf8 "[]".toList)) garbledDir = true ∧
    validate some plainRoots plainEngine (fun _ _ => none)
      (configDisk (encodeUtf8 "[]".toList)) garbledDir = .error .configNotJSON := by
  decide +kernel

end FusionLocalServer.Backup
