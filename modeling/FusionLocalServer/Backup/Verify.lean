import FusionLocalServer.Backup.Restore

/-!
# Verifying (`backup/verify.go`)

A snapshot is compared with its manifest: every entry must be there, have its checksum, parse
as its name says and be of no newer schema, and nothing else may lie in the directory. A
snapshot of another hub verifies with a warning.
-/

namespace FusionLocalServer.Backup

open Lib Lib.Json

/-- `FileResult` -/
structure FileResult where
  path : String
  hashOK : Bool := false
  parseOK : Bool := false
  versionOK : Bool := false
  missing : Bool := false
  detail : String := ""
  deriving DecidableEq, Repr

/-- `FileResult.ok` -/
def FileResult.ok (f : FileResult) : Bool :=
  !f.missing && f.hashOK && f.parseOK && f.versionOK && f.detail = ""

/-- `VerifyReport`. A warning is the error with which a restore would refuse. -/
structure VerifyReport where
  path : Path
  createdAt : Time
  kind : String
  manifestVersion : Int
  hub : String
  hubSlug : String
  warning : Option Err := none
  files : List FileResult
  ok : Bool

/-- `json.Valid` -/
def jsonValid (data : Bytes) : Bool := (parse (decodeUtf8 data)).isSome

/-- `parseCheck` -/
def parseCheck (rel : String) (data : Bytes) : Bool :=
  if ".jsonl".toList <:+ rel.toList then
    (data.splitOn 10).all fun line => line = [] || jsonValid line
  else if ".json".toList <:+ rel.toList then jsonValid data
  else true

/-- The text about a schema version that is too new. -/
def newerSchemaText (version current : Int) : String :=
  "schema v" ++ String.ofList (formatInt version) ++ " is newer than this build's v" ++
    String.ofList (formatInt current)

/-- `verifyFile` -/
def verifyFile (disk : FileTree Bytes) (snapDir : Path) (expected : Expected) (mf : ManifestFile) :
    FileResult :=
  match safeRel mf.path with
  | none => { path := mf.path, detail := "invalid path in manifest" }
  | some rel =>
    match disk.readFile (Path.join snapDir rel) with
    | none => { path := mf.path, missing := true }
    | some data =>
      let res : FileResult :=
        { path := mf.path
          hashOK := Sha256.hexSum data = mf.sha256
          parseOK := parseCheck mf.path data
          versionOK := true }
      match expected mf.store mf.path with
      | some cur =>
        if cur < mf.schemaVersion then
          { res with versionOK := false, detail := newerSchemaText mf.schemaVersion cur }
        else res
      | none => res

/-- `extraFiles`: the files that the manifest does not list. -/
def extraFiles (disk : FileTree Bytes) (snapDir : Path) (inManifest : List String) :
    List FileResult :=
  (disk.below snapDir).filterMap fun q =>
    let rel := Path.slashed (q.drop snapDir.length)
    if disk.isDir q || rel = manifestName || rel ∈ inManifest then none
    else some { path := rel, detail := "not in manifest" }

/-- `Verify` -/
def verify (disk : FileTree Bytes) (snapDir : Path) (expected : Expected) :
    Except Err VerifyReport :=
  match readManifest disk snapDir with
  | .error err => .error err
  | .ok m =>
    let files := m.files.map (verifyFile disk snapDir expected) ++
      extraFiles disk snapDir (m.files.map (·.path))
    .ok
      { path := snapDir
        createdAt := m.createdAt
        kind := m.kind
        manifestVersion := m.version
        hub := m.hub
        hubSlug := m.hubSlug
        files := files
        ok := files.all FileResult.ok }

/-- `Engine.Verify` -/
def Engine.verify (e : Engine) (disk : FileTree Bytes) (snapDir : Path) (expected : Expected) :
    Except Err VerifyReport :=
  match Backup.verify disk snapDir expected with
  | .error err => .error err
  | .ok rep =>
    if rep.manifestVersion < 2 then .ok { rep with warning := some .predatesHubs }
    else if rep.hubSlug ≠ e.hubSlug ∨ (rep.hub ≠ "" ∧ e.hub ≠ "" ∧ rep.hub ≠ e.hub) then
      .ok { rep with warning := some (.otherHub rep.hub rep.hubSlug) }
    else .ok rep

end FusionLocalServer.Backup
