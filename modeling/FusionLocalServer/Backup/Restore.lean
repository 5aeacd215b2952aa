import FusionLocalServer.Backup.Engine
import FusionLocalServer.Lib.Json.Any
import FusionLocalServer.Lib.Text

/-!
# Restoring (`backup/restore.go`, `backup/verify.go`)

A restore reads the whole snapshot and finds the place of every file before it writes
anything; a backup of the data it is about to replace comes in between. The manifest is data
from a disk: it may name any path, any number of times.

Two files are special. `server.json` is left out; `config.json` goes into the config
directory, all of it but the secret, which stays what it is there.
-/

namespace FusionLocalServer.Backup

open Lib Lib.Json

/-- `RestoreRoots`: where the files of a hub are, and where `config.json` is. -/
structure RestoreRoots where
  hubRoot : Path
  configDir : Path
  hubClean : Path.IsClean hubRoot
  configClean : Path.IsClean configDir

/-- The hook for the schema versions: the current version of a file, when it has one. -/
abbrev Expected := (store rel : String) → Option Int

def configName : String := "config.json"
def serverName : String := "server.json"
def secretName : String := "client_secret"

/-! ## Versions -/

/-- The components of a version up to the first that does not end with its digits. -/
def versionParts : List (List Char) → Option (List Nat)
  | [] => some []
  | p :: ps =>
    let ds := p.takeWhile Char.isDigit
    match parseInt64 ds with
    | some n =>
      if ds = p then (versionParts ps).map (n.toNat :: ·) else some [n.toNat]
    | none => none

/-- `parseVersion` -/
def parseVersion (s : String) : Option (List Nat) :=
  let s := trimChars s.toList
  let s := if ['v'] <+: s then s.drop 1 else s
  if s = [] ∨ s = "dev".toList then none else versionParts (s.splitOn '.')

/-- Whether the first list is the greater one, where both go on with zeros. -/
def newerParts : List Nat → List Nat → Bool
  | [], _ => false -- zeros are never greater
  | a :: as, bs => if a = bs.headD 0 then newerParts as bs.tail else decide (bs.headD 0 < a)

/-- `snapshotNewerThanApp` -/
def snapshotNewerThanApp (snapVer appVer : String) : Bool :=
  match parseVersion snapVer, parseVersion appVer with
  | some a, some b => newerParts a b
  | _, _ => false

/-! ## Whose snapshot it is -/

/-- `CheckRestorable` -/
def checkRestorable (e : Engine) (m : Manifest) : Except Err Unit :=
  if m.version < 2 then .error .predatesHubs
  else if m.hubSlug ≠ e.hubSlug ∨ (m.hub ≠ "" ∧ e.hub ≠ "" ∧ m.hub ≠ e.hub) then
    .error (.otherHub m.hub m.hubSlug)
  else .ok ()

/-! ## Paths -/

/-- `safeRel` -/
def safeRel (rel : String) : Option String :=
  let clean := Path.cleanPath rel
  if Path.escapes clean then none else some clean

/-- `containedJoin` -/
def containedJoin (root : Path) (rel : String) : Option Path :=
  let dest := Path.join root rel
  if (Path.relTo root dest).head? = some ".." then none else some dest

/-! ## The config file -/

section Config

variable (number : List Char → Option (List Char))

/-- `json.Unmarshal` into a `map[string]any`. -/
def unmarshalMap (data : Bytes) : Option (Option Fields) :=
  (parse (decodeUtf8 data)).bind (readMap number)

/-- `json.MarshalIndent(raw, "", "  ")` -/
def marshalMap (raw : Option Fields) : Bytes := encodeUtf8 (renderIndent 0 (mapValue raw))

/-- The secret of the live file, when there is one and it reads. -/
def liveSecret (live : Option Bytes) : Option Json :=
  ((live.bind (unmarshalMap number)).bind id).bind fun fields => fields.lookup secretName

/-- `mergeConfigSecret`, `live` the live file. A secret does not go into a nil map. -/
def mergeConfigSecret (backupData : Bytes) (live : Option Bytes) : Except Err Bytes :=
  match unmarshalMap number backupData with
  | none => .error .configNotJSON
  | some raw =>
    match liveSecret number live, raw with
    | none, raw => .ok (marshalMap raw)
    | some _, none => .error .panic
    | some sec, some fields => .ok (marshalMap (some (fields.insert secretName sec)))

end Config

/-! ## Validating -/

/-- What is written where. -/
structure Pending where
  rel : String
  dest : Path
  data : Bytes
  deriving DecidableEq, Repr

/-- The check of the schema versions: the first file from a newer build. -/
def checkSchema (expected : Expected) : List ManifestFile → Except Err Unit
  | [] => .ok ()
  | f :: fs =>
    match expected f.store f.path with
    | some cur =>
      if cur < f.schemaVersion then .error (.schemaNewer f.path f.schemaVersion cur)
      else checkSchema expected fs
    | none => checkSchema expected fs

section Restore

variable (number : List Char → Option (List Char)) (roots : RestoreRoots)

/-- The checks of one entry of the manifest; nothing comes of `server.json`. -/
def planFile (disk : FileTree Bytes) (snapDir : Path) (f : ManifestFile) :
    Except Err (Option Pending) :=
  match safeRel f.path with
  | none => .error (.escapes f.path)
  | some rel =>
    if rel = serverName then .ok none
    else
      let root := if rel = configName then roots.configDir else roots.hubRoot
      match containedJoin root rel with
      | none => .error (.escapes f.path)
      | some dest =>
        match disk.readFile (Path.join snapDir rel) with
        | none => .error (.fileUnreadable rel)
        | some data =>
          if Sha256.hexSum data ≠ f.sha256 then .error (.checksum rel)
          else if rel = configName then
            match mergeConfigSecret number data (disk.readFile (roots.configDir ++ [configName])) with
            | .error err => .error err
            | .ok merged => .ok (some ⟨rel, dest, merged⟩)
          else .ok (some ⟨rel, dest, data⟩)

/-- The loop over the entries, up to the first that fails. -/
def planFiles (disk : FileTree Bytes) (snapDir : Path) :
    List ManifestFile → Except Err (List Pending)
  | [] => .ok []
  | f :: fs =>
    match planFile number roots disk snapDir f with
    | .error err => .error err
    | .ok plan =>
      match planFiles disk snapDir fs with
      | .error err => .error err
      | .ok plans => .ok (plan.toList ++ plans)

/-- `Restore` up to the backup of the live data. -/
def validate (e : Engine) (expected : Expected) (disk : FileTree Bytes) (snapDir : Path) :
    Except Err (List Pending) :=
  match readManifest disk snapDir with
  | .error err => .error err
  | .ok m =>
    match checkRestorable e m with
    | .error err => .error err
    | .ok () =>
      if snapshotNewerThanApp m.appVersion e.appVersion then .error (.appNewer m.appVersion)
      else
        match checkSchema expected m.files with
        | .error err => .error err
        | .ok () => planFiles number roots disk snapDir m.files

/-! ## Writing -/

/-- What a restore leaves: the disk, the files it wrote itself, and the error. -/
structure Restored where
  disk : FileTree Bytes
  written : List Path := []
  err : Option Err := none

/-- The writes, up to the first that fails. -/
def writeAll (faults : Faults) : List Pending → FileTree Bytes → Restored
  | [], disk => { disk }
  | p :: ps, disk =>
    match mkdirAll faults disk p.dest.dropLast with
    | none => { disk, err := some (.io p.dest.dropLast) }
    | some disk =>
      match writeFile faults disk p.dest p.data with
      | none => { disk, err := some (.io p.dest) }
      | some disk =>
        let rest := writeAll faults ps disk
        { rest with written := p.dest :: rest.written }

/-- `Restore`. The backup before the writes is one of what the sources have at that time. -/
def restore (e : Engine) (expected : Expected) (faults : Faults) (sources : List Source)
    (now : Time) (snapDir : Path) (disk : FileTree Bytes) : Restored :=
  match validate number roots e expected disk snapDir with
  | .error err => { disk, err := some err }
  | .ok files =>
    match runAt e faults sources .preRestore now disk with
    | ⟨disk, _, some err⟩ => { disk, err := some err }
    | ⟨disk, _, none⟩ => writeAll faults files disk

end Restore

end FusionLocalServer.Backup
