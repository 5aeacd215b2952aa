import FusionLocalServer.Backup.Manifest
import FusionLocalServer.Lib.RelPath
import FusionLocalServer.Lib.Stamp
import FusionLocalServer.Lib.Week

/-!
# The backup engine (`backup/engine.go`, `backup/gfs.go`)

A run streams what its sources hand over into a new directory named by its time, and writes
the manifest last. A run of the daily kind then copies the newest daily snapshot into the
tiers whose period has none yet, and removes what is past each tier's number.

The file system may refuse any write, and a copy may stop anywhere; a removal takes away
everything. A source is what it hands over in this run. Instants are nanoseconds since the
start of the year 0, in UTC.
-/

namespace FusionLocalServer.Backup

open Lib

/-- One call of `visit`: a file as a source hands it over. Lengths and versions are 64-bit. -/
structure SourceFile where
  rel : String
  data : Bytes
  schemaVersion : Int := 0
  size : InInt64 data.length := by decide
  version : InInt64 schemaVersion := by decide

/-- What a `Source` does in one run: the files it visits, and the error it may end with. -/
structure Source where
  name : String
  files : List SourceFile
  err : Option String := none

/-- `Engine`. The directory is cleaned by every `Join` it goes into. -/
structure Engine where
  dir : Option Path
  appVersion : String := ""
  hub : String := ""
  hubSlug : String := ""
  clean : ∀ d, dir = some d → Path.IsClean d

/-- Where a copy stops: after how many entries, the directory itself the first, and how much
of the file behind them it leaves. -/
structure CopyStop where
  done : Nat
  torn : Option Nat := none
  deriving DecidableEq, Repr

/-- What the file system refuses. -/
structure Faults where
  write : Path → Bool := fun _ => false
  copy : Kind → Option CopyStop := fun _ => none

/-- The seconds of an instant. -/
def secondOf (now : Time) : Int := now / nanosPerSecond

/-- The day a second is in. -/
def dayOf (s : Int) : Int := s / secondsPerDay

/-- The name of a snapshot directory. -/
def formatTS (now : Time) : String := String.ofList (formatStamp (secondOf now))

/-- `parseTS`: the second in a snapshot's name, whatever is behind it. -/
def parseTS (name : String) : Option Int := parseStamp (name.toList.take stampLength)

/-! ## Taking a snapshot -/

/-- The names a snapshot may get: its time, and `-2`, `-3`, … behind it. -/
def suffixed (base : String) : Nat → String
  | 0 => base
  | n + 1 => base ++ "-" ++ String.ofList (Nat.toDigits 10 (n + 2))

/-- `newSnapshotDir`, up to making the directory: the first name that is free. One more name
than there are paths is enough. -/
def newSnapshotDir (disk : FileTree Bytes) (dir : Path) (kind : Kind) (now : Time) : Path :=
  let tier := dir ++ [kind.text]
  let names := (List.range (disk.paths.length + 1)).map (suffixed (formatTS now))
  tier ++ [(names.find? fun name => disk.get (tier ++ [name]) = none).getD (formatTS now)]

/-- `os.MkdirAll` and `atomicfile.WriteFile`, where the file system may refuse. -/
def mkdirAll (faults : Faults) (disk : FileTree Bytes) (p : Path) : Option (FileTree Bytes) :=
  if faults.write p then none else disk.mkdirAll p

def writeFile (faults : Faults) (disk : FileTree Bytes) (p : Path) (data : Bytes) :
    Option (FileTree Bytes) :=
  if faults.write p then none else disk.writeFile p data

/-- The manifest entry of a file. -/
def manifestFile (store : String) (f : SourceFile) : ManifestFile where
  path := Path.cleanPath f.rel
  store := store
  sha256 := Sha256.hexSum f.data
  size := f.data.length
  schemaVersion := f.schemaVersion

/-- The `visit` a source is called with. -/
def visit (faults : Faults) (snapDir : Path) (store : String) (disk : FileTree Bytes)
    (f : SourceFile) : FileTree Bytes × Except Err ManifestFile :=
  let cleanRel := Path.cleanPath f.rel
  if Path.escapes cleanRel then (disk, .error (.invalidPath f.rel))
  else
    let dest := Path.join snapDir cleanRel
    match mkdirAll faults disk dest.dropLast with
    | none => (disk, .error (.io dest.dropLast))
    | some disk =>
      match writeFile faults disk dest f.data with
      | none => (disk, .error (.io dest))
      | some disk => (disk, .ok (manifestFile store f))

/-- The visits of one source, up to the first that fails. -/
def visitAll (faults : Faults) (snapDir : Path) (store : String) :
    List SourceFile → FileTree Bytes → FileTree Bytes × Except Err (List ManifestFile)
  | [], disk => (disk, .ok [])
  | f :: fs, disk =>
    match visit faults snapDir store disk f with
    | (disk, .error err) => (disk, .error err)
    | (disk, .ok entry) =>
      match visitAll faults snapDir store fs disk with
      | (disk, .error err) => (disk, .error err)
      | (disk, .ok entries) => (disk, .ok (entry :: entries))

/-- The loop over the sources. -/
def collect (faults : Faults) (snapDir : Path) :
    List Source → FileTree Bytes → FileTree Bytes × Except Err (List ManifestFile)
  | [], disk => (disk, .ok [])
  | src :: srcs, disk =>
    match visitAll faults snapDir src.name src.files disk with
    | (disk, .error err) => (disk, .error err)
    | (disk, .ok entries) =>
      match src.err with
      | some reason => (disk, .error (.source src.name reason))
      | none =>
        match collect faults snapDir srcs disk with
        | (disk, .error err) => (disk, .error err)
        | (disk, .ok more) => (disk, .ok (entries ++ more))

/-- The manifest of a run. -/
def newManifest (e : Engine) (kind : Kind) (now : Time) (files : List ManifestFile) : Manifest where
  version := manifestVersion
  appVersion := e.appVersion
  hub := e.hub
  hubSlug := e.hubSlug
  createdAt := now
  kind := kind.text
  files := files

/-- `runAt` up to the manifest. A snapshot that does not come about is removed again. -/
def takeSnapshot (e : Engine) (faults : Faults) (sources : List Source) (kind : Kind) (now : Time)
    (snapDir : Path) (disk : FileTree Bytes) : FileTree Bytes × Except Err Manifest :=
  match mkdirAll faults disk snapDir with
  | none => (disk, .error (.io snapDir))
  | some disk =>
    match collect faults snapDir sources disk with
    | (disk, .error err) => (disk.removeAll snapDir, .error err)
    | (disk, .ok files) =>
      let m := newManifest e kind now files
      match m.marshal with
      | none => (disk.removeAll snapDir, .error .encodingManifest)
      | some data =>
        match writeFile faults disk (snapDir ++ [manifestName]) data with
        | none => (disk.removeAll snapDir, .error (.io (snapDir ++ [manifestName])))
        | some disk => (disk, .ok m)

/-! ## The ladder -/

/-- `GFS`: how many snapshots a tier keeps. -/
def keepDaily : Nat := 7
def keepWeekly : Nat := 4
def keepMonthly : Nat := 12

/-- `tierSnapshots`: the snapshots of a tier, newest first. -/
def tierSnapshots (disk : FileTree Bytes) (dir : Path) (kind : Kind) : Except Err (List String) :=
  let tier := dir ++ [kind.text]
  if (disk.readFile tier).isSome then .error (.listing kind)
  else .ok (((disk.children tier).filter fun name =>
    disk.isDir (tier ++ [name]) && (parseTS name).isSome).insertionSort (· ≥ ·))

/-- `newestSnapshot` -/
def newestSnapshot (disk : FileTree Bytes) (dir : Path) (kind : Kind) : Option String :=
  match tierSnapshots disk dir kind with
  | .ok (name :: _) => some name
  | _ => none

/-- `tierHas`: whether the time of some snapshot satisfies the test. -/
def tierHas (disk : FileTree Bytes) (dir : Path) (kind : Kind) (matches' : Int → Bool) :
    Except Err Bool :=
  match tierSnapshots disk dir kind with
  | .error err => .error err
  | .ok names => .ok (names.any fun name => (parseTS name).any matches')

/-- One entry of a recursive copy; a directory is made, a file written anew. -/
def copyEntry (src dst : Path) (disk : FileTree Bytes) (q : Path) : Option (FileTree Bytes) :=
  let target := dst ++ q.drop src.length
  match disk.get q with
  | some .dir => disk.mkdirAll target
  | some (.file data) => disk.writeFile target data
  | none => none

/-- The entries one after the other, up to the first that fails. -/
def copyEntries (src dst : Path) : List Path → FileTree Bytes → FileTree Bytes × Bool
  | [], disk => (disk, true)
  | q :: qs, disk =>
    match copyEntry src dst disk q with
    | none => (disk, false)
    | some disk => copyEntries src dst qs disk

/-- A file of which a copy leaves the first bytes only. -/
def tearEntry (src dst : Path) (disk : FileTree Bytes) (q : Path) (n : Nat) : FileTree Bytes :=
  match disk.readFile q with
  | none => disk
  | some data => (disk.writeFile (dst ++ q.drop src.length) (data.take n)).getD disk

/-- `copyDir`: the directory is made, and what is below the source copied in the order a
recursive listing comes upon it. -/
def copyDir (stop : Option CopyStop) (src dst : Path) (disk : FileTree Bytes) :
    FileTree Bytes × Bool :=
  let entries := disk.below src
  match stop with
  | none =>
    match disk.mkdirAll dst with
    | none => (disk, false)
    | some disk => copyEntries src dst entries disk
  | some ⟨0, _⟩ => (disk, false)
  | some ⟨n + 1, torn⟩ =>
    match disk.mkdirAll dst with
    | none => (disk, false)
    | some disk =>
      match copyEntries src dst (entries.take n) disk with
      | (disk, false) => (disk, false)
      | (disk, true) =>
        match (entries.drop n).head?, torn with
        | some q, some k => (tearEntry src dst disk q k, false)
        | _, _ => (disk, false)

/-- One half of `Promote`: the newest daily snapshot into a tier that has none of the
period. -/
def promoteTo (faults : Faults) (dir : Path) (kind : Kind) (newest : String)
    (samePeriod : Int → Bool) (disk : FileTree Bytes) : FileTree Bytes × Option Err :=
  match tierHas disk dir kind samePeriod with
  | .error err => (disk, some err)
  | .ok true => (disk, none)
  | .ok false =>
    let dst := dir ++ [kind.text, newest]
    match copyDir (faults.copy kind) (dir ++ [Kind.daily.text, newest]) dst disk with
    | (disk, false) => (disk, some (.io dst))
    | (disk, true) => (disk, none)

/-- The ISO week and the calendar month of a second. -/
def weekOf (s : Int) : Int × Nat := isoWeek (dayOf s)
def monthOf (s : Int) : List Char := formatMonth (dayOf s)

/-- `Promote` -/
def promote (faults : Faults) (dir : Path) (now : Time) (disk : FileTree Bytes) :
    FileTree Bytes × Option Err :=
  match newestSnapshot disk dir .daily with
  | none => (disk, none)
  | some newest =>
    match promoteTo faults dir .weekly newest (fun ts => weekOf ts = weekOf (secondOf now)) disk with
    | (disk, some err) => (disk, some err)
    | (disk, none) =>
      promoteTo faults dir .monthly newest (fun ts => monthOf ts = monthOf (secondOf now)) disk

/-- What `Prune` does to one tier. -/
def pruneTier (dir : Path) (kind : Kind) (keep : Nat) (disk : FileTree Bytes) :
    FileTree Bytes × Option Err :=
  match tierSnapshots disk dir kind with
  | .error err => (disk, some err)
  | .ok names =>
    ((names.drop keep).foldl (fun disk name => disk.removeAll (dir ++ [kind.text, name])) disk, none)

/-- `Prune`. It goes over a map; the tiers share nothing, so the order shows only in which of
them are left alone after an error. -/
def prune (dir : Path) (disk : FileTree Bytes) : FileTree Bytes × Option Err :=
  match pruneTier dir .daily keepDaily disk with
  | (disk, some err) => (disk, some err)
  | (disk, none) =>
    match pruneTier dir .weekly keepWeekly disk with
    | (disk, some err) => (disk, some err)
    | (disk, none) => pruneTier dir .monthly keepMonthly disk

/-! ## A run -/

/-- What a run leaves: the disk, the manifest when a snapshot was taken, and the error. -/
structure Outcome where
  disk : FileTree Bytes
  manifest : Option Manifest
  err : Option Err

/-- `runAt` -/
def runAt (e : Engine) (faults : Faults) (sources : List Source) (kind : Kind) (now : Time)
    (disk : FileTree Bytes) : Outcome :=
  match e.dir with
  | none => ⟨disk, none, some .noDir⟩
  | some dir =>
    match takeSnapshot e faults sources kind now (newSnapshotDir disk dir kind now) disk with
    | (disk, .error err) => ⟨disk, none, some err⟩
    | (disk, .ok m) =>
      if kind = .daily then
        match promote faults dir now disk with
        | (disk, some err) => ⟨disk, some m, some err⟩
        | (disk, none) => ⟨(prune dir disk).1, some m, (prune dir disk).2⟩
      else ⟨disk, some m, none⟩

end FusionLocalServer.Backup
