import FusionLocalServer.Lib.FileTree
import FusionLocalServer.Lib.Sha256
import FusionLocalServer.Lib.Utf8
import FusionLocalServer.Lib.Json.Indent
import FusionLocalServer.Lib.Json.Time
import FusionLocalServer.Storage.Schema

/-!
# Manifests (`backup/engine.go`, `backup/manifest.go`)

The manifest of a snapshot says what was backed up, when and by which version, and whose
data it is. It is written once, behind all the files it lists, and read back by whoever
lists, verifies or restores the snapshot; in between it is data on a disk, so reading takes
whatever text is there.

Texts are Unicode strings, files byte strings. Integers are 64-bit.
-/

namespace FusionLocalServer.Backup

open Lib Lib.Json
open FusionLocalServer.Storage (zeroTime)

abbrev Bytes := List UInt8

/-- `Kind`: a snapshot tier. -/
inductive Kind where
  | daily
  | weekly
  | monthly
  | manual
  | preRestore
  deriving DecidableEq, Repr

/-- The text of a kind, which also names its directory. -/
def Kind.text : Kind → String
  | daily => "daily"
  | weekly => "weekly"
  | monthly => "monthly"
  | manual => "manual"
  | preRestore => "pre-restore"

theorem Kind.text_injective {k k' : Kind} (h : k.text = k'.text) : k = k' := by
  cases k <;> cases k' <;> first | rfl | exact absurd h (by decide)

theorem Kind.plain (k : Kind) : Path.Plain k.text := by
  cases k <;> decide

/-- `ManifestVersion` -/
def manifestVersion : Int := 2

/-- The manifest's own name in a snapshot. -/
def manifestName : String := "manifest.json"

/-- `ManifestFile`: one backed-up file. -/
structure ManifestFile where
  path : String := ""
  store : String := ""
  sha256 : String := ""
  size : Int := 0
  schemaVersion : Int := 0
  deriving DecidableEq, Repr

/-- `Manifest`. Its `kind` may be any text once it has been on a disk. -/
structure Manifest where
  version : Int := 0
  appVersion : String := ""
  hub : String := ""
  hubSlug : String := ""
  createdAt : Time := zeroTime
  kind : String := ""
  files : List ManifestFile := []
  deriving DecidableEq, Repr

/-- Its integers are 64-bit ones. -/
structure ManifestFile.Sound (f : ManifestFile) : Prop where
  size : InInt64 f.size
  schemaVersion : InInt64 f.schemaVersion

structure Manifest.Sound (m : Manifest) : Prop where
  version : InInt64 m.version
  files : ∀ f ∈ m.files, f.Sound

/-! ## JSON -/

def manifestFileFields : List (StructField ManifestFile) :=
  [structField "path" readString fun b f => { f with path := b },
   structField "store" readString fun b f => { f with store := b },
   structField "sha256" readString fun b f => { f with sha256 := b },
   structField "size" readInt fun b f => { f with size := b },
   structField "schemaVersion" readInt fun b f => { f with schemaVersion := b }]

def manifestFields : List (StructField Manifest) :=
  [structField "manifestVersion" readInt fun b m => { m with version := b },
   structField "appVersion" readString fun b m => { m with appVersion := b },
   structField "hub" readString fun b m => { m with hub := b },
   structField "hubSlug" readString fun b m => { m with hubSlug := b },
   structField "createdAt" readTime fun b m => { m with createdAt := b },
   structField "kind" readString fun b m => { m with kind := b },
   sliceField "files" manifestFileFields {} (fun m => m.files) fun b m => { m with files := b }]

def ManifestFile.members (f : ManifestFile) : List (List Char × Json) :=
  member "path" (stringValue f.path) ++ (member "store" (stringValue f.store) ++
  (member "sha256" (stringValue f.sha256) ++ (member "size" (intValue f.size) ++
  member "schemaVersion" (intValue f.schemaVersion))))

/-- The members written for a manifest, given the text of its time. -/
def Manifest.members (m : Manifest) (time : List Char) : List (List Char × Json) :=
  member "manifestVersion" (intValue m.version) ++
  (member "appVersion" (stringValue m.appVersion) ++ (omitString "hub" m.hub ++
  (omitString "hubSlug" m.hubSlug ++ (member "createdAt" (.str time) ++
  (member "kind" (stringValue m.kind) ++
  member "files" (.arr (m.files.map fun f => .obj f.members)))))))

/-- `json.MarshalIndent(m, "", "  ")`; it fails for a time that RFC 3339 cannot write. -/
def Manifest.marshal (m : Manifest) : Option Bytes :=
  (formatTime m.createdAt).map fun time => encodeUtf8 (renderIndent 0 (.obj (m.members time)))

/-- `json.Unmarshal(data, &m)` -/
def unmarshalManifest (data : Bytes) : Option Manifest :=
  (parse (decodeUtf8 data)).bind (decodeStruct manifestFields {})

theorem decodeStruct_manifestFile {f : ManifestFile} (hs : f.Sound) :
    decodeStruct manifestFileFields {} (.obj f.members) = some f := by
  show decodeMembers manifestFileFields f.members {} = some f
  unfold ManifestFile.members
  rw [decodeMembers_append_of (decode_string rfl f.path _),
    decodeMembers_append_of (decode_string rfl f.store _),
    decodeMembers_append_of (decode_string rfl f.sha256 _),
    decodeMembers_append_of (decode_int rfl hs.size _), decode_int rfl hs.schemaVersion _]

/-- The list of files goes back into its field. -/
theorem decode_files {files : List ManifestFile} (hs : ∀ f ∈ files, f.Sound) {m : Manifest}
    (hnone : m.files = []) :
    decodeMembers manifestFields (member "files" (.arr (files.map fun f => .obj f.members))) m =
      some { m with files := files } := by
  have hitems := decodeItems_map files fun f hf =>
      decodeStruct_manifestFile (hs f hf)
  rw [← hnone] at hitems
  have hfield : findField manifestFields "files" =
      some (sliceField "files" manifestFileFields {} (fun m => m.files)
        fun b m => { m with files := b }) := rfl
  rw [member, decodeMembers, unquote_quote, hfield]
  dsimp only [sliceField]
  rw [hitems]
  rfl

/-- Every member goes back into the field it came from. -/
theorem decodeMembers_manifest {m : Manifest} (hs : m.Sound) {time : List Char}
    (htime : parseTime time = some m.createdAt) :
    decodeMembers manifestFields (m.members time) {} = some m := by
  unfold Manifest.members
  rw [decodeMembers_append_of (decode_int rfl hs.version _),
    decodeMembers_append_of (decode_string rfl m.appVersion _),
    decodeMembers_append_of (decode_omitString rfl m.hub rfl),
    decodeMembers_append_of (decode_omitString rfl m.hubSlug rfl),
    decodeMembers_append_of (decode_member rfl (by rintro ⟨⟩) htime _),
    decodeMembers_append_of (decode_string rfl m.kind _), decode_files hs.files rfl]

theorem written_manifestFile (f : ManifestFile) : Written (.obj f.members) := by
  show WrittenMembers f.members
  unfold ManifestFile.members
  refine writtenMembers_append (written_member _ (written_stringValue _)) ?_
  refine writtenMembers_append (written_member _ (written_stringValue _)) ?_
  refine writtenMembers_append (written_member _ (written_stringValue _)) ?_
  exact writtenMembers_append (written_member _ (written_intValue _))
    (written_member _ (written_intValue _))

theorem written_manifest (m : Manifest) {time : List Char} (h : StrLit time) :
    WrittenMembers (m.members time) := by
  unfold Manifest.members
  refine writtenMembers_append (written_member _ (written_intValue _)) ?_
  refine writtenMembers_append (written_member _ (written_stringValue _)) ?_
  refine writtenMembers_append (written_omitString _ _) ?_
  refine writtenMembers_append (written_omitString _ _) ?_
  refine writtenMembers_append (written_member _ h) ?_
  refine writtenMembers_append (written_member _ (written_stringValue _)) ?_
  exact written_member _ (writtenItems_map m.files fun f _ => written_manifestFile f)

/-- A manifest nests three deep. -/
theorem depth_manifest_le (m : Manifest) (time : List Char) :
    depth (.obj (m.members time)) ≤ 3 := by
  have hfile : ∀ f : ManifestFile, depth (.obj f.members) = 1 := fun f => rfl
  have hfiles : depth (.arr (m.files.map fun f => .obj f.members)) ≤ 2 :=
    Nat.succ_le_succ (depthItems_map_le m.files fun f _ => Nat.le_of_eq (hfile f))
  have homit : ∀ name s, depthMembers (omitString name s) = 0 := flat_omitString
  have hmember : ∀ name v, depthMembers (member name v) = depth v := fun name v => Nat.max_zero _
  have hint : ∀ z, depth (intValue z) = 0 := fun z => rfl
  have hstring : ∀ s, depth (stringValue s) = 0 := fun s => rfl
  have hlit : ∀ lit, depth (.str lit) = 0 := fun lit => rfl
  show depthMembers (m.members time) + 1 ≤ 3
  unfold Manifest.members
  simp only [depthMembers_append, homit, hmember, hint, hstring, hlit]
  omega

/-- **A manifest reads back from what was written of it.** -/
theorem unmarshalManifest_marshal {m : Manifest} (hs : m.Sound) {data : Bytes}
    (h : m.marshal = some data) : unmarshalManifest data = some m := by
  obtain ⟨time, htime, rfl⟩ := Option.map_eq_some_iff.mp h
  have hwritten : Written (.obj (m.members time)) :=
    written_manifest m (strLit_of_formatTime htime)
  unfold unmarshalManifest
  rw [decodeUtf8_encodeUtf8, parse_renderIndent hwritten
    (Nat.le_trans (depth_manifest_le m time) (by decide))]
  exact decodeMembers_manifest hs (parseTime_formatTime htime)

/-! ## Reading a manifest -/

/-- Why an operation of the engine fails. -/
inductive Err where
  /-- No backup directory is configured. -/
  | noDir
  /-- The file system refuses at a path. -/
  | io (p : Path)
  | invalidPath (rel : String)
  /-- A source ends with an error of its own. -/
  | source (name : String) (reason : String)
  | encodingManifest
  | manifestUnreadable
  | manifestUndecodable
  | manifestNewer (version : Int)
  /-- A tier cannot be listed. -/
  | listing (kind : Kind)
  | predatesHubs
  | otherHub (hub hubSlug : String)
  | appNewer (version : String)
  | schemaNewer (path : String) (version current : Int)
  | escapes (path : String)
  | fileUnreadable (rel : String)
  | checksum (rel : String)
  | configNotJSON
  /-- A write into a nil map, which ends the request that restores. -/
  | panic
  deriving DecidableEq, Repr

/-- `ReadManifest` -/
def readManifest (disk : FileTree Bytes) (snapDir : Path) : Except Err Manifest :=
  match disk.readFile (snapDir ++ [manifestName]) with
  | none => .error .manifestUnreadable
  | some data =>
    match unmarshalManifest data with
    | none => .error .manifestUndecodable
    | some m => if manifestVersion < m.version then .error (.manifestNewer m.version) else .ok m

end FusionLocalServer.Backup
