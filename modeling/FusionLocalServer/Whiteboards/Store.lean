import FusionLocalServer.Lib.Decimal
import FusionLocalServer.Lib.Text
import FusionLocalServer.Storage.Schema
import FusionLocalServer.Whiteboards.Patch

/-!
# The whiteboard store (`whiteboards/store.go`)

What the store keeps of one project: a file with the boards and the counter their ids come
from, in memory once it is loaded, and on disk; and next to it one file for each drawing,
named by the board's id. A drawing and the revision it is at are in two files, written one
after the other. Each operation runs under the lock of the project, so it is one step;
deleting a board is, too, once the live room is dropped.
-/

namespace FusionLocalServer.Whiteboards

open Lib Std Storage
open Lib.Json (byteLen)

def fileVersion : Int := 2

/-- A board, without its drawing. -/
structure Board where
  id : String
  num : Int
  name : String
  createdBy : UserRef
  createdAt : Time
  updatedAt : Time
  /-- Who last saved the drawing. -/
  updatedBy : UserRef
  snapshotBytes : Int := 0
  /-- Counts the saves of the drawing. -/
  docRev : Int := 0
  deriving DecidableEq, Inhabited

structure ProjectFile where
  version : Int
  schema : Stamp
  projectID : String
  hubID : String := ""
  projectName : String := ""
  nextBoardID : Int
  boards : List Board
  deriving DecidableEq, Inhabited

/-- What there is in the place of the file on disk. -/
inductive Stored where
  | file (pf : ProjectFile)
  /-- Something that cannot be decoded. -/
  | damaged
  deriving DecidableEq

/-- What an operation meets with, beside what every store does. -/
structure Env extends Storage.Env where
  /-- The copy made ahead of a migration cannot be written. -/
  copyFails : Bool := false
  renameFails : Bool := false
  docReadFails : Bool := false
  docWriteFails : Bool := false
  removeFails : Bool := false

/-- One project of the store. -/
structure Project where
  file : Option ProjectFile := none
  disk : Option Stored := none
  /-- The drawings on disk, by the ids of their boards: `snapshotPath` leaves an id that the
  store made as it is. -/
  docs : ExtTreeMap String (List Char) := ∅

/-- The id of the board with a number. -/
def boardID (n : Int) : String := "w" ++ String.ofList (formatInt n)

def findBoard (pf : ProjectFile) (id : String) : Option Board := pf.boards.find? fun b => b.id = id

/-- A write through the pointer to the board that was found. -/
def ProjectFile.onBoard (pf : ProjectFile) (id : String) (f : Board → Board) : ProjectFile :=
  { pf with boards := pf.boards.modify (pf.boards.findIdx fun b => b.id = id) f }

def boardMissing (id : String) : Err := ⟨.notFound, "whiteboard %q", [id]⟩

def validateName (name : String) : Except Err Unit := do
  refuse (name = "") ⟨.invalid, "name is empty", []⟩
  refuse (MaxNameRunes < name.length)
    ⟨.invalid, "name exceeds %d characters", [toString MaxNameRunes]⟩

/-! ## Loading -/

def freshFile (env : Env) (projectID : String) : ProjectFile :=
  { version := fileVersion, schema := newStamp env.toEnv, projectID, nextBoardID := 1, boards := [] }

/-- What is put right in a file that was read. The migration leaves the data as it is. -/
def repairFile (env : Env) (pf : ProjectFile) : ProjectFile :=
  { pf with
    version := fileVersion
    nextBoardID := if pf.nextBoardID < 1 then 1 else pf.nextBoardID
    schema := if pf.schema.createdAt = zeroTime then backfill env.toEnv else pf.schema }

/-- A file that can be migrated, if it needs to be. -/
def ProjectFile.migrates (env : Env) (pf : ProjectFile) : Prop :=
  pf.version = fileVersion ∨ (1 ≤ pf.version ∧ env.copyFails = false)

instance (env : Env) (pf : ProjectFile) : Decidable (pf.migrates env) :=
  inferInstanceAs (Decidable (_ ∨ _))

/-- A file that cannot be used is put aside. -/
def setAside (env : Env) (disk : Option Stored) : Option Stored :=
  if env.renameFails then disk else none

/-- `loadFile`, with what it leaves on disk. -/
def loadFile (env : Env) (projectID : String) (disk : Option Stored) :
    Option Stored × Except Err ProjectFile :=
  if env.readFails then (disk, .error ⟨.io, "whiteboards: reading %s", []⟩)
  else
    match disk with
    | none => (none, .ok (freshFile env projectID))
    | some .damaged => (setAside env disk, .ok (freshFile env projectID))
    | some (.file pf) =>
      if fileVersion < pf.version then (disk, .error ⟨.futureVersion, "%s", []⟩)
      else if pf.migrates env then (disk, .ok (repairFile env pf))
      else (setAside env disk, .ok (freshFile env projectID))

namespace Project

/-- `project`: the file in memory, loaded if need be. -/
def project (p : Project) (env : Env) (projectID : String) : Project × Except Err ProjectFile :=
  match p.file with
  | some pf => (p, .ok pf)
  | none =>
    match loadFile env projectID p.disk with
    | (disk, .error e) => ({ p with disk }, .error e)
    | (disk, .ok pf) => ({ p with file := some pf, disk }, .ok pf)

/-- `saveFile`, with the file in memory put back when it fails. -/
def save {α : Type} (p : Project) (env : Env) (pf : ProjectFile) (result : α) :
    Project × Except Err α :=
  if env.dirFails || env.saveFails then (p, .error ⟨.io, "whiteboards: saving", []⟩)
  else
    let pf := { pf with schema := pf.schema.touch env.toEnv }
    ({ p with file := some pf, disk := some (.file pf) }, .ok result)

/-- `writeSnapshot`. -/
def writeSnapshot (p : Project) (env : Env) (id : String) (doc : List Char) :
    Project × Except Err Unit :=
  if env.dirFails || env.docWriteFails then (p, .error ⟨.io, "whiteboards: writing document", []⟩)
  else ({ p with docs := p.docs.insert id doc }, .ok ())

/-- `Document`: the drawing, if there is one, and its revision. -/
def document (p : Project) (env : Env) (projectID id : String) :
    Project × Except Err (Option (List Char) × Int) :=
  match p.project env projectID with
  | (p, .error e) => (p, .error e)
  | (p, .ok pf) =>
    match findBoard pf id with
    | none => (p, .error (boardMissing id))
    | some b =>
      if env.docReadFails then (p, .error ⟨.io, "whiteboards: reading document", []⟩)
      else (p, .ok (p.docs[id]?, b.docRev))

/-- `Create`. -/
def create (p : Project) (env : Env) (projectID hubID projectName name : String)
    (createdBy : UserRef) : Project × Except Err Board :=
  let name := trimSpace name
  match validateName name with
  | .error e => (p, .error e)
  | .ok () =>
    match p.project env projectID with
    | (p, .error e) => (p, .error e)
    | (p, .ok pf) =>
      if MaxBoardsPerProject ≤ pf.boards.length then
        (p, .error ⟨.invalid, "project already has %d whiteboards", [toString MaxBoardsPerProject]⟩)
      else
        let b : Board :=
          { id := boardID pf.nextBoardID, num := pf.nextBoardID, name, createdBy
            createdAt := env.now, updatedAt := env.now, updatedBy := createdBy }
        p.save env { pf with nextBoardID := pf.nextBoardID + 1, hubID, projectName
                             boards := pf.boards ++ [b] } b

/-- `Update`: a new name, if there is one. -/
def update (p : Project) (env : Env) (projectID id : String) (name : Option String) :
    Project × Except Err Board :=
  let name := name.map trimSpace
  match name.elim (.ok ()) validateName with
  | .error e => (p, .error e)
  | .ok () =>
    match p.project env projectID with
    | (p, .error e) => (p, .error e)
    | (p, .ok pf) =>
      match findBoard pf id with
      | none => (p, .error (boardMissing id))
      | some b =>
        let change (b : Board) : Board := { b with name := name.getD b.name, updatedAt := env.now }
        p.save env (pf.onBoard id change) (change b)

/-- `Delete`, after the live room is dropped. A drawing that cannot be removed stays. -/
def delete (p : Project) (env : Env) (projectID id : String) : Project × Except Err Unit :=
  match p.project env projectID with
  | (p, .error e) => (p, .error e)
  | (p, .ok pf) =>
    match pf.boards.findIdx? fun b => b.id = id with
    | none => (p, .error (boardMissing id))
    | some i =>
      match p.save env { pf with boards := pf.boards.eraseIdx i } () with
      | (p, .error e) => (p, .error e)
      | (p, .ok ()) =>
        (if env.removeFails then p else { p with docs := p.docs.erase id }, .ok ())

/-- The checks on a document that is to be stored. -/
def checkDoc (doc : List Char) : Except Err Unit := do
  refuse (doc = []) ⟨.invalid, "empty document", []⟩
  refuse (MaxSnapshotBytes < byteLen doc)
    ⟨.invalid, "document exceeds %d bytes", [toString MaxSnapshotBytes]⟩
  refuse (¬ Json.valid doc = true) ⟨.invalid, "document is not valid JSON", []⟩

/-- What a save of the drawing notes of the board. -/
def saved (env : Env) (doc : List Char) (by' : UserRef) (rev : Int) (b : Board) : Board :=
  { b with updatedAt := env.now, updatedBy := by', snapshotBytes := byteLen doc, docRev := rev }

/-- The two writes of a save: the drawing, and then its revision. -/
def writeDoc (p : Project) (env : Env) (pf : ProjectFile) (b : Board) (doc : List Char)
    (by' : UserRef) (rev : Int) : Project × Except Err Board :=
  match p.writeSnapshot env b.id doc with
  | (p, .error e) => (p, .error e)
  | (p, .ok ()) => p.save env (pf.onBoard b.id (saved env doc by' rev)) (saved env doc by' rev b)

/-- `SaveSnapshot`. -/
def saveSnapshot (p : Project) (env : Env) (projectID id : String) (doc : List Char)
    (by' : UserRef) (baseRev : Int) (force : Bool) : Project × Except Err Board :=
  match checkDoc doc with
  | .error e => (p, .error e)
  | .ok () =>
    match p.project env projectID with
    | (p, .error e) => (p, .error e)
    | (p, .ok pf) =>
      match findBoard pf id with
      | none => (p, .error (boardMissing id))
      | some b =>
        if force = false ∧ baseRev ≠ b.docRev then
          (p, .error ⟨.conflict, "board is at revision %d, save was based on %d",
            [toString b.docRev, toString baseRev]⟩)
        else p.writeDoc env pf b doc by' (b.docRev + 1)

/-- `saveSnapshotAtRev`: a live room is written at its own revision. -/
def saveSnapshotAtRev (p : Project) (env : Env) (projectID id : String) (doc : List Char)
    (by' : UserRef) (rev : Int) : Project × Except Err Board :=
  match checkDoc doc with
  | .error e => (p, .error e)
  | .ok () =>
    match p.project env projectID with
    | (p, .error e) => (p, .error e)
    | (p, .ok pf) =>
      match findBoard pf id with
      | none => (p, .error (boardMissing id))
      | some b => p.writeDoc env pf b doc by' rev

/-- `Reset`, or the process starting anew. -/
def reset (p : Project) : Project := { p with file := none }

end Project

end FusionLocalServer.Whiteboards
