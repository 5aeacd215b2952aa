import FusionLocalServer.Lib.Run
import FusionLocalServer.Notifications.Types

/-!
# The notification store

One user's inbox: the file in memory, once it is loaded, and the file on disk. Every mutation
rewrites the file; when that fails, memory goes back to a copy. `Add` and `Delete` take the
copy before they change anything, and `setRead` after.
-/

namespace Notifications

open Lib (Time formatInt incr64 trimSpace)
open FusionLocalServer.Storage

/-- The user's file. The texts of a file are what its bytes decode to, so that it is kept as
what was handed to the encoder. -/
inductive Disk where
  | absent
  /-- A file that does not decode. -/
  | damaged
  | file (uf : UserFile)

def freshFile (env : Env) (userKey : String) : UserFile :=
  { version := fileVersion, schema := newStamp env, userKey, nextID := 1, notifications := [] }

def repairFile (env : Env) (userKey : String) (uf : UserFile) : UserFile :=
  { uf with
    nextID := if uf.nextID < 1 then 1 else uf.nextID
    userKey := if uf.userKey = "" then userKey else uf.userKey
    schema := if uf.schema.createdAt = zeroTime then backfill env else uf.schema }

/-- `loadFile`, with the file it leaves: one that does not decode, or that there is no
migration of, is put aside. -/
def loadFile (env : Env) (userKey : String) (disk : Disk) : Disk × Except Err UserFile :=
  if env.readFails then (disk, .error ⟨.io, "notifications: reading %s", []⟩)
  else
    match disk with
    | .absent | .damaged => (.absent, .ok (freshFile env userKey))
    | .file uf =>
      if fileVersion < uf.version then
        (disk, .error ⟨.futureVersion, "notifications: data written by a newer version", []⟩)
      else if uf.version < fileVersion then (.absent, .ok (freshFile env userKey))
      else (disk, .ok (repairFile env userKey uf.written))

/-- A user's inbox. -/
structure Inbox where
  file : Option UserFile
  disk : Disk

/-- What an operation returns. -/
inductive Reply where
  | entry (n : Notification) (created : Bool)
  | entries (ns : List Notification)
  | count (n : Nat)
  | found (b : Bool)
  | nothing

abbrev Result := Except Err Reply

/-- The error of a failed save. -/
def saveErr : Err := ⟨.io, "save failed", []⟩

/-- Whether a save goes through. -/
def saves (env : Env) : Bool := !(env.dirFails || env.saveFails)

namespace Inbox

/-- `user`. -/
def user (s : Inbox) (env : Env) (userKey : String) : Inbox × Except Err UserFile :=
  match s.file with
  | some uf => (s, .ok uf)
  | none =>
    match loadFile env userKey s.disk with
    | (disk, .error e) => ({ s with disk }, .error e)
    | (disk, .ok uf) => ({ file := some uf, disk }, .ok uf)

/-- `saveFile`, of a file in memory; true when it succeeds. -/
def saveFile (s : Inbox) (env : Env) (uf : UserFile) : Inbox × Bool :=
  if env.dirFails then ({ s with file := some uf }, false)
  else
    let uf := { uf with schema := uf.schema.touch env }
    if env.saveFails then ({ s with file := some uf }, false)
    else ({ file := some uf, disk := .file uf }, true)

/-- What the operations do once the inbox is loaded. -/
def onFile (s : Inbox) (env : Env) (userKey : String) (k : Inbox → UserFile → Inbox × Result) :
    Inbox × Result :=
  match s.user env userKey with
  | (s, .error e) => (s, .error e)
  | (s, .ok uf) => k s uf

end Inbox

/-! ## Reads -/

/-- The entries that `List` returns, newest first; no limit when it is 0. -/
def listed (limit : Int) (ns : List Notification) : List Notification :=
  if 0 < limit then ns.reverse.take limit.toNat else ns.reverse

def unread (ns : List Notification) : Nat := ns.countP fun n => !n.read

/-- The entry that has a key already. -/
def withKey (key : String) (ns : List Notification) : Option Notification :=
  if key = "" then none else ns.find? fun n => n.dedupeKey = key

/-! ## Mutations -/

/-- The entry that `Add` makes of a notification. -/
def newEntry (env : Env) (nextID : Int) (n : Notification) : Notification :=
  { id := "n" ++ String.ofList (formatInt nextID)
    num := nextID
    kind := n.kind
    hubID := n.hubID
    projectID := n.projectID
    projectName := n.projectName
    actor := n.actor
    subject := truncateRunes n.subject MaxSubjectRunes
    ref := truncateBytes n.ref MaxRefLen
    channelID := n.channelID
    channelName := truncateRunes n.channelName MaxSubjectRunes
    messageSeq := n.messageSeq
    dedupeKey := n.dedupeKey
    read := false
    createdAt := env.now }

/-- The file with a new entry. -/
def UserFile.push (env : Env) (n : Notification) (uf : UserFile) : UserFile :=
  { uf with
    nextID := incr64 uf.nextID
    notifications :=
      pruneOldest MaxPerUser (uf.notifications ++ [newEntry env uf.nextID n]) }

/-- The entry marked as read, when it is selected and is not. -/
def Notification.mark (now : Time) (sel : Notification → Bool) (n : Notification) : Notification :=
  if !n.read && sel n then { n with read := true, readAt := some now } else n

def UserFile.mark (now : Time) (sel : Notification → Bool) (uf : UserFile) : UserFile :=
  { uf with notifications := uf.notifications.map (·.mark now sel) }

/-- What `MarkRead` selects. -/
def wants (ids : List String) (n : Notification) : Bool :=
  ((ids.map trimSpace).filter (· ≠ "")).contains n.id

namespace Inbox

/-- `Add`. -/
def add (s : Inbox) (env : Env) (userKey : String) (n : Notification) : Inbox × Result :=
  if trimSpace userKey = "" then (s, .error ⟨.invalid, "empty user key", []⟩)
  else if !validKind n.kind then (s, .error ⟨.invalid, "unknown kind %q", [n.kind]⟩)
  else
    s.onFile env userKey fun s uf =>
      match withKey n.dedupeKey uf.notifications with
      | some ex => (s, .ok (.entry ex false))
      | none =>
        let prev := uf
        match s.saveFile env (uf.push env n) with
        | (s, false) => ({ s with file := some prev }, .error saveErr)
        | (s, true) => (s, .ok (.entry (newEntry env uf.nextID n) true))

/-- `setRead`. The copy that a failed save goes back to is taken of the marked file. -/
def setRead (s : Inbox) (env : Env) (uf : UserFile) (sel : Notification → Bool) :
    Inbox × Result :=
  let marked := uf.mark env.now sel
  if uf.notifications.any fun n => !n.read && sel n then
    let prev := marked
    match s.saveFile env marked with
    | (s, false) => ({ s with file := some prev }, .error saveErr)
    | (s, true) => (s, .ok (.count (unread marked.notifications)))
  else ({ s with file := some marked }, .ok (.count (unread marked.notifications)))

/-- `MarkRead`. -/
def markRead (s : Inbox) (env : Env) (userKey : String) (ids : List String) : Inbox × Result :=
  s.onFile env userKey fun s uf => s.setRead env uf (wants ids)

/-- `MarkAllRead`. -/
def markAllRead (s : Inbox) (env : Env) (userKey : String) : Inbox × Result :=
  s.onFile env userKey fun s uf => s.setRead env uf fun _ => true

/-- `Delete`. -/
def delete (s : Inbox) (env : Env) (userKey id : String) : Inbox × Result :=
  s.onFile env userKey fun s uf =>
    match uf.notifications.findIdx? fun n => n.id = id with
    | none => (s, .ok (.count (unread uf.notifications)))
    | some idx =>
      let prev := uf
      let ns := uf.notifications.eraseIdx idx
      match s.saveFile env { uf with notifications := ns } with
      | (s, false) => ({ s with file := some prev }, .error saveErr)
      | (s, true) => (s, .ok (.count (unread ns)))

end Inbox

/-! ## Runs -/

/-- A call of an operation of the store for one user. -/
inductive Op where
  | list (limit : Int)
  | unreadCount
  | hasDedupe (key : String)
  | add (n : Notification)
  | markRead (ids : List String)
  | markAllRead
  | delete (id : String)
  /-- Drops what is in memory. -/
  | reset

structure Event where
  env : Env
  op : Op

namespace Inbox

/-- One operation. -/
def exec (s : Inbox) (env : Env) (userKey : String) : Op → Inbox × Result
  | .list limit => s.onFile env userKey fun s uf => (s, .ok (.entries (listed limit uf.notifications)))
  | .unreadCount => s.onFile env userKey fun s uf => (s, .ok (.count (unread uf.notifications)))
  | .hasDedupe key =>
    if key = "" then (s, .ok (.found false))
    else
      s.onFile env userKey fun s uf => (s, .ok (.found (withKey key uf.notifications).isSome))
  | .add n => s.add env userKey n
  | .markRead ids => s.markRead env userKey ids
  | .markAllRead => s.markAllRead env userKey
  | .delete id => s.delete env userKey id
  | .reset => ({ s with file := none }, .ok .nothing)

/-- One event of a run on a user's inbox. -/
def Happens (userKey : String) (s : Inbox) (e : Event) (s' : Inbox) : Prop :=
  (s.exec e.env userKey e.op).1 = s'

/-- An inbox that nobody has touched since the process started. -/
def start (disk : Disk) : Inbox := { file := none, disk }

end Inbox

end Notifications
