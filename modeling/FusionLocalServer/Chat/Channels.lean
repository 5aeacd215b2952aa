import FusionLocalServer.Chat.Store
import FusionLocalServer.Lib.Decimal
import FusionLocalServer.Lib.Table
import FusionLocalServer.Lib.Text
import FusionLocalServer.Storage.Schema

/-!
# The channels of a project (`chat/store.go`)

What the store keeps of one project: a file with the channels and the counter their ids come
from, in memory once it is loaded, and on disk; and the log of each channel in a file of its
own, named by the channel's id, and there from the first look at the channel's messages on.
Each operation runs under the lock of the project, so it is one step. The counters of the
channels and of the runs are taken to have no bound.
-/

namespace FusionLocalServer.Chat

open Lib Std Storage

def metaVersion : Int := 2

def RootChannelName : String := "general"
def maxNameRunes : Nat := 80
def maxTopicRunes : Nat := 500

structure ChannelMember where
  userID : String
  role : String
  addedBy : String
  addedAt : Time
  deriving DecidableEq, Inhabited

/-- A channel, without its messages. -/
structure ChannelDef where
  id : String
  name : String
  topic : String := ""
  isRoot : Bool := false
  isPrivate : Bool := false
  createdBy : String := ""
  createdAt : Time
  archivedAt : Option Time := none
  members : List ChannelMember := []
  deriving DecidableEq, Inhabited

structure ProjectMeta where
  version : Int
  schema : Stamp
  projectID : String
  eventEpoch : Int
  nextChannelID : Int
  channels : List ChannelDef
  deriving DecidableEq, Inhabited

/-- What there is in the place of the file on disk. -/
inductive StoredMeta where
  | file (pm : ProjectMeta)
  /-- Something that cannot be decoded. -/
  | damaged
  deriving DecidableEq

/-- What an operation meets with, beside what every store does. -/
structure MetaEnv extends Storage.Env where
  /-- The copy made ahead of a migration cannot be written. -/
  copyFails : Bool := false
  renameFails : Bool := false
  /-- `strings.EqualFold`. -/
  equalFold : String → String → Bool := fun a b => a = b

/-- One project of the store. -/
structure Project where
  pm : Option ProjectMeta := none
  disk : Option StoredMeta := none
  /-- The logs there are, by the ids of their channels. -/
  logs : ExtTreeMap String LogFile := ∅
  /-- The channels whose messages are in memory. -/
  loaded : ExtTreeMap String ChannelState := ∅

/-- The id of the channel with a number. -/
def channelID (n : Int) : String := "c" ++ String.ofList (formatInt n)

def findChannel (pm : ProjectMeta) (id : String) : Option ChannelDef :=
  pm.channels.find? fun c => c.id = id

/-- A write through the pointer to the channel that was found. -/
def ProjectMeta.onChannel (pm : ProjectMeta) (id : String) (f : ChannelDef → ChannelDef) :
    ProjectMeta :=
  { pm with channels := pm.channels.modify (pm.channels.findIdx fun c => c.id = id) f }

def channelMissing (id : String) : Err := .notFound s!"channel {id}"

def validateName (name : String) : Option Err :=
  if name = "" then some (.invalid "channel name is empty")
  else if maxNameRunes < name.length then
    some (.invalid s!"channel name exceeds {maxNameRunes} characters")
  else none

def checkTopic (topic : String) : Option Err :=
  if maxTopicRunes < topic.length then some (.invalid s!"topic exceeds {maxTopicRunes} characters")
  else none

/-! ## Loading -/

def freshMeta (env : MetaEnv) (projectID : String) : ProjectMeta :=
  { version := metaVersion, schema := newStamp env.toEnv, projectID, eventEpoch := 1
    nextChannelID := 1, channels := [] }

/-- What is put right in a file that was read. The migration leaves the data as it is. -/
def repairMeta (env : MetaEnv) (pm : ProjectMeta) : ProjectMeta :=
  { pm with
    version := metaVersion
    schema := if pm.schema.createdAt = Storage.zeroTime then backfill env.toEnv else pm.schema }

/-- A file that can be migrated, if it needs to be. -/
def ProjectMeta.Migrates (env : MetaEnv) (pm : ProjectMeta) : Prop :=
  pm.version = metaVersion ∨ (1 ≤ pm.version ∧ env.copyFails = false)

instance (env : MetaEnv) (pm : ProjectMeta) : Decidable (pm.Migrates env) :=
  inferInstanceAs (Decidable (_ ∨ _))

/-- A file that cannot be used is put aside. -/
def setAside (env : MetaEnv) (disk : Option StoredMeta) : Option StoredMeta :=
  if env.renameFails then disk else none

/-- `loadMeta`, with what it leaves on disk. -/
def loadMeta (env : MetaEnv) (projectID : String) (disk : Option StoredMeta) :
    Option StoredMeta × Except Err ProjectMeta :=
  if env.readFails then (disk, .error (.io "read"))
  else
    match disk with
    | none => (none, .ok (freshMeta env projectID))
    | some .damaged => (setAside env disk, .ok (freshMeta env projectID))
    | some (.file pm) =>
      if metaVersion < pm.version then (disk, .error (.futureVersion pm.version))
      else if pm.Migrates env then (disk, .ok (repairMeta env pm))
      else (setAside env disk, .ok (freshMeta env projectID))

namespace Project

/-- `saveMeta` with `new` in memory, and `old` again when it fails; the stamp of the save
stays on it if it got that far. -/
def commit {α : Type} (p : Project) (env : MetaEnv) (old new : ProjectMeta) (a : α) :
    Project × Except Err α :=
  if env.dirFails then ({ p with pm := some old }, .error (.io "create project dir"))
  else if env.saveFails then
    ({ p with pm := some { old with schema := old.schema.touch env.toEnv } }, .error (.io "save"))
  else
    let pm := { new with schema := new.schema.touch env.toEnv }
    ({ p with pm := some pm, disk := some (.file pm) }, .ok a)

/-- `project`: the file in memory. Loading it counts the run, and only a load that is saved
is kept. -/
def project (p : Project) (env : MetaEnv) (projectID : String) : Project × Except Err ProjectMeta :=
  match p.pm with
  | some pm => (p, .ok pm)
  | none =>
    match loadMeta env projectID p.disk with
    | (disk, .error e) => ({ p with disk }, .error e)
    | (disk, .ok pm) =>
      if env.dirFails || env.saveFails then ({ p with disk }, .error (.io "save"))
      else
        let pm := { pm with eventEpoch := pm.eventEpoch + 1, schema := pm.schema.touch env.toEnv }
        ({ p with pm := some pm, disk := some (.file pm), loaded := ∅ }, .ok pm)

/-- What an operation does with the loaded project. -/
def onMeta {α : Type} (p : Project) (env : MetaEnv) (projectID : String)
    (go : Project → ProjectMeta → Project × Except Err α) : Project × Except Err α :=
  match p.project env projectID with
  | (p, .error e) => (p, .error e)
  | (p, .ok pm) => go p pm

/-! ## Channels -/

/-- The next channel, with what is its own. -/
def addChannel (pm : ProjectMeta) (c : ChannelDef) : ProjectMeta :=
  { pm with nextChannelID := pm.nextChannelID + 1
            channels := pm.channels ++ [{ c with id := channelID pm.nextChannelID }] }

/-- `ensureRootLocked`. -/
def ensureRoot (p : Project) (env : MetaEnv) (pm : ProjectMeta) : Project × Except Err ProjectMeta :=
  if pm.channels.any (·.isRoot) then (p, .ok pm)
  else
    let new := addChannel pm { id := "", name := RootChannelName, isRoot := true, createdAt := env.now }
    match p.commit env pm new () with
    | (p, .error e) => (p, .error e)
    | (p, .ok ()) => (p, .ok { new with schema := new.schema.touch env.toEnv })

/-- The members a private channel starts with, each once. -/
def firstMembers (createdBy : String) (memberIDs : List String) (now : Time) : List ChannelMember :=
  memberIDs.foldl (fun members id =>
    if id = "" ∨ id = createdBy ∨ id ∈ members.map (·.userID) then members
    else members ++ [{ userID := id, role := "member", addedBy := createdBy, addedAt := now }])
    [{ userID := createdBy, role := "owner", addedBy := createdBy, addedAt := now }]

/-- `CreateChannel`. -/
def createChannel (p : Project) (env : MetaEnv) (projectID name topic createdBy : String)
    (isPrivate : Bool) (memberIDs : List String) : Project × Except Err ChannelDef :=
  let name := trimSpace name
  let topic := trimSpace topic
  match (validateName name).or (checkTopic topic) with
  | some e => (p, .error e)
  | none =>
    p.onMeta env projectID fun p pm =>
      match p.ensureRoot env pm with
      | (p, .error e) => (p, .error e)
      | (p, .ok pm) =>
        if pm.channels.any (fun c => env.equalFold c.name name) then
          (p, .error (.invalid s!"a channel named {name} already exists"))
        else
          let c : ChannelDef :=
            { id := channelID pm.nextChannelID, name, topic, isPrivate, createdBy
              createdAt := env.now
              members := if isPrivate then firstMembers createdBy memberIDs env.now else [] }
          p.commit env pm (addChannel pm c) c

/-- An operation on a channel that is there: refused, with what it has written in memory by
then, or a write to be saved; none is a channel that is left as it is. -/
abbrev ChannelOp := ProjectMeta → ChannelDef →
  Except (Err × (ChannelDef → ChannelDef)) (Option (ChannelDef → ChannelDef))

def onChannel (p : Project) (env : MetaEnv) (projectID id : String) (op : ChannelOp) :
    Project × Except Err ChannelDef :=
  p.onMeta env projectID fun p pm =>
    match findChannel pm id with
    | none => (p, .error (channelMissing id))
    | some c =>
      match op pm c with
      | .error (e, f) => ({ p with pm := some (pm.onChannel id f) }, .error e)
      | .ok none => (p, .ok c)
      | .ok (some f) => p.commit env pm (pm.onChannel id f) (f c)

/-- The checks of a new name. -/
def checkRename (env : MetaEnv) (pm : ProjectMeta) (c : ChannelDef) (name : String) : Option Err :=
  if c.isRoot = true ∧ ¬ env.equalFold name c.name = true then
    some (.invalid "the root channel cannot be renamed")
  else (validateName name).or
    (if pm.channels.any (fun other => other.id ≠ c.id && env.equalFold other.name name) then
      some (.invalid s!"a channel named {name} already exists")
    else none)

/-- `UpdateChannel`. -/
def updateChannel (env : MetaEnv) (name topic : Option String) : ChannelOp := fun pm c =>
  let rename (c : ChannelDef) := { c with name := (name.map trimSpace).getD c.name }
  match name.bind fun name => checkRename env pm c (trimSpace name) with
  | some e => .error (e, id)
  | none =>
    match topic.bind fun topic => checkTopic (trimSpace topic) with
    -- the name is not taken back
    | some e => .error (e, rename)
    | none => .ok (some fun c =>
        { rename c with topic := (topic.map trimSpace).getD c.topic })

/-- `ArchiveChannel`. -/
def archiveChannel (env : MetaEnv) : ChannelOp := fun _ c =>
  if c.isRoot then .error (.invalid "the root channel cannot be archived", id)
  else .ok (if c.archivedAt.isSome then none
    else some fun c => { c with archivedAt := some env.now })

/-- A public channel has no members of its own. -/
def checkPrivate (c : ChannelDef) : Except (Err × (ChannelDef → ChannelDef)) Unit :=
  if c.isPrivate then .ok ()
  else .error
    (.invalid s!"{c.name} is a public channel; membership comes from the project", id)

/-- `AddChannelMember`. -/
def addChannelMember (env : MetaEnv) (userID addedBy : String) : ChannelOp := fun _ c => do
  checkPrivate c
  pure (if c.members.any (fun m => m.userID = userID) then none
    else some fun c => { c with members := c.members ++
      [{ userID, role := "member", addedBy, addedAt := env.now }] })

/-- `RemoveChannelMember`. -/
def removeChannelMember (userID : String) : ChannelOp := fun _ c => do
  checkPrivate c
  pure ((c.members.findIdx? fun m => m.userID = userID).map fun i =>
    fun c => { c with members := c.members.eraseIdx i })

/-! ## Messages -/

/-- A channel with its log and what is in memory of it. -/
def channelOf (p : Project) (c : ChannelDef) : Channel where
  name := c.name
  archivedAt := c.archivedAt
  file := p.logs[c.id]?.getD { bytes := [], bak := none }
  loaded := p.loaded[c.id]?
  acked := []

/-- The channel goes back to where it came from; the log is there once it was opened. -/
def withChannel (p : Project) (id : String) (ch : Channel) : Project :=
  { p with
    logs := if p.logs[id]?.isSome ∨ ch.loaded.isSome then p.logs.insert id ch.file else p.logs
    loaded := match ch.loaded with
      | some cs => p.loaded.insert id cs
      | none => p.loaded }

/-- What is done with a channel's messages. -/
def onMessages (p : Project) (env : MetaEnv) (projectID id : String) (go : Channel → Channel) :
    Project × Except Err Unit :=
  p.onMeta env projectID fun p pm =>
    match findChannel pm id with
    | none => (p, .error (channelMissing id))
    | some c => (p.withChannel id (go (p.channelOf c)), .ok ())

/-- The messages of a channel are looked at, and loaded if need be. -/
def readMessages (p : Project) (env : MetaEnv) (projectID id : String) (chEnv : Env) :
    Project × Except Err Unit :=
  p.onMessages env projectID id fun ch => (ch.channelState chEnv).1

/-- What is checked of a message ahead of anything else. -/
def checkMessage : Op → Option Err
  | .create authorID authorName clientMsgID body threadRoot =>
    (Store.createMessage 0 authorID authorName clientMsgID body threadRoot).check
  | .edit seq body => (Store.editMessage 0 seq body).check
  | .delete seq => (Store.deleteMessage 0 seq).check
  | .react seq userID emoji => (Store.addReaction 0 seq userID emoji).check
  | .unreact seq userID emoji => (Store.removeReaction 0 seq userID emoji).check
  | .archive => none
  | .restart => none

/-- The messages of a channel are changed. -/
def changeMessages (p : Project) (env : MetaEnv) (projectID id : String) (chEnv : Env) (op : Op) :
    Project × Except Err Unit :=
  match checkMessage op with
  | some e => (p, .error e)
  | none => p.onMessages env projectID id fun ch => exec ch chEnv op

/-- `Reset`, or the process starting anew. -/
def reset (p : Project) : Project := { p with pm := none, loaded := ∅ }

end Project

end FusionLocalServer.Chat
