import FusionLocalServer.Chat.Channels

/-!
# Read cursors (`chat/cursors.go`)

How far each user has read each channel of a project: a file of its own, in memory once it is
looked at. A cursor moves forward only, and not past the newest message there is; what is
unread is counted from the end of the channel's messages back to the cursor.
-/

namespace FusionLocalServer.Chat

open Lib Std Storage

def cursorsVersion : Int := 2

/-- The cursors by user and channel. -/
abbrev CursorTable := ExtTreeMap String (ExtTreeMap String Int)

structure CursorsFile where
  version : Int
  schema : Stamp
  cursors : CursorTable

/-- What there is in the place of the file on disk. -/
inductive StoredCursors where
  | file (cf : CursorsFile)
  /-- Something that cannot be decoded. -/
  | damaged

/-- The cursors of a project. -/
structure Cursors where
  memory : Option CursorsFile := none
  disk : Option StoredCursors := none

structure Unread where
  channelID : String
  lastReadSeq : Int
  unreadCount : Nat
  latestSeq : Int
  deriving DecidableEq

/-- The cursor of a user in a channel, 0 where there is none. -/
def cursorOf (t : CursorTable) (userKey channelID : String) : Int :=
  ((t[userKey]?).bind fun user => user[channelID]?).getD 0

def setCursor (t : CursorTable) (userKey channelID : String) (seq : Int) : CursorTable :=
  t.insert userKey (((t[userKey]?).getD ∅).insert channelID seq)

/-- The number of the newest message. -/
def latestSeq (cs : ChannelState) : Int := decr64 cs.nextSeq

/-- `unreadLocked`. -/
def unreadLocked (cs : ChannelState) (channelID : String) (cursor : Int) : Unread where
  channelID := channelID
  lastReadSeq := cursor
  unreadCount := (cs.msgs.reverse.takeWhile fun m => cursor < m.seq).countP fun m =>
    m.deletedAt = none
  latestSeq := latestSeq cs

/-- What is checked of a call ahead of anything else. -/
def checkRead (userKey : String) (seq : Int) : Option Err :=
  if userKey = "" then some (.invalid "missing user identity")
  else if seq < 0 then some (.invalid "invalid lastReadSeq")
  else none

/-- A file that can be migrated, if it needs to be. -/
def CursorsFile.Migrates (env : MetaEnv) (cf : CursorsFile) : Prop :=
  cf.version = cursorsVersion ∨ (1 ≤ cf.version ∧ env.copyFails = false)

instance (env : MetaEnv) (cf : CursorsFile) : Decidable (cf.Migrates env) :=
  inferInstanceAs (Decidable (_ ∨ _))

def freshCursors (env : MetaEnv) : CursorsFile :=
  { version := cursorsVersion, schema := newStamp env.toEnv, cursors := ∅ }

/-- What is put right in a file that was read. The migration leaves the data as it is. -/
def repairCursors (env : MetaEnv) (cf : CursorsFile) : CursorsFile :=
  { cf with
    version := cursorsVersion
    schema := if cf.schema.createdAt = Storage.zeroTime then backfill env.toEnv else cf.schema }

/-- `loadCursors`, with what it leaves on disk. -/
def loadCursors (env : MetaEnv) (disk : Option StoredCursors) :
    Option StoredCursors × Except Err CursorsFile :=
  -- a file that cannot be used is put aside
  let aside := if env.renameFails then disk else none
  if env.readFails then (disk, .error (.io "read"))
  else
    match disk with
    | none => (none, .ok (freshCursors env))
    | some .damaged => (aside, .ok (freshCursors env))
    | some (.file cf) =>
      if cursorsVersion < cf.version then (disk, .error (.futureVersion cf.version))
      else if cf.Migrates env then (disk, .ok (repairCursors env cf))
      else (aside, .ok (freshCursors env))

namespace Cursors

/-- `ensureCursorsLocked`. -/
def ensure (c : Cursors) (env : MetaEnv) : Cursors × Except Err CursorsFile :=
  match c.memory with
  | some cf => (c, .ok cf)
  | none =>
    match loadCursors env c.disk with
    | (disk, .error e) => ({ c with disk }, .error e)
    | (disk, .ok cf) => ({ memory := some cf, disk }, .ok cf)

/-- `saveCursors`, of the file in memory; its stamp stays touched if it got that far. -/
def save (c : Cursors) (env : MetaEnv) (cf : CursorsFile) : Cursors × Except Err Unit :=
  if env.dirFails then ({ c with memory := some cf }, .error (.io "create project dir"))
  else
    let cf := { cf with schema := cf.schema.touch env.toEnv }
    if env.saveFails then ({ c with memory := some cf }, .error (.io "save"))
    else ({ memory := some cf, disk := some (.file cf) }, .ok ())

/-- A write into the file in memory. -/
def put (c : Cursors) (userKey channelID : String) (seq : Int) : Cursors :=
  { c with memory := c.memory.map fun cf =>
      { cf with cursors := setCursor cf.cursors userKey channelID seq } }

/-- `SetReadCursor`, for a channel that is loaded. -/
def setReadCursor (c : Cursors) (env : MetaEnv) (cs : ChannelState) (userKey channelID : String)
    (seq : Int) : Cursors × Except Err (Unread × Bool) :=
  match c.ensure env with
  | (c, .error e) => (c, .error e)
  | (c, .ok cf) =>
    let seq := if latestSeq cs < seq then latestSeq cs else seq
    let prev := cursorOf cf.cursors userKey channelID
    if prev < seq then
      match c.save env { cf with cursors := setCursor cf.cursors userKey channelID seq } with
      | (c, .error e) => (c.put userKey channelID prev, .error e)
      | (c, .ok ()) => (c, .ok (unreadLocked cs channelID seq, true))
    else (c, .ok (unreadLocked cs channelID prev, false))

/-- One channel of `Unreads`, for a channel that is loaded. -/
def unread (c : Cursors) (env : MetaEnv) (cs : ChannelState) (userKey channelID : String) :
    Cursors × Except Err Unread :=
  match c.ensure env with
  | (c, .error e) => (c, .error e)
  | (c, .ok cf) =>
    (c, .ok (unreadLocked cs channelID (cursorOf cf.cursors userKey channelID)))

end Cursors

/-! ## The table -/

theorem cursorOf_setCursor (t : CursorTable) (userKey channelID : String) (seq : Int)
    (user channel : String) :
    cursorOf (setCursor t userKey channelID seq) user channel =
      if userKey = user ∧ channelID = channel then seq else cursorOf t user channel := by
  unfold cursorOf setCursor
  rw [Table.get_insert]
  by_cases huser : userKey = user
  · subst huser
    rw [if_pos rfl, Option.bind_some, Table.get_insert]
    by_cases hchannel : channelID = channel
    · rw [if_pos hchannel, if_pos ⟨rfl, hchannel⟩]
      rfl
    · rw [if_neg hchannel, if_neg fun h => hchannel h.2]
      cases t[userKey]? with
      | none => rw [Option.getD_none, ExtTreeMap.getElem?_empty, Option.bind_none]
      | some row => rfl
  · rw [if_neg huser, if_neg fun h => huser h.1]

/-- What the file is to the program: the cursors on disk as a load would find them, or those in
memory. -/
def Cursors.table (c : Cursors) : CursorTable :=
  match c.memory, c.disk with
  | some cf, _ => cf.cursors
  | none, some (.file cf) => cf.cursors
  | none, _ => ∅

theorem cursorOf_empty (userKey channelID : String) : cursorOf ∅ userKey channelID = 0 := by
  unfold cursorOf
  rw [ExtTreeMap.getElem?_empty, Option.bind_none, Option.getD_none]

end FusionLocalServer.Chat
