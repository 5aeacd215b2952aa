import Mathlib.Logic.Function.Basic
import FusionLocalServer.Chat.Record
import FusionLocalServer.Lib.Run

/-!
# Channels and their messages (`chat/store.go`, `chat/jsonl.go`)

A channel in memory is an index over its messages, and every change to it is first
appended to the channel's log. Memory is built from the log by `replayMessages` when the
channel is first touched, and kept up by the five mutators afterwards, each with its own
code for the change it makes.

A `*Message` is shared by the message list and both indexes; here it is the position of
the message in the list, which never changes. A mutator is split where the source appends
its record: `plan` is what it decides before the append, and `Mutator.run` appends and
takes over the planned state. The history field `acked` records what was appended by
calls that succeeded.
-/

namespace FusionLocalServer.Chat

open Lib

/-! ## Messages -/

structure Reaction where
  userID : String
  emoji : String
  at' : Time
  deriving DecidableEq, Repr

structure Message where
  seq : Int
  threadRoot : Int
  authorID : String
  authorName : String
  clientMsgID : String
  body : String
  createdAt : Time
  editedAt : Option Time
  deletedAt : Option Time
  replyCount : Int
  lastReplyAt : Option Time
  reactions : List Reaction
  deriving DecidableEq, Repr

/-- `hasReaction`. -/
def hasReaction (rs : List Reaction) (userID emoji : String) : Bool :=
  rs.any fun r => r.userID = userID && r.emoji = emoji

/-- `removeReaction`. -/
def removeReaction (rs : List Reaction) (userID emoji : String) : List Reaction :=
  rs.filter fun r => r.userID ≠ userID || r.emoji ≠ emoji

/-- `channelState`, less its file handle. -/
structure ChannelState where
  msgs : List Message
  bySeq : Int → Option Nat
  byClient : String → Option Nat
  nextSeq : Int

namespace ChannelState

/-- The message with a sequence number, and where it is. -/
def message (cs : ChannelState) (seq : Int) : Option (Nat × Message) :=
  (cs.bySeq seq).bind fun i => (cs.msgs[i]?).map fun m => (i, m)

/-- Write through a message pointer. -/
def update (cs : ChannelState) (i : Nat) (f : Message → Message) : ChannelState :=
  { cs with msgs := cs.msgs.modify i f }

end ChannelState

/-! ## Replay -/

/-- The state of a channel whose log is empty. -/
def emptyState : ChannelState where
  msgs := []
  bySeq := fun _ => none
  byClient := fun _ => none
  nextSeq := 1

/-- `case opCreate`. -/
def replayCreate (cs : ChannelState) (rec : Record) : ChannelState :=
  let m : Message :=
    { seq := rec.seq, threadRoot := rec.threadRoot, authorID := rec.authorID,
      authorName := rec.authorName, clientMsgID := rec.clientMsgID, body := rec.body,
      createdAt := rec.at', editedAt := none, deletedAt := none, replyCount := 0,
      lastReplyAt := none, reactions := [] }
  let i := cs.msgs.length
  let cs : ChannelState :=
    { msgs := cs.msgs ++ [m]
      bySeq := Function.update cs.bySeq m.seq (some i)
      byClient :=
        if m.clientMsgID ≠ "" then Function.update cs.byClient m.clientMsgID (some i)
        else cs.byClient
      nextSeq := if cs.nextSeq ≤ m.seq then incr64 m.seq else cs.nextSeq }
  match cs.message m.threadRoot with
  | some (j, _) =>
    if m.threadRoot ≠ 0 then
      cs.update j fun root =>
        { root with replyCount := incr64 root.replyCount, lastReplyAt := some rec.at' }
    else cs
  | none => cs

/-- `case opEdit`. -/
def replayEdit (cs : ChannelState) (rec : Record) : ChannelState :=
  match cs.message rec.target with
  | some (i, m) =>
    if m.deletedAt = none then
      cs.update i fun m => { m with body := rec.body, editedAt := some rec.at' }
    else cs
  | none => cs

/-- `case opDelete`. -/
def replayDelete (cs : ChannelState) (rec : Record) : ChannelState :=
  match cs.message rec.target with
  | some (i, m) =>
    if m.deletedAt = none then
      let cs := cs.update i fun m =>
        { m with deletedAt := some rec.at', body := "", reactions := [] }
      match cs.message m.threadRoot with
      | some (j, root) =>
        if m.threadRoot ≠ 0 ∧ 0 < root.replyCount then
          cs.update j fun root => { root with replyCount := root.replyCount - 1 }
        else cs
      | none => cs
    else cs
  | none => cs

/-- `case opReact`. -/
def replayReact (cs : ChannelState) (rec : Record) : ChannelState :=
  match cs.message rec.target with
  | some (i, m) =>
    if m.deletedAt = none ∧ hasReaction m.reactions rec.userID rec.emoji = false then
      cs.update i fun m =>
        { m with reactions :=
            m.reactions ++ [{ userID := rec.userID, emoji := rec.emoji, at' := rec.at' }] }
    else cs
  | none => cs

/-- `case opUnreact`. -/
def replayUnreact (cs : ChannelState) (rec : Record) : ChannelState :=
  match cs.message rec.target with
  | some (i, _) =>
    cs.update i fun m => { m with reactions := removeReaction m.reactions rec.userID rec.emoji }
  | none => cs

/-- One record in the loop of `replayMessages`; an unknown operation is passed over. -/
def replayRecord (cs : ChannelState) (rec : Record) : ChannelState :=
  if rec.op = opCreate then replayCreate cs rec
  else if rec.op = opEdit then replayEdit cs rec
  else if rec.op = opDelete then replayDelete cs rec
  else if rec.op = opReact then replayReact cs rec
  else if rec.op = opUnreact then replayUnreact cs rec
  else cs

section Dispatch

variable {cs : ChannelState} {rec : Record}

theorem replayRecord_create (h : rec.op = opCreate) : replayRecord cs rec = replayCreate cs rec :=
  if_pos h

theorem replayRecord_edit (h : rec.op = opEdit) : replayRecord cs rec = replayEdit cs rec := by
  rw [replayRecord, h, if_neg (by decide), if_pos rfl]

theorem replayRecord_delete (h : rec.op = opDelete) :
    replayRecord cs rec = replayDelete cs rec := by
  rw [replayRecord, h, if_neg (by decide), if_neg (by decide), if_pos rfl]

theorem replayRecord_react (h : rec.op = opReact) :
    replayRecord cs rec = replayReact cs rec := by
  rw [replayRecord, h, if_neg (by decide), if_neg (by decide), if_neg (by decide), if_pos rfl]

theorem replayRecord_unreact (h : rec.op = opUnreact) :
    replayRecord cs rec = replayUnreact cs rec := by
  rw [replayRecord, h, if_neg (by decide), if_neg (by decide), if_neg (by decide),
    if_neg (by decide), if_pos rfl]

end Dispatch

/-- `replayMessages`. -/
def replayMessages (recs : List Record) : ChannelState := recs.foldl replayRecord emptyState

/-! ## Channels -/

/-- A channel: what the mutators read of its metadata, its log, and its state once it has
been loaded. -/
structure Channel where
  name : String
  archivedAt : Option Time
  file : LogFile
  loaded : Option ChannelState
  acked : List Record

/-- A channel as `CreateChannel` leaves it. -/
def newChannel (name : String) : Channel where
  name := name
  archivedAt := none
  file := { bytes := [], bak := none }
  loaded := none
  acked := []

/-- What the world contributes to a call: the clock, and what the file system does to the
load and to the append, when the call comes to one. -/
structure Env where
  now : Time
  load : Option LoadFault
  write : WriteOutcome

/-- `channelState` for a channel that exists: its state, loaded on first touch. -/
def Channel.channelState (ch : Channel) (env : Env) : Channel × Except Err ChannelState :=
  match ch.loaded with
  | some cs => (ch, .ok cs)
  | none =>
    match replayLog ch.file env.load with
    | (f, .error e) => ({ ch with file := f }, .error e)
    | (f, .ok recs) =>
      if env.load = some .open' then ({ ch with file := f }, .error (.io "open"))
      else
        let cs := replayMessages recs
        ({ ch with file := f, loaded := some cs }, .ok cs)

/-- What a mutator decides before it appends: to answer without appending, or to append a
record and, once that has succeeded, to go to a state and answer. -/
inductive Plan (α : Type) where
  | reply (result : α)
  | write (rec : Record) (next : ChannelState) (result : α)

/-- A mutator: the check of its arguments, and its plan for a loaded channel. -/
structure Mutator (α : Type) where
  check : Option Err
  plan : Channel → ChannelState → Except Err (Plan α)

/-- The body of a mutator. -/
def Mutator.run {α : Type} (mt : Mutator α) (ch : Channel) (env : Env) :
    Channel × Except Err α :=
  match mt.check with
  | some e => (ch, .error e)
  | none =>
    match ch.channelState env with
    | (ch, .error e) => (ch, .error e)
    | (ch, .ok cs) =>
      match mt.plan ch cs with
      | .error e => (ch, .error e)
      | .ok (.reply result) => (ch, .ok result)
      | .ok (.write rec next result) =>
        match appendRecord ch.file rec env.write with
        | (f, .error e) => ({ ch with file := f }, .error e)
        | (f, .ok ()) =>
          ({ ch with file := f, loaded := some next, acked := ch.acked ++ [rec] }, .ok result)

/-! ## The mutators -/

/-- `MaxBodyRunes`. -/
def maxBodyRunes : Nat := 4000

/-- The check of a message body, already trimmed. -/
def checkBody (body : String) : Option Err :=
  if body = "" then some (.invalid "message body is empty")
  else if maxBodyRunes < body.length then some (.invalid "message exceeds 4000 characters")
  else none

/-- The check of a thread root. -/
def checkRoot (cs : ChannelState) (threadRoot : Int) : Option Err :=
  if threadRoot = 0 then none
  else
    match cs.message threadRoot with
    | none => some (.invalid s!"thread root {threadRoot} does not exist in this channel")
    | some (_, root) =>
      if root.threadRoot ≠ 0 then
        some (.invalid s!"threads are one level deep; {threadRoot} is itself a reply")
      else if root.deletedAt ≠ none then
        some (.invalid s!"thread root {threadRoot} was deleted")
      else none

/-- `CreateMessage`. -/
def Store.createMessage (now : Time) (authorID authorName clientMsgID body : String)
    (threadRoot : Int) : Mutator (Message × Bool) where
  check :=
    (checkBody (trimSpace body)).or
      (if clientMsgID = "" then some (.invalid "clientMsgId is required") else none)
  plan ch cs :=
    let body := trimSpace body
    if ch.archivedAt ≠ none then .error (.invalid s!"channel \"{ch.name}\" is archived")
    else
      match (cs.byClient clientMsgID).bind fun i => cs.msgs[i]? with
      | some existing => .ok (.reply (existing, false))
      | none =>
        match checkRoot cs threadRoot with
        | some e => .error e
        | none =>
          let record : Record :=
            { v := recordVersion, op := opCreate, seq := cs.nextSeq, threadRoot, authorID,
              authorName, clientMsgID, body, at' := now }
          let m : Message :=
            { seq := record.seq, threadRoot, authorID, authorName, clientMsgID, body,
              createdAt := record.at', editedAt := none, deletedAt := none, replyCount := 0,
              lastReplyAt := none, reactions := [] }
          let i := cs.msgs.length
          let next : ChannelState :=
            { msgs := cs.msgs ++ [m]
              bySeq := Function.update cs.bySeq m.seq (some i)
              byClient := Function.update cs.byClient clientMsgID (some i)
              nextSeq := incr64 cs.nextSeq }
          let next :=
            match next.message threadRoot with
            | some (j, _) =>
              if threadRoot ≠ 0 then
                next.update j fun root =>
                  { root with replyCount := incr64 root.replyCount, lastReplyAt := some record.at' }
              else next
            | none => next
          .ok (.write record next (m, true))

/-- What the other mutators begin with: the message they address. -/
def withMessage {α : Type} (cs : ChannelState) (seq : Int)
    (k : Nat → Message → Except Err (Plan α)) : Except Err (Plan α) :=
  match cs.message seq with
  | none => .error (.notFound s!"message {seq}")
  | some (i, m) => k i m

/-- `EditMessage`. -/
def Store.editMessage (now : Time) (seq : Int) (body : String) : Mutator Message where
  check := checkBody (trimSpace body)
  plan _ cs := withMessage cs seq fun i m =>
    if m.deletedAt ≠ none then .error (.invalid s!"message {seq} was deleted")
    else
      let body := trimSpace body
      let record : Record := { v := recordVersion, op := opEdit, target := seq, body, at' := now }
      let m := { m with body, editedAt := some record.at' }
      .ok (.write record (cs.update i fun _ => m) m)

/-- `DeleteMessage`. -/
def Store.deleteMessage (now : Time) (seq : Int) : Mutator Message where
  check := none
  plan _ cs := withMessage cs seq fun i m =>
    if m.deletedAt ≠ none then .ok (.reply m)
    else
      let record : Record := { v := recordVersion, op := opDelete, target := seq, at' := now }
      let m := { m with deletedAt := some record.at', body := "", reactions := [] }
      let next := cs.update i fun _ => m
      let next :=
        match next.message m.threadRoot with
        | some (j, root) =>
          if m.threadRoot ≠ 0 ∧ 0 < root.replyCount then
            next.update j fun root => { root with replyCount := root.replyCount - 1 }
          else next
        | none => next
      .ok (.write record next m)

/-- `AddReaction`. -/
def Store.addReaction (now : Time) (seq : Int) (userID emoji : String) : Mutator Message where
  check := none
  plan _ cs := withMessage cs seq fun i m =>
    if m.deletedAt ≠ none then .error (.invalid s!"message {seq} was deleted")
    else if hasReaction m.reactions userID emoji then .ok (.reply m)
    else
      let record : Record :=
        { v := recordVersion, op := opReact, target := seq, userID, emoji, at' := now }
      let m := { m with reactions := m.reactions ++ [{ userID, emoji, at' := record.at' }] }
      .ok (.write record (cs.update i fun _ => m) m)

/-- `RemoveReaction`. -/
def Store.removeReaction (now : Time) (seq : Int) (userID emoji : String) : Mutator Message where
  check := none
  plan _ cs := withMessage cs seq fun i m =>
    if !hasReaction m.reactions userID emoji then .ok (.reply m)
    else
      let record : Record :=
        { v := recordVersion, op := opUnreact, target := seq, userID, emoji, at' := now }
      let m := { m with reactions := Chat.removeReaction m.reactions userID emoji }
      .ok (.write record (cs.update i fun _ => m) m)

/-! ## Runs -/

/-- What happens to a channel: the five mutators, its archiving, and a restart of the
process, after which the next call loads the log again. -/
inductive Op where
  | create (authorID authorName clientMsgID body : String) (threadRoot : Int)
  | edit (seq : Int) (body : String)
  | delete (seq : Int)
  | react (seq : Int) (userID emoji : String)
  | unreact (seq : Int) (userID emoji : String)
  | archive
  | restart

/-- The channel after an operation. -/
def exec (ch : Channel) (env : Env) : Op → Channel
  | .create authorID authorName clientMsgID body threadRoot =>
    ((Store.createMessage env.now authorID authorName clientMsgID body threadRoot).run ch env).1
  | .edit seq body => ((Store.editMessage env.now seq body).run ch env).1
  | .delete seq => ((Store.deleteMessage env.now seq).run ch env).1
  | .react seq userID emoji => ((Store.addReaction env.now seq userID emoji).run ch env).1
  | .unreact seq userID emoji => ((Store.removeReaction env.now seq userID emoji).run ch env).1
  | .archive => { ch with archivedAt := ch.archivedAt.or (some env.now) }
  | .restart => { ch with loaded := none }

def Step (ch : Channel) (e : Env × Op) (ch' : Channel) : Prop := exec ch e.1 e.2 = ch'

/-- The record a mutator appends in a given state, if it comes to that. -/
def Mutator.record? {α : Type} (mt : Mutator α) (ch : Channel) (cs : ChannelState) :
    Option Record :=
  match mt.check, mt.plan ch cs with
  | none, .ok (.write record _ _) => some record
  | _, _ => none

/-- The record an operation appends in a given state, if it comes to that. -/
def Op.record? (ch : Channel) (cs : ChannelState) (now : Time) : Op → Option Record
  | .create authorID authorName clientMsgID body threadRoot =>
    (Store.createMessage now authorID authorName clientMsgID body threadRoot).record? ch cs
  | .edit seq body => (Store.editMessage now seq body).record? ch cs
  | .delete seq => (Store.deleteMessage now seq).record? ch cs
  | .react seq userID emoji => (Store.addReaction now seq userID emoji).record? ch cs
  | .unreact seq userID emoji => (Store.removeReaction now seq userID emoji).record? ch cs
  | .archive => none
  | .restart => none

end FusionLocalServer.Chat
