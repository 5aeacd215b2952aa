import FusionLocalServer.Chat.Authz
import FusionLocalServer.Lib.Run
import FusionLocalServer.Sse.Hub

/-!
# Who sees the events of a private channel

A handler of a project's chat reads the channel, members included, then does what it is for in
the store, and then publishes the event with the channel as it has read it; the event streams
ask of every frame whether their reader may see it. These are steps of their own here, with
those of other handlers in between.

The channels are those in memory: a change of the members is there, or the store has refused it.
What else a handler checks before it goes to the store is left out. Steps are counted, and when
a text was stored or edited and who was removed or added when is kept for the statements.
-/

namespace FusionLocalServer.Chat

open Lib

namespace Audience

/-! ## Visibility -/

structure Vis where
  isPrivate : Bool
  channel : ChannelDef
  extraUserIDs : List String := []
  userOnly : Bool := false

/-- `CanAccessChannel`, once it is resolved what the caller is. -/
def canAccess (id : Identity) (ch : ChannelDef) (e : RoleEntry) : Bool :=
  Authorizer.answer ({ now := 0, id, projectID := "", question := .canAccessChannel ch
                       fetched := .error (), fetchedAt := 0 } : Query Unit) e

/-- `Hub.Entitled`; nothing is resolved where the roster cannot be fetched. -/
def entitled (c : Casing) (id : Identity) (vis : Vis) (resolved : Option RoleEntry) : Bool :=
  if vis.extraUserIDs.any fun u =>
      u ≠ "" && (u = id.userID || (id.email ≠ "" && c.equalFold u id.email)) then true
  else if vis.userOnly then false
  else if !vis.isPrivate then true
  else (resolved.map (canAccess id vis.channel)).getD false

def moderator (resolved : Option RoleEntry) : Bool :=
  (resolved.map fun e => decide (rankModerate ≤ rankOf e)).getD false

/-! ## What is published -/

/-- The text of a message, and the step it was stored or last edited in. -/
structure Text where
  channelID : String
  seq : Int
  body : String
  changed : Nat
deriving DecidableEq

structure Payload where
  type : String
  text : Option Text := none
deriving DecidableEq

/-- What a handler does with a message. -/
inductive MessageOp where
  | create (authorID authorName clientMsgID body : String) (threadRoot : Int)
  | edit (seq : Int) (body : String)
  | delete (seq : Int)
  | react (seq : Int) (userID emoji : String)
  | unreact (seq : Int) (userID emoji : String)

namespace MessageOp

def type : MessageOp → String
  | create .. => "message.created"
  | edit .. => "message.updated"
  | delete .. => "message.deleted"
  | react .. => "reaction.added"
  | unreact .. => "reaction.removed"

/-- Whether it stores or edits a text. -/
def writes : MessageOp → Bool
  | create .. | edit .. => true
  | delete .. | react .. | unreact .. => false

/-- The message it is about, where there is one yet. -/
def target : MessageOp → Option Int
  | create .. => none
  | edit seq _ | delete seq | react seq _ _ | unreact seq _ _ => some seq

/-- The store's operation: the message there is an event of. A create that is a retry has none. -/
def run (ch : Channel) (env : Env) : MessageOp → Channel × Option Message
  | create authorID authorName clientMsgID body threadRoot =>
    match (Store.createMessage env.now authorID authorName clientMsgID body threadRoot).run ch env with
    | (ch, .ok (m, created)) => (ch, if created then some m else none)
    | (ch, .error _) => (ch, none)
  | edit seq body => published ((Store.editMessage env.now seq body).run ch env)
  | delete seq => published ((Store.deleteMessage env.now seq).run ch env)
  | react seq userID emoji => published ((Store.addReaction env.now seq userID emoji).run ch env)
  | unreact seq userID emoji =>
    published ((Store.removeReaction env.now seq userID emoji).run ch env)
where
  published (result : Channel × Except Err Message) : Channel × Option Message :=
    (result.1, result.2.toOption)

end MessageOp

/-! ## Handlers and streams -/

inductive Task where
  | message (op : MessageOp)
  | add (userID addedBy : String)
  | remove (userID : String)

inductive Phase where
  | read
  | stored (payload : Payload) (vis : Vis)
  | done

/-- A handler that has read its channel. -/
structure Call where
  channel : ChannelDef
  readAt : Nat
  task : Task
  phase : Phase := .read

/-- An open event stream. -/
structure Stream where
  id : Identity
  sub : Nat
  replay : List (Sse.Frame Payload Vis)
  closed : Bool := false

/-- A member's removal or addition, and the step it was stored in. -/
structure Change where
  channelID : String
  userID : String
  added : Bool
  step : Nat
deriving DecidableEq

/-- A frame that was written to a reader's stream. -/
structure Written where
  id : Identity
  payload : Payload
  /-- The reader is a project moderator by what the authorizer has resolved. -/
  moderator : Bool

structure World where
  now : Nat := 0
  channels : String → Option ChannelDef := fun _ => none
  logs : String → Channel := fun _ => newChannel ""
  textAt : String → Int → Nat := fun _ _ => 0
  changes : List Change := []
  hub : Sse.Hub Payload Vis := Sse.newHub Sse.defaultConfig
  calls : List Call := []
  streams : List Stream := []
  written : List Written := []

inductive Event where
  | createChannel (id name createdBy : String) (isPrivate : Bool) (memberIDs : List String)
      (at_ : Time)
  /-- A handler reads the channel, which its caller may access. -/
  | read (caller : Identity) (e : RoleEntry) (channelID : String) (task : Task)
  /-- It goes to the store with a message. -/
  | storeMessage (call : Nat) (env : Env)
  /-- It goes to the store with a member, where the file may fail to be saved. -/
  | storeMember (call : Nat) (env : MetaEnv) (saved : Bool)
  | publish (call : Nat) (epochOf : Option Int) (at_ : Int)
  /-- An event without the text of a message, from any other handler. -/
  | other (type : String) (vis : Vis) (epochOf : Option Int) (at_ : Int) (ephemeral : Bool)
  | subscribe (id : Identity) (epochOf : Option Int) (lastEventID : String)
  /-- A stream comes to the next frame of its replay. -/
  | writeReplay (stream : Nat) (resolved : Option RoleEntry)
  /-- It comes to the next frame of its channel. -/
  | write (stream : Nat) (resolved : Option RoleEntry)
  | close (stream : Nat)

section

variable (c : Casing) (projectID : String)

namespace World

variable (w : World)

/-- A stream writes a frame if its reader may see it. -/
def writeFrame (id : Identity) (f : Sse.Frame Payload Vis) (resolved : Option RoleEntry) : World :=
  if entitled c id f.vis resolved then
    { w with written := { id, payload := f.data, moderator := moderator resolved } :: w.written }
  else w

/-- The step in which the text was stored or edited that the operation publishes. -/
def changed (id : String) (op : MessageOp) : Nat :=
  if op.writes then w.now else w.textAt id (op.target.getD 0)

/-- The store's part of a message handler. -/
def storeMessage (n : Nat) (call : Call) (op : MessageOp) (env : Env) : World :=
  let id := call.channel.id
  let def_ := (w.channels id).getD call.channel
  let result := op.run { w.logs id with name := def_.name, archivedAt := def_.archivedAt } env
  let logs := Function.update w.logs id result.1
  match result.2 with
  | none => { w with logs, calls := w.calls.set n { call with phase := .done } }
  | some m =>
    let text := if m.deletedAt.isSome then none
      else some { channelID := id, seq := m.seq, body := m.body, changed := w.changed id op }
    let seq := op.target.getD m.seq
    { w with
      logs
      textAt := Function.update w.textAt id
        (Function.update (w.textAt id) seq (w.changed id op))
      calls := w.calls.set n { call with
        phase := .stored { type := op.type, text }
          { isPrivate := call.channel.isPrivate, channel := call.channel } } }

/-- The store's part of a member handler: the event goes by the channel as it is then, and a
removed member gets it still. -/
def storeMember (n : Nat) (call : Call) (userID : String) (added : Bool) (op : ChannelDef →
    Except (Err × (ChannelDef → ChannelDef)) (Option (ChannelDef → ChannelDef)))
    (saved : Bool) : World :=
  let id := call.channel.id
  let refused := { w with calls := w.calls.set n { call with phase := .done } }
  let stored (ch : ChannelDef) := { w with
    channels := Function.update w.channels id (some ch)
    changes := { channelID := id, userID, added, step := w.now } :: w.changes
    calls := w.calls.set n { call with
      phase := .stored { type := if added then "channel.member_added" else "channel.member_removed" }
        { isPrivate := ch.isPrivate, channel := ch
          extraUserIDs := if added then [] else [userID] } } }
  match w.channels id with
  | none => refused
  | some ch =>
    match op ch with
    | .error _ => refused
    | .ok none => stored ch
    | .ok (some f) => if saved then stored (f ch) else refused

def publish (payload : Payload) (vis : Vis) (epochOf : Option Int) (at_ : Int) (ephemeral : Bool) :
    World :=
  { w with hub := (Sse.publish w.hub epochOf at_ projectID (some payload) vis ephemeral).1 }

def act : Event → Option World
  | .createChannel id name createdBy isPrivate memberIDs at_ =>
    if (w.channels id).isNone then
      some { w with channels := Function.update w.channels id (some {
        id, name, isPrivate, createdBy, createdAt := at_
        members := if isPrivate then Project.firstMembers createdBy memberIDs at_ else [] }) }
    else none
  | .read caller e channelID task =>
    match w.channels channelID with
    | some channel =>
      if canAccess caller channel e then
        some { w with calls := w.calls ++ [{ channel, readAt := w.now, task }] }
      else none
    | none => none
  | .storeMessage n env =>
    match w.calls[n]? with
    | some call =>
      match call.task, call.phase with
      | .message op, .read => some (w.storeMessage n call op env)
      | _, _ => none
    | none => none
  | .storeMember n env saved =>
    match w.calls[n]? with
    | some call =>
      match call.task, call.phase with
      | .add userID addedBy, .read => some (w.storeMember n call userID true
          (Project.addChannelMember env userID addedBy default) saved)
      | .remove userID, .read => some (w.storeMember n call userID false
          (Project.removeChannelMember userID default) saved)
      | _, _ => none
    | none => none
  | .publish n epochOf at_ =>
    match w.calls[n]? with
    | some call =>
      match call.phase with
      | .stored payload vis =>
        some { w.publish projectID payload vis epochOf at_ false with
          calls := w.calls.set n { call with phase := .done } }
      | _ => none
    | none => none
  | .other type vis epochOf at_ ephemeral =>
    some (w.publish projectID { type } vis epochOf at_ ephemeral)
  | .subscribe id epochOf lastEventID =>
    match Sse.subscribe w.hub epochOf projectID lastEventID with
    | (hub, some answer) =>
      some { w with hub, streams := w.streams ++ [{ id, sub := answer.sub, replay := answer.replay }] }
    | (hub, none) => some { w with hub }
  | .writeReplay i resolved =>
    match w.streams[i]? with
    | some s =>
      match s.replay with
      | f :: rest =>
        if s.closed then none
        else some { w.writeFrame c s.id f resolved with
          streams := w.streams.set i { s with replay := rest } }
      | [] => none
    | none => none
  | .write i resolved =>
    match w.streams[i]? with
    | some s =>
      match s.replay, (w.hub.clients s.sub).ch with
      | [], f :: _ =>
        if s.closed then none
        else some { w.writeFrame c s.id f resolved with hub := Sse.drain w.hub s.sub }
      | _, _ => none
    | none => none
  | .close i =>
    match w.streams[i]? with
    | some s => some { w with
        hub := Sse.unsubscribe w.hub projectID s.sub
        streams := w.streams.set i { s with closed := true } }
    | none => none

def step (e : Event) : Option World :=
  (w.act c projectID e).map fun w' => { w' with now := w.now + 1 }

end World

end

end Audience

end FusionLocalServer.Chat
