import FusionLocalServer.Whiteboards.Client

/-!
# Sessions

Any number of editors on one live room. Each makes changes and sends them, one request at a
time; the server takes the requests as they come, one of them twice if need be; the answer
may reach the editor or be lost; and every editor gets whatever frames and documents there
are, whenever it gets them.

The changes an editor makes are numbered, and the numbers travel along with the work: with
the queue, with the request under way, and with the requests the room took in.
-/

namespace FusionLocalServer.Whiteboards

open Lib Std

/-- A client with the changes its user made, and the numbers of those in its queue and in
the request under way. -/
structure Editor where
  client : Client
  made : List WirePatch := []
  queued : List Nat := []
  underway : List Nat := []

/-- A request, with the numbers of the changes it carries. -/
structure Sent where
  req : DocPatchRequest
  changes : List Nat
  deriving DecidableEq

/-- The changes, by who made them. -/
def Sent.marks (sent : Sent) : List (String × Nat) :=
  sent.changes.map fun n => (sent.req.clientID, n)

namespace Editor

def edit (e : Editor) (diff : RecordsDiff) : Editor :=
  if (diffToPatch diff).empty then { e with client := e.client.edit diff }
  else { e with client := e.client.edit diff
                made := e.made ++ [diffToPatch diff]
                queued := e.queued ++ [e.made.length] }

/-- Sending, with the request if there is one. -/
def send (e : Editor) : Editor × Option Sent :=
  match e.client.send with
  | (c, none) => ({ e with client := c, queued := if c.queue = [] then [] else e.queued }, none)
  | (c, some req) =>
    ({ e with client := c, queued := [], underway := e.queued }, some ⟨req, e.queued⟩)

def failed (e : Editor) : Editor :=
  { e with client := e.client.failed, queued := e.underway ++ e.queued, underway := [] }

def resync (e : Editor) (doc : Records) (rev : Int) : Editor :=
  { e with client := e.client.resync doc rev, queued := [] }

/-- An answer: a conflict drops the work, any other error puts it back. -/
def answered (e : Editor) (reading : Option (Int × Records)) (result : Except Err Applied) :
    Editor :=
  match result with
  | .ok _ => { e with client := e.client.answered reading result, underway := [] }
  | .error err =>
    if err.kind = .conflict then
      { e with client := e.client.answered reading result, underway := []
               queued := if reading.isSome then [] else e.queued }
    else e.failed

end Editor

/-- A live room and its editors. -/
structure Session where
  room : Room
  editors : String → Editor
  /-- The requests sent. -/
  sent : List Sent := []
  /-- What the server answered. -/
  answers : List (Sent × Except Err Applied) := []
  frames : List Frame := []
  served : List (Int × Records) := []
  /-- The requests whose patch went into the room, in that order. -/
  log : List Sent := []

namespace Session

/-- Everyone has loaded the document. -/
def start (room : Room) : Session where
  room := room
  editors id := { client := { clientID := id, records := room.records, appliedRev := room.rev } }

/-- One editor becomes another. -/
def set (s : Session) (id : String) (e : Editor) : Session :=
  { s with editors := Function.update s.editors id e }

def sends (s : Session) (id : String) : Session :=
  { s.set id (s.editors id).send.1 with sent := s.sent ++ (s.editors id).send.2.toList }

/-- A patch went in. -/
def takes (s : Session) (sent : Sent) (a : Applied) (room : Room) : Session :=
  { s with room
           answers := s.answers ++ [(sent, .ok a)]
           frames := if a.patch.empty then s.frames
             else s.frames ++ [.patch a.rev sent.req.clientID a.patch]
           log := s.log ++ [sent] }

/-- An answer without a patch. -/
def replies (s : Session) (sent : Sent) (result : Except Err Applied) : Session :=
  { s with answers := s.answers ++ [(sent, result)] }

inductive Event where
  | edit (id : String) (diff : RecordsDiff)
  | send (id : String)
  /-- The server gets one of the requests sent. -/
  | take (i : Nat) (order : Order) (by' : UserRef) (now : Time)
  /-- The editor gets the answer to its request. -/
  | answer (id : String) (k : Nat) (reading : Option (Int × Records))
  /-- The editor gets no answer to its request. -/
  | lose (id : String)
  | deliver (id : String) (i : Nat) (refused : Bool)
  | serve
  | load (id : String) (i : Nat)
  | replace (doc : List Char) (by' : UserRef) (now : Time)

inductive Step (s : Session) : Event → Session → Prop
  | edit {id : String} {diff : RecordsDiff} :
      Step s (.edit id diff) (s.set id ((s.editors id).edit diff))
  | send {id : String} : Step s (.send id) (s.sends id)
  | take {i : Nat} {order : Order} {by' : UserRef} {now : Time} {sent : Sent} {a : Applied}
      {room : Room} : s.sent[i]? = some sent → s.room.Accepts order sent.req by' now a room →
      Step s (.take i order by' now) (s.takes sent a room)
  | again {i : Nat} {order : Order} {by' : UserRef} {now : Time} {sent : Sent} :
      s.sent[i]? = some sent → s.room.Retried sent.req →
      Step s (.take i order by' now)
        (s.replies sent (s.room.apply order sent.req by' now).2)
  | refuse {i : Nat} {order : Order} {by' : UserRef} {now : Time} {sent : Sent} {err : Err} :
      s.sent[i]? = some sent → (s.room.apply order sent.req by' now).2 = .error err →
      ¬ s.room.Overfull sent.req →
      Step s (.take i order by' now) (s.replies sent (.error err))
  /-- Refused for the size of the board, and in the room for all that. -/
  | overfill {i : Nat} {order : Order} {by' : UserRef} {now : Time} {sent : Sent} {err : Err} :
      s.sent[i]? = some sent → (s.room.apply order sent.req by' now).2 = .error err →
      s.room.Overfull sent.req →
      Step s (.take i order by' now)
        { s.replies sent (.error err) with
          room := (s.room.apply order sent.req by' now).1
          log := s.log ++ [sent] }
  | answer {id : String} {k : Nat} {reading : Option (Int × Records)} {sent : Sent}
      {result : Except Err Applied} : s.answers[k]? = some (sent, result) →
      sent.req.clientID = id → sent.req.seq = (s.editors id).client.seq →
      (s.editors id).client.sending.isSome → (∀ copy ∈ reading, copy ∈ s.served) →
      Step s (.answer id k reading) (s.set id ((s.editors id).answered reading result))
  | lose {id : String} : (s.editors id).client.sending.isSome →
      Step s (.lose id) (s.set id (s.editors id).failed)
  | deliver {id : String} {i : Nat} {refused : Bool} {frame : Frame} :
      s.frames[i]? = some frame →
      Step s (.deliver id i refused)
        (s.set id { s.editors id with client := ((s.editors id).client.onFrame refused frame).1 })
  | serve : Step s .serve { s with served := s.served ++ [(s.room.rev, s.room.records)] }
  | load {id : String} {i : Nat} {rev : Int} {doc : Records} : s.served[i]? = some (rev, doc) →
      Step s (.load id i) (s.set id ((s.editors id).resync doc rev))
  | replace {doc : List Char} {by' : UserRef} {now : Time} {rev : Int} {room : Room} :
      s.room.replace doc by' now = (room, .ok rev) →
      Step s (.replace doc by' now) { s with room, frames := s.frames ++ [.replaced rev] }

end Session

end FusionLocalServer.Whiteboards
