import FusionLocalServer.Whiteboards.Meaning

/-!
# A client of a live board (`sync/protocol.ts`, `useBoardSync.ts`)

A client holds the records of the board in its editor, the revision it has applied, and the
changes its user made that are not sent yet. It gets the patches of the board as frames,
which may be lost, come twice or in another order, sends its own, and reads the document
anew when it sees that it missed something.

Records are opaque to the client as they are to the server: the text of a record here
stands for the value it denotes, which is what travels.
-/

namespace FusionLocalServer.Whiteboards

open Lib Std
open Lib.Json (RawMessage)

/-- A change of the records folded for the wire: `added` and `updated` together, and the keys
of `removed`. -/
abbrev WirePatch := DocPatch

/-- What the stream of a board brings: a patch, or word that the document was replaced. -/
inductive Frame where
  | patch (rev : Int) (clientID : String) (patch : WirePatch)
  | replaced (rev : Int)

/-- A change of the editor's store. -/
structure RecordsDiff where
  added : Records := ∅
  /-- The record before and the one after. -/
  updated : ExtTreeMap String (RawMessage × RawMessage) := ∅
  removed : Records := ∅

def diffToPatch (diff : RecordsDiff) : WirePatch :=
  { put := diff.added ∪ diff.updated.map fun _ pair => pair.2
    remove := diff.removed.keys }

/-- `add` to a set that keeps the order of its elements. -/
def addTo (ids : List String) (id : String) : List String := if id ∈ ids then ids else ids ++ [id]

/-- One patch over another: later wins, and a record ends in its final state only. -/
def squashStep (out p : WirePatch) : WirePatch :=
  { put := Table.eraseAll (out.put ∪ p.put) p.remove
    remove := p.remove.foldl addTo (out.remove.filter fun id => id ∉ p.put) }

def squash (patches : List WirePatch) : WirePatch := patches.foldl squashStep {}

/-! ## Frames -/

inductive FrameAction where
  | skip
  | apply
  | resync
  deriving DecidableEq

/-- What to do with a frame. -/
def classifyFrame (rev : Int) (clientID : String) (appliedRev : Int) (myClientID : String) :
    FrameAction :=
  if rev ≤ appliedRev then .skip
  -- a gap is a gap, even before an echo
  else if appliedRev + 1 < rev then .resync
  else if clientID = myClientID then .skip
  else .apply

/-- The revision after a frame: a skipped one advances it too. -/
def nextRev (action : FrameAction) (rev appliedRev : Int) : Int :=
  if action = .resync then appliedRev else max appliedRev rev

/-- What a client holds. -/
structure Client where
  clientID : String
  records : Records
  appliedRev : Int
  seq : Int := 0
  /-- What the user did since the last send. -/
  queue : List WirePatch := []
  /-- What the request under way carries, if there is one. -/
  sending : Option (List WirePatch) := none

namespace Client

/-- `onFrame`; the second component says that the document is to be read anew. A patch the
editor will not take is as good as a gap. -/
def onFrame (c : Client) (refused : Bool) : Frame → Client × Bool
  | .patch rev clientID p =>
    match classifyFrame rev clientID c.appliedRev c.clientID with
    | .resync => (c, true)
    | .skip => ({ c with appliedRev := nextRev .skip rev c.appliedRev }, false)
    | .apply =>
      if refused then (c, true)
      else ({ c with records := p.applyTo c.records
                     appliedRev := nextRev .apply rev c.appliedRev }, false)
  | .replaced rev => (c, c.appliedRev < rev)

/-- A frame concerns the records and their revision only. -/
theorem onFrame_eq (c : Client) (refused : Bool) (frame : Frame) :
    ∃ records rev, (c.onFrame refused frame).1 = { c with records, appliedRev := rev } := by
  unfold onFrame
  cases frame with
  | replaced rev => exact ⟨_, _, rfl⟩
  | patch rev clientID p =>
    dsimp only
    split
    · exact ⟨_, _, rfl⟩
    · exact ⟨_, _, rfl⟩
    · split
      · exact ⟨_, _, rfl⟩
      · exact ⟨_, _, rfl⟩

/-- `resync`: the document that was read takes the place of everything. -/
def resync (c : Client) (doc : Records) (rev : Int) : Client :=
  { c with records := doc, appliedRev := rev, queue := [] }

/-! ## Sending -/

/-- An edit of the user, once the editor has made it. -/
def edit (c : Client) (diff : RecordsDiff) : Client :=
  let p := diffToPatch diff
  { c with records := p.applyTo c.records
           queue := if p.empty then c.queue else c.queue ++ [p] }

/-- `send`, as far as the request: there is only ever one under way. -/
def send (c : Client) : Client × Option DocPatchRequest :=
  if c.sending.isSome ∨ c.queue = [] then (c, none)
  else
    let patch := squash c.queue
    if patch.empty then ({ c with queue := [] }, none)
    else
      ({ c with queue := [], sending := some c.queue, seq := c.seq + 1 },
        some { toDocPatch := patch, clientID := c.clientID, seq := c.seq + 1
               baseRev := c.appliedRev })

/-- `send`, when the request failed: the work goes back to the front of the queue. -/
def failed (c : Client) : Client :=
  { c with queue := c.sending.getD [] ++ c.queue, sending := none }

/-- `send`, when the request is answered; `reading` is the document read after a conflict,
if it can be read. -/
def answered (c : Client) (reading : Option (Int × Records)) : Except Err Applied → Client
  | .ok a =>
    { c with appliedRev := max c.appliedRev a.rev, sending := none
             -- what the server refused goes here too
             records := Table.eraseAll c.records a.rejected }
  | .error e =>
    if e.kind = .conflict then
      match reading with
      | some (rev, doc) => { c.resync doc rev with sending := none }
      | none => { c with sending := none }
    else c.failed

end Client

end FusionLocalServer.Whiteboards
