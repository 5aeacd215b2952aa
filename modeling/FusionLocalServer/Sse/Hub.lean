import Mathlib.Data.List.Basic
import FusionLocalServer.Lib.Decimal
import FusionLocalServer.Lib.Run

/-!
# The event hub (`internal/sse/hub.go`)

One hub fans events out to the subscribers of its rooms. A durable event takes the next
sequence number of its room, goes on the room's ring (bounded by count and by age) and
is placed on every subscriber's channel; a subscriber whose channel is full is cut off
instead. An ephemeral event skips ring and sequence and its frame carries no id.

Everything the source keeps is here under its own name. Two history fields are added and
read by nothing: a room's `log` of all durable events ever published to it, and a
subscriber's `sent`, the frames placed on its channel while it was not closed. The source
keeps one set of subscribers per room; here the sets are one list of (room, subscriber)
pairs. `json.Marshal` and the epoch source belong to the caller: `data = none` is an
event that does not marshal, `epochOf = none` an epoch source that fails.
-/

namespace FusionLocalServer.Sse

open Lib

/-! ## Event ids -/

/-- `EventID`. -/
def eventID (epoch seq : Int) : String :=
  String.ofList (formatInt epoch ++ '-' :: formatInt seq)

/-- `ParseEventID`: the text before the first dash and the text after it, neither of
them empty, both 64-bit decimals. -/
def parseEventID (id : String) : Option (Int × Int) :=
  let cs := id.toList
  let dash := cs.idxOf '-'
  if dash = 0 ∨ cs.length ≤ dash + 1 then none
  else do
    let epoch ← parseInt64 (cs.take dash)
    let seq ← parseInt64 (cs.drop (dash + 1))
    pure (epoch, seq)

/-- An id the hub hands out for a non-negative epoch reads back as itself. -/
theorem parseEventID_eventID {epoch seq : Int} (he : InInt64 epoch) (hs : InInt64 seq)
    (hpos : 0 ≤ epoch) : parseEventID (eventID epoch seq) = some (epoch, seq) := by
  have hform : formatInt epoch = Nat.toDigits 10 epoch.toNat := by
    rw [formatInt, if_pos hpos]
  have hnodash : '-' ∉ formatInt epoch := by
    rw [hform]
    intro hmem
    exact absurd (isDigit_of_mem_toDigits hmem) (by decide)
  have hne : formatInt epoch ≠ [] := by
    rw [hform]
    exact Nat.toDigits_ne_nil
  have hne' : formatInt seq ≠ [] := by
    intro h
    have := parseInt64_formatInt hs
    rw [h] at this
    exact absurd this (by simp [parseInt64, parseDigits])
  have hidx : (formatInt epoch ++ '-' :: formatInt seq).idxOf '-' =
      (formatInt epoch).length := by
    rw [List.idxOf_append_of_notMem hnodash, List.idxOf_cons_self, Nat.add_zero]
  have hlen : 0 < (formatInt seq).length := List.length_pos_iff.mpr hne'
  have hlen' : 0 < (formatInt epoch).length := List.length_pos_iff.mpr hne
  have hbounds : ¬ ((formatInt epoch).length = 0 ∨
      (formatInt epoch ++ '-' :: formatInt seq).length ≤ (formatInt epoch).length + 1) := by
    rw [List.length_append, List.length_cons]
    omega
  rw [parseEventID, eventID]
  rw [String.toList_ofList, hidx, if_neg hbounds, List.take_left' rfl]
  have hdrop : (formatInt epoch ++ '-' :: formatInt seq).drop
      ((formatInt epoch).length + 1) = formatInt seq := by
    rw [← List.drop_drop, List.drop_left' rfl]
    rfl
  rw [hdrop, parseInt64_formatInt he, parseInt64_formatInt hs]
  rfl

/-! ## State -/

/-- `Config`; durations in nanoseconds. -/
structure Config where
  ringCap : Int
  ringTTL : Int
  subBuf : Int
  deriving DecidableEq, Repr

/-- `DefaultConfig`. -/
def defaultConfig : Config := { ringCap := 512, ringTTL := 600000000000, subBuf := 64 }

/-- `Config.withDefaults`. -/
def Config.withDefaults (c : Config) : Config where
  ringCap := if c.ringCap ≤ 0 then defaultConfig.ringCap else c.ringCap
  ringTTL := if c.ringTTL ≤ 0 then defaultConfig.ringTTL else c.ringTTL
  subBuf := if c.subBuf ≤ 0 then defaultConfig.subBuf else c.subBuf

/-- A config whose bounds are usable, as `withDefaults` makes every one. -/
def Config.Positive (c : Config) : Prop := 0 < c.ringCap ∧ 0 < c.ringTTL ∧ 0 < c.subBuf

theorem Config.withDefaults_positive (c : Config) : c.withDefaults.Positive := by
  refine ⟨?_, ?_, ?_⟩ <;> simp only [withDefaults] <;> split <;>
    first | decide | omega

variable {D V : Type}

/-- `Frame`: an empty `ID` is ephemeral. -/
structure Frame (D V : Type) where
  ID : String
  data : D
  vis : V

/-- A frame the client can resume from. -/
def Frame.durable (f : Frame D V) : Bool := f.ID ≠ ""

structure RingEntry (D V : Type) where
  seq : Int
  at' : Int
  data : D
  vis : V

structure Room (D V : Type) where
  epoch : Int
  seq : Int
  ring : List (RingEntry D V)
  log : List (D × V)

/-- `Subscriber`: `ch` is what its channel holds, `quit` whether the hub closed it. -/
structure Subscriber (D V : Type) where
  ch : List (Frame D V)
  quit : Bool
  sent : List (Frame D V)

/-- `Hub`. Subscribers are named by the order of their creation. -/
structure Hub (D V : Type) where
  cfg : Config
  rooms : String → Option (Room D V)
  subs : List (String × Nat)
  clients : Nat → Subscriber D V
  next : Nat

/-- `NewHub`. -/
def newHub (cfg : Config) : Hub D V where
  cfg := cfg.withDefaults
  rooms := fun _ => none
  subs := []
  clients := fun _ => { ch := [], quit := false, sent := [] }
  next := 0

/-! ## Operations -/

def setRoom (h : Hub D V) (roomID : String) (r : Room D V) : Hub D V :=
  { h with rooms := fun id => if id = roomID then some r else h.rooms id }

@[simp] theorem setRoom_rooms_self (h : Hub D V) (roomID : String) (r : Room D V) :
    (setRoom h roomID r).rooms roomID = some r := if_pos rfl

theorem setRoom_rooms_other (h : Hub D V) {roomID id : String} (r : Room D V)
    (hid : id ≠ roomID) : (setRoom h roomID r).rooms id = h.rooms id := if_neg hid

/-- `roomLocked`: the room, created with the feature's epoch on first touch. -/
def roomLocked (h : Hub D V) (epochOf : Option Int) (roomID : String) :
    Option (Hub D V × Room D V) :=
  match h.rooms roomID with
  | some r => some (h, r)
  | none => epochOf.map fun epoch =>
      let r : Room D V := { epoch, seq := 0, ring := [], log := [] }
      (setRoom h roomID r, r)

/-- The trim loop of `publish`: entries leave at the front while the ring is too long or
its oldest entry too old. -/
def trimRing (cfg : Config) (now : Int) : List (RingEntry D V) → List (RingEntry D V)
  | [] => []
  | e :: rest =>
    if cfg.ringCap < (rest.length + 1 : Nat) ∨ cfg.ringTTL < now - e.at' then
      trimRing cfg now rest
    else e :: rest

/-- The sequence, ring and log of a room after a durable event. -/
def appendEvent (cfg : Config) (now : Int) (r : Room D V) (data : D) (vis : V) :
    Room D V :=
  { r with
    seq := r.seq + 1
    ring := trimRing cfg now (r.ring ++ [{ seq := r.seq + 1, at' := now, data, vis }])
    log := r.log ++ [(data, vis)] }

/-- `sub.ch <- f`. -/
def Subscriber.push (c : Subscriber D V) (f : Frame D V) : Subscriber D V :=
  { c with ch := c.ch ++ [f], sent := if c.quit then c.sent else c.sent ++ [f] }

/-- `Subscriber.close`. -/
def Subscriber.close (c : Subscriber D V) : Subscriber D V := { c with quit := true }

/-- Whether a non-blocking send would find the channel full. -/
def full (cfg : Config) (c : Subscriber D V) : Bool := cfg.subBuf ≤ (c.ch.length : Int)

/-- The fan-out loop: every subscriber of the room gets the frame, or is cut off when
its channel is full. -/
def fanOut (h : Hub D V) (roomID : String) (f : Frame D V) : Hub D V :=
  { h with
    subs := h.subs.filter fun e => e.1 ≠ roomID || !full h.cfg (h.clients e.2)
    clients := fun i =>
      if (roomID, i) ∈ h.subs then
        if full h.cfg (h.clients i) then (h.clients i).close else (h.clients i).push f
      else h.clients i }

/-- `publish`; the Boolean is whether it returned without error. -/
def publish (h : Hub D V) (epochOf : Option Int) (now : Int) (roomID : String)
    (data : Option D) (vis : V) (ephemeral : Bool) : Hub D V × Bool :=
  match data with
  | none => (h, false)
  | some data =>
    match roomLocked h epochOf roomID with
    | none => (h, false)
    | some (h, r) =>
      if ephemeral then (fanOut h roomID { ID := "", data, vis }, true)
      else
        let r := appendEvent h.cfg now r data vis
        (fanOut (setRoom h roomID r) roomID { ID := eventID r.epoch r.seq, data, vis }, true)

/-- The frames of the ring entries after `seq`, rendered for replay. -/
def replayAfter (r : Room D V) (seq : Int) : List (Frame D V) :=
  (r.ring.filter fun e => seq < e.seq).map fun e =>
    { ID := eventID r.epoch e.seq, data := e.data, vis := e.vis }

/-- What `Subscribe` answers besides the subscriber. -/
structure Answer (D V : Type) where
  sub : Nat
  replay : List (Frame D V)
  reset : Bool

/-- The replay decision of `Subscribe` for a room and the client's cursor. -/
def resume (r : Room D V) (lastEventID : String) : List (Frame D V) × Bool :=
  if lastEventID = "" then ([], false)
  else
    match parseEventID lastEventID with
    | none => ([], true)
    | some (epoch, seq) =>
      if epoch ≠ r.epoch ∨ r.seq < seq then ([], true)
      else if seq = r.seq then ([], false)
      else
        match r.ring with
        | [] => ([], true)
        | oldest :: _ =>
          if seq + 1 < oldest.seq then ([], true) else (replayAfter r seq, false)

/-- `Subscribe`. -/
def subscribe (h : Hub D V) (epochOf : Option Int) (roomID lastEventID : String) :
    Hub D V × Option (Answer D V) :=
  match roomLocked h epochOf roomID with
  | none => (h, none)
  | some (h, r) =>
    ({ h with
        subs := h.subs ++ [(roomID, h.next)]
        clients := fun i =>
          if i = h.next then { ch := [], quit := false, sent := [] } else h.clients i
        next := h.next + 1 },
      some { sub := h.next, replay := (resume r lastEventID).1
             reset := (resume r lastEventID).2 })

/-- `Unsubscribe`; the handler passes the room it subscribed to, the hub does not check. -/
def unsubscribe (h : Hub D V) (roomID : String) (sub : Nat) : Hub D V :=
  { h with
    subs := h.subs.filter fun e => e ≠ (roomID, sub)
    clients := fun i => if i = sub then (h.clients i).close else h.clients i }

/-- `CloseAll`. -/
def closeAll (h : Hub D V) : Hub D V :=
  { h with
    subs := []
    clients := fun i =>
      if i ∈ h.subs.map Prod.snd then (h.clients i).close else h.clients i }

/-- The subscriber's writer takes the oldest frame off its channel. -/
def drain (h : Hub D V) (sub : Nat) : Hub D V :=
  { h with
    clients := fun i =>
      if i = sub then { h.clients i with ch := (h.clients i).ch.tail } else h.clients i }

/-! ## Runs -/

/-- Everything that happens to a hub: the five calls, each with what the epoch source
and the clock answer it, and a writer draining its channel. -/
inductive Op (D V : Type) where
  | publish (epochOf : Option Int) (now : Int) (roomID : String) (data : Option D) (vis : V)
  | publishEphemeral (epochOf : Option Int) (roomID : String) (data : Option D) (vis : V)
  | subscribe (epochOf : Option Int) (roomID lastEventID : String)
  | unsubscribe (roomID : String) (sub : Nat)
  | closeAll
  | drain (sub : Nat)

def exec (h : Hub D V) : Op D V → Hub D V
  | .publish epochOf now roomID data vis => (publish h epochOf now roomID data vis false).1
  | .publishEphemeral epochOf roomID data vis => (publish h epochOf 0 roomID data vis true).1
  | .subscribe epochOf roomID lastEventID => (subscribe h epochOf roomID lastEventID).1
  | .unsubscribe roomID sub => unsubscribe h roomID sub
  | .closeAll => closeAll h
  | .drain sub => drain h sub

/-- One step of the hub. -/
def Step (h : Hub D V) (op : Op D V) (h' : Hub D V) : Prop := exec h op = h'

end FusionLocalServer.Sse
