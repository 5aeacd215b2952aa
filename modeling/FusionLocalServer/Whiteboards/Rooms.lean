import FusionLocalServer.Whiteboards.Bindings
import FusionLocalServer.Whiteboards.Store

/-!
# The live boards (`whiteboards/rooms.go`)

A room is made when a board is first looked at live, and kept while anyone is on it and for
a while after. What was changed is written back once the board has settled, by a sweep that
comes by every second, and when a room has to make place for another. Every operation runs
under one lock, so it is one step; the writes in it may each fail.

The registry holds at most `MaxLiveRooms` rooms, of any boards of any projects. A project is
taken to have its directory to itself.
-/

namespace FusionLocalServer.Whiteboards

open Lib Std

/-- A project and a board. -/
abbrev RoomKey := String × String

instance : Ord RoomKey := lexOrd

def second : Time := 1000000000

def RoomSaveQuiet : Time := 2 * second
def RoomSaveMax : Time := 15 * second
def RoomIdleTTL : Time := 120 * second
def MaxLiveRooms : Nat := 32

structure Rooms where
  st : String → Project := fun _ => {}
  rooms : ExtTreeMap RoomKey Room := ∅

/-- What an operation that may have to make a room meets with: the reading of the document,
and the order in which the map of the rooms is ranged over, with what each save meets with. -/
structure Opening where
  env : Env
  order : List RoomKey := []
  saves : RoomKey → Env := fun _ => env

namespace Rooms

def setProject (rs : Rooms) (projectID : String) (p : Project) : Rooms :=
  { rs with st := Function.update rs.st projectID p }

def setRoom (rs : Rooms) (key : RoomKey) (r : Room) : Rooms :=
  { rs with rooms := rs.rooms.insert key r }

/-- `rs.st.Document` -/
def document (rs : Rooms) (env : Env) (key : RoomKey) :
    Rooms × Except Err (Option (List Char) × Int) :=
  match (rs.st key.1).document env key.1 key.2 with
  | (p, result) => (rs.setProject key.1 p, result)

/-- `Drop`: the room is gone, with what was not written. -/
def drop (rs : Rooms) (key : RoomKey) : Rooms := { rs with rooms := rs.rooms.erase key }

/-! ## Writing back -/

/-- A room that was written. -/
def flushed (r : Room) : Room := { r with dirty := false, savedRev := r.rev, dirtyAt := none }

/-- `flushLocked`: a room that cannot be written stays dirty. -/
def flushLocked (rs : Rooms) (env : Env) (key : RoomKey) : Rooms :=
  match rs.rooms[key]? with
  | none => rs
  | some r =>
    if r.dirty = false then rs
    else
      match r.document with
      | none => rs
      | some doc =>
        match (rs.st r.projectID).saveSnapshotAtRev env r.projectID r.boardID doc r.lastBy r.rev with
        | (p, .error _) => rs.setProject r.projectID p
        | (p, .ok _) => (rs.setProject r.projectID p).setRoom key (flushed r)

/-- A room leaves once its work is safely on disk. -/
def flushAndLeave (rs : Rooms) (env : Env) (key : RoomKey) : Rooms :=
  let rs := rs.flushLocked env key
  match rs.rooms[key]? with
  | none => rs
  | some r => if r.dirty = false then rs.drop key else rs

/-- The loop of `evictIdleLocked`. -/
def evictEach (saves : RoomKey → Env) : List RoomKey → Rooms → Rooms
  | [], rs => rs
  | key :: rest, rs =>
    let rs := rs.flushAndLeave (saves key) key
    if rs.rooms.size < MaxLiveRooms then rs else evictEach saves rest rs

/-- The rooms nobody is on, the one that was quiet the longest first. -/
def idle (rs : Rooms) (order : List RoomKey) : List RoomKey :=
  let cands := order.filterMap fun key =>
    (rs.rooms[key]?).bind fun r => if r.subs = 0 then some (key, r.lastTouch) else none
  (cands.mergeSort fun a b => a.2 ≤ b.2).map (·.1)

/-- `evictIdleLocked` -/
def evictIdleLocked (rs : Rooms) (o : Opening) : Rooms :=
  evictEach o.saves (rs.idle o.order) rs

/-- `roomLocked`: the room of a board, made if need be. -/
def roomLocked (rs : Rooms) (o : Opening) (now : Time) (key : RoomKey) :
    Rooms × Except Err Room :=
  match rs.rooms[key]? with
  | some r => (rs, .ok r)
  | none =>
    let rs := if MaxLiveRooms ≤ rs.rooms.size then rs.evictIdleLocked o else rs
    if MaxLiveRooms ≤ rs.rooms.size then
      (rs, .error ⟨.busy, "whiteboards: too many boards are open for live editing", []⟩)
    else
      match rs.document o.env key with
      | (rs, .error e) => (rs, .error e)
      | (rs, .ok (doc, rev)) =>
        match newRoom key.1 key.2 doc rev now with
        | .error e => (rs, .error e)
        | .ok r => (rs.setRoom key r, .ok r)

/-! ## The operations -/

/-- `Open` -/
def open' (rs : Rooms) (o : Opening) (now : Time) (key : RoomKey) : Rooms × Except Err Unit :=
  match rs.roomLocked o now key with
  | (rs, .error e) => (rs, .error e)
  | (rs, .ok r) => (rs.setRoom key { r with subs := r.subs + 1, lastTouch := now }, .ok ())

/-- `Release` -/
def release (rs : Rooms) (now : Time) (key : RoomKey) : Rooms :=
  match rs.rooms[key]? with
  | none => rs
  | some r => rs.setRoom key { r with subs := r.subs - 1, lastTouch := now }

/-- `Apply` -/
def apply (rs : Rooms) (o : Opening) (key : RoomKey) (offer : Offer) :
    Rooms × Except Err Applied :=
  match rs.roomLocked o offer.now key with
  | (rs, .error e) => (rs, .error e)
  | (rs, .ok r) =>
    match r.apply offer.order offer.req offer.by' offer.now with
    | (r, result) => (rs.setRoom key r, result)

/-- `Replace`: none when no room is live. -/
def replace (rs : Rooms) (key : RoomKey) (doc : List Char) (by' : UserRef) (now : Time) :
    Rooms × Option (Except Err Int) :=
  match rs.rooms[key]? with
  | none => (rs, none)
  | some r =>
    match r.replace doc by' now with
    | (r, result) => (rs.setRoom key r, some result)

/-- `Snapshot`: the document and its revision, of the room or else of the store. -/
def snapshot (rs : Rooms) (env : Env) (key : RoomKey) :
    Rooms × Except Err (Option (List Char) × Int) :=
  match rs.rooms[key]? with
  | some r =>
    (rs, match r.document with
      | none => .error ⟨.io, "json: unsupported value", []⟩
      | some doc => .ok (some doc, r.rev))
  | none => rs.document env key

/-- `Sweep`, of one room. -/
def sweepRoom (now : Time) (first again : RoomKey → Env) (rs : Rooms) (key : RoomKey) : Rooms :=
  match rs.rooms[key]? with
  | none => rs
  | some r =>
    let quiet := RoomSaveQuiet ≤ now - r.lastTouch
    let overdue := ∃ at', r.dirtyAt = some at' ∧ RoomSaveMax ≤ now - at'
    let rs := if r.dirty = true ∧ (quiet ∨ overdue) then rs.flushLocked (first key) key else rs
    if r.subs = 0 ∧ RoomIdleTTL ≤ now - r.lastTouch then rs.flushAndLeave (again key) key else rs

/-- `Sweep` -/
def sweep (rs : Rooms) (now : Time) (order : List RoomKey) (first again : RoomKey → Env) : Rooms :=
  order.foldl (sweepRoom now first again) rs

/-- `FlushAll` -/
def flushAll (rs : Rooms) (order : List RoomKey) (saves : RoomKey → Env) : Rooms :=
  order.foldl (fun rs key => rs.flushLocked (saves key) key) rs

end Rooms

end FusionLocalServer.Whiteboards
