import FusionLocalServer.Lib.Calendar
import FusionLocalServer.Whiteboards.Patch

/-!
# A live board (`whiteboards/room.go`)

A room holds the records of a board while it is being edited, with a revision that goes up
by one with each patch that changed something. `apply` folds a patch in: first the removals,
then the bindings of the shapes removed, then the puts; a put of a record that was removed
at a revision the sender had not seen is refused, which is what the tombstones are for.

Go ranges over a map in no particular order. What the loops of `apply` come to does not
depend on it, and they run in the order of the keys here; which tombstones of one revision
are forgotten first does, and an `Order` says how the map was ranged over.
-/

namespace FusionLocalServer.Whiteboards

open Lib Std
open Lib.Json (RawMessage byteLen)

abbrev Tombs := ExtTreeMap String Int

/-- An order in which a map may be ranged over. -/
structure Order where
  range : List (String × Int) → List (String × Int)
  perm : ∀ l, (range l).Perm l

/-- The order of the keys. -/
def Order.sorted : Order := ⟨id, fun _ => .refl _⟩

structure Room where
  projectID : String
  boardID : String
  records : Records
  /-- What is stamped on the document about its shape, carried as it is. -/
  schema : RawMessage
  rev : Int
  bytes : Int
  /-- The revision at which a record was removed. -/
  tombs : Tombs
  /-- The last number each client gave a patch. -/
  lastSeq : Tombs
  lastBy : UserRef
  dirty : Bool
  savedRev : Int
  /-- Since when there is something unsaved. -/
  dirtyAt : Option Time
  lastTouch : Time
  subs : Nat

/-- The document as it is stored. -/
structure LiveDoc where
  store : Records := ∅
  schema : RawMessage := []

def LiveDoc.fields : List (String × (RawMessage → LiveDoc → Option LiveDoc)) :=
  [("store", fun raw ld => (Json.readRawMap ld.store raw).map fun store => { ld with store }),
    ("schema", fun raw ld => some { ld with schema := raw })]

/-- `json.Unmarshal` into a document: the members that name no field are passed over. -/
def readDoc (doc : List Char) : Option LiveDoc :=
  if Json.valid doc = false then none
  else (Json.cutObject doc).bind fun members =>
    members.foldlM (fun ld member =>
      let key := Json.unquote member.1
      match (LiveDoc.fields.find? fun f => f.1 = key).or
          (LiveDoc.fields.find? fun f => Json.sameFold f.1 key) with
      | none => some ld
      | some f => f.2 member.2 ld) {}

/-- The size of a set of records. -/
def sizeOf (m : Records) : Int := Table.total recordSize m

/-- A room over a stored document; none is an empty canvas. -/
def newRoom (projectID boardID : String) (doc : Option (List Char)) (rev : Int) (now : Time) :
    Except Err Room :=
  let r : Room :=
    { projectID, boardID, records := ∅, schema := [], rev, bytes := 0, tombs := ∅, lastSeq := ∅
      lastBy := default, dirty := false, savedRev := rev, dirtyAt := none, lastTouch := now
      subs := 0 }
  match doc with
  | none => .ok r
  | some [] => .ok r
  | some doc =>
    match readDoc doc with
    | none => .error ⟨.invalid, "stored document is unreadable: %v", []⟩
    | some ld => .ok { r with records := ld.store, bytes := sizeOf ld.store, schema := ld.schema }

namespace Room

/-- `json.Marshal` of the document: the records in the order of their ids, and the schema
unless there is none. -/
def document (r : Room) : Option (List Char) :=
  (Json.writeRawMap r.records).bind fun store =>
    let head := "\x7b\"store\":".toList ++ store
    if r.schema = [] then some (head ++ ['}'])
    else (Json.compact r.schema).map fun schema => head ++ ",\"schema\":".toList ++ schema ++ ['}']

/-! ## The loops of `apply` -/

/-- A room in the middle of a patch, with what is to be broadcast, the puts refused, and the
shapes removed so far. -/
structure Folding where
  room : Room
  out : DocPatch := {}
  rejected : List String := []
  removedShapes : List String := []

namespace Folding

/-- A record leaves the room, and with it its size. -/
def drop (f : Folding) (id : String) : Folding :=
  match f.room.records[id]? with
  | some rec =>
    { f with room := { f.room with bytes := f.room.bytes - recordSize id rec
                                   records := f.room.records.erase id } }
  | none => f

/-- A removal is remembered and broadcast. -/
def bury (f : Folding) (id : String) : Folding :=
  { f with room := { f.room with tombs := f.room.tombs.insert id (f.room.rev + 1) }
           out := { f.out with remove := f.out.remove ++ [id] } }

/-- `for _, id := range req.Remove` -/
def remove (f : Folding) (id : String) : Folding :=
  let f := (f.drop id).bury id
  { f with removedShapes := if isShape id then f.removedShapes ++ [id] else f.removedShapes }

/-- The cascade, for one record of the room. -/
def cascade (f : Folding) (record : String × RawMessage) : Folding :=
  if ¬ isBinding record.1 = true ∨ ¬ bindingTouches record.2 f.removedShapes = true then f
  else (f.drop record.1).bury record.1

/-- A put that is not refused. -/
def lay (f : Folding) (id : String) (rec : RawMessage) : Folding :=
  let f := f.drop id
  { f with
    room := { f.room with tombs := f.room.tombs.erase id
                          records := f.room.records.insert id rec
                          bytes := f.room.bytes + recordSize id rec }
    out := { f.out with put := f.out.put.insert id rec } }

/-- `for id, rec := range req.Put` -/
def put (baseRev : Int) (f : Folding) (record : String × RawMessage) : Folding :=
  match f.room.tombs[record.1]? with
  | some tomb =>
    -- removed after this client last heard
    if baseRev < tomb then { f with rejected := f.rejected ++ [record.1] }
    else f.lay record.1 record.2
  | none => f.lay record.1 record.2

end Folding

/-- A patch folded into a room: removals, cascade, puts. -/
def fold (r : Room) (req : DocPatchRequest) : Folding :=
  let f := req.remove.foldl Folding.remove { room := r }
  let f := if f.removedShapes = [] then f else f.room.records.toList.foldl Folding.cascade f
  req.put.toList.foldl (Folding.put req.baseRev) f

/-! ## Applying a patch -/

/-- The tombstones that are one too many, the oldest. -/
def surplus (order : Order) (tombs : Tombs) : List String :=
  let all := (order.range tombs.toList).mergeSort fun a b => a.2 ≤ b.2
  (all.take (all.length - MaxTombstones)).map (·.1)

def trimTombs (order : Order) (r : Room) : Room :=
  if r.tombs.size ≤ MaxTombstones then r
  else { r with tombs := Table.eraseAll r.tombs (surplus order r.tombs) }

/-- The patch is one the client sent before. -/
def Retried (r : Room) (req : DocPatchRequest) : Prop :=
  ∃ last, r.lastSeq[req.clientID]? = some last ∧ req.seq ≤ last

instance (r : Room) (req : DocPatchRequest) : Decidable (r.Retried req) :=
  match h : r.lastSeq[req.clientID]? with
  | none => isFalse fun ⟨_, hlast, _⟩ => nomatch h.symm.trans hlast
  | some last =>
    if hle : req.seq ≤ last then isTrue ⟨last, h, hle⟩
    else isFalse fun ⟨_, hlast, hle'⟩ => hle (Option.some.inj (h.symm.trans hlast) ▸ hle')

/-- The checks of a patch against the room it goes to. -/
def precheck (r : Room) (req : DocPatchRequest) : Except Err Unit := do
  refuse (r.rev < req.baseRev) ⟨.conflict, "patch is based on revision %d, ahead of %d",
    [toString req.baseRev, toString r.rev]⟩
  (req.put.keys ++ req.remove).forM fun id =>
    refuse (isStructural id = true ∧ req.baseRev ≠ r.rev)
      ⟨.conflict, "%q needs the current revision", [id]⟩

/-- What is noted of a change to the document. -/
def changed (r : Room) (by' : UserRef) (now : Time) : Room :=
  { r with rev := r.rev + 1, lastBy := by', dirty := true
           dirtyAt := r.dirtyAt.or (some now), lastTouch := now }

/-- `apply` -/
def apply (order : Order) (r : Room) (req : DocPatchRequest) (by' : UserRef) (now : Time) :
    Room × Except Err Applied :=
  match req.validate with
  | .error e => (r, .error e)
  | .ok () =>
    if r.Retried req then (r, .ok { rev := r.rev })
    else
      match r.precheck req with
      | .error e => (r, .error e)
      | .ok () =>
        let f := r.fold req
        if (MaxSnapshotBytes : Int) < f.room.bytes then
          (f.room, .error ⟨.invalid, "board would exceed %d bytes", [toString MaxSnapshotBytes]⟩)
        else
          let r := { f.room with lastSeq := f.room.lastSeq.insert req.clientID req.seq }
          if f.out.empty then (r, .ok { rev := r.rev, rejected := f.rejected })
          else
            let r := (r.changed by' now).trimTombs order
            (r, .ok { rev := r.rev
                      patch := { f.out with remove := f.out.remove.mergeSort }
                      rejected := f.rejected })

/-- `replace`: another document altogether. -/
def replace (r : Room) (doc : List Char) (by' : UserRef) (now : Time) : Room × Except Err Int :=
  match readDoc doc with
  | none => (r, .error ⟨.invalid, "document is unreadable", []⟩)
  | some ld =>
    let r := { r with records := ld.store, bytes := sizeOf ld.store, schema := ld.schema
                      tombs := ∅ }
    (r.changed by' now, .ok (r.rev + 1))

end Room

end FusionLocalServer.Whiteboards
