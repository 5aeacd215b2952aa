import FusionLocalServer.Lib.Run
import FusionLocalServer.Whiteboards.Registry
import FusionLocalServer.Whiteboards.Tombstones

/-!
# Nothing accepted is lost

The life of a registry: rooms are opened and released, patches and documents come in, and the
sweep writes rooms back and drops them, each write failing or not. Once no room is live for a
board, what is stored of it is the last state a client was told of.
-/

namespace FusionLocalServer.Whiteboards

open Lib Std
open Lib.Json (RawMessage byteLen)

/-- A registry, and what clients were told. -/
structure Lifecycle where
  rooms : Rooms := {}
  told : Told := fun _ => none

namespace Lifecycle

inductive Event where
  | open' (o : Opening) (now : Time) (key : RoomKey)
  | release (now : Time) (key : RoomKey)
  | apply (o : Opening) (key : RoomKey) (offer : Offer)
  | replace (key : RoomKey) (doc : List Char) (by' : UserRef) (now : Time)
  | snapshot (env : Env) (key : RoomKey)
  | sweep (now : Time) (order : List RoomKey) (first again : RoomKey → Env)
  | flushAll (order : List RoomKey) (saves : RoomKey → Env)

def exec (s : Lifecycle) : Event → Lifecycle
  | .open' o now key => { s with rooms := (s.rooms.open' o now key).1 }
  | .release now key => { s with rooms := s.rooms.release now key }
  | .apply o key offer =>
    match s.rooms.apply o key offer with
    | (rooms, result) => { rooms, told := Rooms.tellApplied s.told key rooms result }
  | .replace key doc by' now =>
    match s.rooms.replace key doc by' now with
    | (rooms, result) => { rooms, told := Rooms.tellReplaced s.told key rooms result }
  | .snapshot env key => { s with rooms := (s.rooms.snapshot env key).1 }
  | .sweep now order first again => { s with rooms := s.rooms.sweep now order first again }
  | .flushAll order saves => { s with rooms := s.rooms.flushAll order saves }

def Happens (s : Lifecycle) (e : Event) (t : Lifecycle) : Prop := s.exec e = t

/-- No patch goes to a room that it makes too large. -/
def Fitting (s : Lifecycle) : Event → Prop
  | .apply o key offer => s.rooms.Fitting o key offer
  | _ => True

theorem kept_exec {s : Lifecycle} (h : s.rooms.Kept s.told) {e : Event} (hok : Fitting s e) :
    (s.exec e).rooms.Kept (s.exec e).told := by
  cases e with
  | open' o now key => exact h.moves (s.rooms.open_moves o now key)
  | release now key => exact h.moves (s.rooms.release_moves now key)
  | apply o key offer => exact h.apply hok
  | replace key doc by' now => exact h.replace key doc by' now
  | snapshot env key => exact h.moves (s.rooms.snapshot_moves env key)
  | sweep now order first again =>
    exact h.moves (Rooms.sweep_moves now first again order s.rooms)
  | flushAll order saves => exact h.moves (Rooms.flushAll_moves saves order s.rooms)

/-- Nothing is in memory yet. -/
theorem kept_start {st : String → Project} (hst : ∀ projectID, (st projectID).file = none) :
    Rooms.Kept { st } fun _ => none := by
  have hnone : ∀ key, (∅ : ExtTreeMap RoomKey Room)[key]? = none := fun _ => ExtTreeMap.getElem?_empty
  refine ⟨fun projectID pf hpf => ?_, fun key r hr => ?_, fun key hkey => ?_, fun key r hr => ?_,
    fun key r ld rev hr => ?_, fun key ld rev _ htold => ?_⟩
  · rw [hst] at hpf
    cases hpf
  · exact nomatch (hnone key).symm.trans hr
  · rcases hkey with hroom | htold
    · have hempty : ((∅ : ExtTreeMap RoomKey Room)[key]?).isSome = true := hroom
      rw [hnone] at hempty
      cases hempty
    · cases htold
  · exact nomatch (hnone key).symm.trans hr
  · exact nomatch (hnone key).symm.trans hr
  · cases htold

theorem kept_run {st : String → Project} (hst : ∀ projectID, (st projectID).file = none)
    {events : List Event} {s : Lifecycle}
    (hrun : Run Happens Fitting { rooms := { st } } events s) : s.rooms.Kept s.told :=
  hrun.invariant (P := fun s => s.rooms.Kept s.told) (kept_start hst) fun s e t h hok hstep => by
    cases hstep
    exact kept_exec h hok

/-- What is told changes nothing in the registry, and is not changed for a board without a
room. -/
theorem exec_tell (s : Lifecycle) (told : Told) (e : Event) :
    (exec { s with told } e).rooms = (s.exec e).rooms ∧
      ∀ key, (s.exec e).rooms.rooms[key]? = none → (exec { s with told } e).told key = told key := by
  cases e with
  | apply o key' offer => exact ⟨rfl, fun key hnone => Rooms.tellApplied_of_none _ hnone⟩
  | replace key' doc by' now => exact ⟨rfl, fun key hnone => Rooms.tellReplaced_of_none _ hnone⟩
  | _ => exact ⟨rfl, fun _ _ => rfl⟩

/-- **Nothing accepted is lost.** While no room is live for a board, its stored document and
revision are those of the last state a client was told of; and a room that leaves the registry
leaves what it had of the document on disk. -/
theorem accepted_stored {st : String → Project} (hst : ∀ projectID, (st projectID).file = none)
    {events : List Event} {s : Lifecycle}
    (hrun : Run Happens Fitting { rooms := { st } } events s) :
    (∀ (key : RoomKey) ld rev, s.rooms.rooms[key]? = none → s.told key = some (ld, rev) →
      Stands (s.rooms.stored key) ld rev) ∧
    ∀ e t, Fitting s e → Happens s e t → ∀ (key : RoomKey) r, s.rooms.rooms[key]? = some r →
      t.rooms.rooms[key]? = none → Stands (t.rooms.stored key) r.live r.rev := by
  have hkept := kept_run hst hrun
  refine ⟨hkept.gone, fun e t hok hstep key r hr hnone => ?_⟩
  cases hstep
  -- what the room has is told, and then the room is gone
  obtain ⟨hrooms, htold⟩ := s.exec_tell (Rooms.tell s.told key r) e
  have hgone := (kept_exec (s := { s with told := Rooms.tell s.told key r }) (hkept.retold hr) hok).gone
  rw [hrooms] at hgone
  refine hgone key r.live r.rev hnone ((htold key hnone).trans ?_)
  rw [Rooms.tell, Function.update_self]

/-! ### A document that is mostly white space -/

/-- A record with so much white space in it. -/
def spaciousRecord (n : Nat) : List Char := Json.oneMember (Json.quote "asset:a") (Json.spacious n)

/-- A document with nothing but this. -/
def spaciousDoc (n : Nat) : List Char := Json.oneMember (Json.quote "store") (spaciousRecord n)

theorem parseValue_spaciousRecord (n fuel : Nat) (rest : List Char) :
    Json.parseValue (fuel + 3) (spaciousRecord n ++ rest) =
      some (.obj [(Json.quote "asset:a", .obj [])], rest) :=
  Json.parseValue_oneMember (Json.strLit_quote _)
    (fun _ => Json.parseValue_spacious _ fuel _) rest

theorem cutObject_spaciousRecord (n : Nat) :
    Json.cutObject (spaciousRecord n) = some [(Json.quote "asset:a", Json.spacious n)] := by
  refine Json.cutObject_oneMember (v := .obj []) (Json.strLit_quote _) rfl (by decide)
    fun fuel rest hfuel => ?_
  obtain ⟨k, rfl⟩ : ∃ k, fuel = k + 1 := ⟨fuel - 1, by omega⟩
  exact Json.parseValue_spacious _ k _

theorem cutObject_spaciousDoc (n : Nat) :
    Json.cutObject (spaciousDoc n) = some [(Json.quote "store", spaciousRecord n)] := by
  refine Json.cutObject_oneMember (v := .obj [(Json.quote "asset:a", .obj [])])
    (Json.strLit_quote _) rfl (by decide) fun fuel rest hfuel => ?_
  have hlen : 2 ≤ (spaciousRecord n).length := by simp [spaciousRecord, Json.oneMember]
  obtain ⟨k, rfl⟩ : ∃ k, fuel = k + 3 := ⟨fuel - 3, by omega⟩
  exact parseValue_spaciousRecord n k _

theorem valid_spaciousDoc (n : Nat) : Json.valid (spaciousDoc n) = true := by
  have hlen : 2 ≤ (spaciousDoc n).length := by simp [spaciousDoc, Json.oneMember]
  obtain ⟨k, hk⟩ : ∃ k, 2 * (spaciousDoc n).length + 2 = k + 5 :=
    ⟨2 * (spaciousDoc n).length - 3, by omega⟩
  have hparse : Json.parseValue (k + 5) (spaciousDoc n ++ []) =
      some (.obj [(Json.quote "store", .obj [(Json.quote "asset:a", .obj [])])], []) :=
    Json.parseValue_oneMember (Json.strLit_quote _)
      (fun rest => parseValue_spaciousRecord n k ('}' :: rest)) []
  rw [List.append_nil] at hparse
  unfold Json.valid Json.parse
  rw [hk, hparse]
  rfl

theorem readDoc_spacious (n : Nat) :
    readDoc (spaciousDoc n) = some { store := (∅ : Records).insert "asset:a" (Json.spacious n) } := by
  have hmap : Json.readRawMap ∅ (spaciousRecord n) =
      some ((∅ : Records).insert "asset:a" (Json.spacious n)) := by
    unfold Json.readRawMap
    rw [if_neg (by simp [spaciousRecord, Json.oneMember]), cutObject_spaciousRecord]
    show some ((∅ : Records).insert (Json.unquote (Json.quote "asset:a")) _) = _
    rw [Json.unquote_quote]
  rw [Room.readDoc_cut (valid_spaciousDoc n) (cutObject_spaciousDoc n), List.map_singleton,
    Json.unquote_quote, List.foldlM_cons, Room.readField_store, hmap]
  rfl

section Spacious

variable (n : Nat)

theorem size_spacious : sizeOf ((∅ : Records).insert "asset:a" (Json.spacious n)) = n + 9 := by
  unfold sizeOf
  rw [Table.total_insert, Table.erase_self ExtTreeMap.getElem?_empty, Table.total_empty]
  unfold recordSize
  rw [Json.byteLen_spacious]
  have hid : "asset:a".utf8ByteSize = 7 := by decide
  omega

/-- The room over the document. -/
def spaciousRoom : Room :=
  { projectID := "p", boardID := "w1", records := (∅ : Records).insert "asset:a" (Json.spacious n)
    schema := [], rev := 1, bytes := n + 9, tombs := ∅, lastSeq := ∅, lastBy := default
    dirty := false, savedRev := 1, dirtyAt := none, lastTouch := 0, subs := 0 }

theorem spaciousRoom_loaded :
    newRoom "p" "w1" (some (spaciousDoc n)) 1 0 = .ok (spaciousRoom n) := by
  have hread := readDoc_spacious n
  unfold newRoom
  rw [spaciousDoc, Json.oneMember] at hread ⊢
  dsimp only
  rw [hread]
  dsimp only
  rw [size_spacious]
  rfl

def steadily : Env := { now := 0 }

/-- A project with one board, not in memory. -/
def onDisk : Project where
  disk := some (.file { freshFile steadily "p" with
    nextBoardID := 2
    boards := [{ id := "w1", num := 1, name := "sketch", createdBy := default, createdAt := 0
                 updatedAt := 0, updatedBy := default, docRev := 1 }] })
  docs := (∅ : ExtTreeMap String (List Char)).insert "w1" (spaciousDoc n)

def inMemory : Project := ((onDisk n).project steadily "p").1

def key : RoomKey := ("p", "w1")

def start : Lifecycle := { rooms := { st := Function.update (fun _ => {}) "p" (onDisk n) } }

/-- The board is open. -/
def opened : Lifecycle :=
  { rooms := { st := Function.update (start n).rooms.st "p" (inMemory n)
               rooms := ((∅ : ExtTreeMap RoomKey Room).insert key (spaciousRoom n)).insert key
                 { spaciousRoom n with subs := 1 } } }

def openKey : Event := .open' { env := steadily } 0 key

theorem start_opened : (start n).exec openKey = opened n := by
  have hdoc : (start n).rooms.document steadily key =
      ((start n).rooms.setProject "p" (inMemory n), .ok (some (spaciousDoc n), 1)) := rfl
  have hnone : (start n).rooms.rooms[key]? = none := ExtTreeMap.getElem?_empty
  have hsize : ¬ MaxLiveRooms ≤ (start n).rooms.rooms.size := by
    show ¬ MaxLiveRooms ≤ (∅ : ExtTreeMap RoomKey Room).size
    decide
  have hroom : (start n).rooms.roomLocked { env := steadily } 0 key =
      (((start n).rooms.setProject "p" (inMemory n)).setRoom key (spaciousRoom n),
        .ok (spaciousRoom n)) := by
    unfold Rooms.roomLocked
    rw [hnone]
    dsimp only
    rw [if_neg hsize, if_neg hsize, hdoc]
    dsimp only
    rw [show newRoom key.1 key.2 _ _ _ = _ from spaciousRoom_loaded n]
  show { start n with rooms := ((start n).rooms.open' { env := steadily } 0 key).1 } = opened n
  unfold Rooms.open'
  rw [hroom]
  rfl

end Spacious

def sweepUp : Event := .sweep (200 * second) [key] (fun _ => steadily) (fun _ => steadily)

/-- A shape is drawn, and the room is swept away. -/
def shortVisit : List Event := [.apply { env := steadily } key Room.drawX, .release 0 key, sweepUp]

def visited : Lifecycle := shortVisit.foldl exec (opened 0)

example : visited.rooms.rooms[key]?.isNone := by
  decide +kernel

theorem accepted_stored_drawn : ∃ ld, visited.told key = some (ld, 2) ∧
    Stands (visited.rooms.stored key) ld 2 := by
  have hfits : Fitting (opened 0) (.apply { env := steadily } key Room.drawX) := by
    intro r hr
    have hroom : (opened 0).rooms.roomLocked { env := steadily } 0 key =
        ((opened 0).rooms, .ok { spaciousRoom 0 with subs := 1 }) := rfl
    rw [show Room.drawX.now = 0 from rfl, hroom] at hr
    cases hr
    have htaken : (({ spaciousRoom 0 with subs := 1 } : Room).apply .sorted Room.drawX.req default
        0).2.toBool = true := by decide +kernel
    exact Room.not_overfull htaken
  have hrun : Run Happens Fitting (start 0) (openKey :: shortVisit) visited :=
    .cons trivial (start_opened 0) (.cons hfits rfl (.cons trivial rfl (.single trivial rfl)))
  have hst : ∀ projectID, ((start 0).rooms.st projectID).file = none := fun projectID => by
    show (Function.update (fun _ => ({} : Project)) "p" (onDisk 0) projectID).file = none
    rw [Function.update_apply]
    split <;> rfl
  have hgone : visited.rooms.rooms[key]? = none := by
    refine Option.not_isSome_iff_eq_none.mp ?_
    decide +kernel
  exact ⟨_, rfl, (accepted_stored hst hrun).1 key _ _ hgone rfl⟩

/-- As much white space as a document may have. -/
def full : Nat := MaxSnapshotBytes - 24

def drawB : Offer where
  order := .sorted
  req := { clientID := "b", seq := 1, baseRev := 1, put := (∅ : Records).insert "shape:b" Room.blank }
  by' := default
  now := 0

/-- Two shapes are drawn, and everyone leaves. -/
def visit : List Event :=
  [.apply { env := steadily } key Room.drawX, .apply { env := steadily } key drawB, .release 0 key]

def deserted : Lifecycle := visit.foldl exec (opened full)

def drawnRoom : Room :=
  ({ spaciousRoom full with subs := 1 }.apply .sorted Room.drawX.req default 0).1

/-- The second patch made the board too large, and was refused. -/
def leftRoom : Room :=
  { (drawnRoom.apply .sorted drawB.req default 0).1 with subs := 0, lastTouch := 0 }

example : leftRoom.rev = 2 ∧ leftRoom.dirty = true := by
  decide +kernel

theorem drawB_refused : (drawnRoom.apply .sorted drawB.req default 0).2.toBool = false := by
  decide +kernel

theorem deserted_room : deserted.rooms.rooms[key]? = some leftRoom := rfl

theorem deserted_told : deserted.told key = some (drawnRoom.live, 2) := rfl

theorem deserted_project : deserted.rooms.st "p" = inMemory full := rfl

theorem leftRoom_records : leftRoom.records.toList =
    [("asset:a", Json.spacious full), ("shape:b", Room.blank), ("shape:x", Room.blank)] := rfl


/-- What is written of it. -/
def leftDoc : List Char :=
  "\x7b\"store\":\x7b\"asset:a\":\x7b\x7d,\"shape:b\":\x7b\x7d,\"shape:x\":\x7b\x7d\x7d\x7d".toList

theorem leftRoom_document : leftRoom.document = some leftDoc := by
  have hstore : Json.writeRawMap leftRoom.records =
      some "\x7b\"asset:a\":\x7b\x7d,\"shape:b\":\x7b\x7d,\"shape:x\":\x7b\x7d\x7d".toList := by
    unfold Json.writeRawMap
    rw [leftRoom_records, Json.writeMembers, Json.compact_spacious]
    · decide +kernel
    · exact List.cons_ne_nil _ _
  have hschema : leftRoom.schema = [] := by decide +kernel
  unfold Room.document
  rw [hstore, hschema]
  decide +kernel

def written : Project :=
  ((inMemory full).saveSnapshotAtRev steadily "p" "w1" leftDoc default 2).1

theorem written_stored : written.stored "w1" = some (some leftDoc, 2) := by decide +kernel

theorem leftRoom_saved : ∃ b, (deserted.rooms.st leftRoom.projectID).saveSnapshotAtRev steadily
    leftRoom.projectID leftRoom.boardID leftDoc leftRoom.lastBy leftRoom.rev = (written, .ok b) := by
  have hproject : leftRoom.projectID = "p" := by decide +kernel
  have hboard : leftRoom.boardID = "w1" := by decide +kernel
  have hby : leftRoom.lastBy = default := by decide +kernel
  have hrev : leftRoom.rev = 2 := by decide +kernel
  have hok : ((inMemory full).saveSnapshotAtRev steadily "p" "w1" leftDoc default 2).2.toBool = true := by
    decide +kernel
  rw [hproject, hboard, hby, hrev, deserted_project, written]
  generalize (inMemory full).saveSnapshotAtRev steadily "p" "w1" leftDoc default 2 = out at hok
  obtain ⟨p, result⟩ := out
  cases result with
  | error e => cases hok
  | ok b => exact ⟨b, rfl⟩

/-- A sweep of one room. -/
theorem exec_sweep (s : Lifecycle) (now : Time) (first again : RoomKey → Env) :
    s.exec (.sweep now [key] first again) =
      { s with rooms := Rooms.sweepRoom now first again s.rooms key } :=
  rfl

theorem deserted_swept : (deserted.exec sweepUp).rooms =
    ((deserted.rooms.setProject "p" written).setRoom key (Rooms.flushed leftRoom)).drop key := by
  have hdirty : leftRoom.dirty = true := by decide +kernel
  have hsubs : leftRoom.subs = 0 := rfl
  have hproject : leftRoom.projectID = "p" := by decide +kernel
  obtain ⟨b, hsave⟩ := leftRoom_saved
  have hflush := Rooms.flushLocked_saved deserted_room hdirty leftRoom_document hsave
  rw [hproject] at hflush
  rw [sweepUp, exec_sweep, Rooms.sweepRoom, deserted_room]
  dsimp only
  rw [if_pos (⟨hsubs, by decide +kernel⟩ : leftRoom.subs = 0 ∧ _),
    if_pos (⟨hdirty, .inl (by decide +kernel)⟩ : leftRoom.dirty = true ∧ _), hflush]
  exact Rooms.flushAndLeave_clean ((Rooms.setRoom_get key).trans (if_pos rfl)) rfl

theorem started : Run Happens always (start full) (openKey :: (visit ++ [sweepUp]))
    (deserted.exec sweepUp) := by
  have hvisit : Run Happens always (opened full) visit deserted :=
    Run.foldl visit (fun _ _ _ => trivial) (opened full)
  exact .cons trivial (start_opened full) (hvisit.append (.single trivial rfl))

/-- What is read of the document that was written. -/
theorem leftDoc_read : ((readDoc leftDoc).bind fun ld => ld.store["shape:b"]?).isSome = true := by
  decide +kernel

/-- **A shape that was refused is stored**, under the revision of a state without it. -/
theorem refused_shape_stored : ∃ (st : String → Project) (events : List Event) (s : Lifecycle)
    (ld : LiveDoc) (rev : Int), (∀ projectID, (st projectID).file = none) ∧
    Run Happens always { rooms := { st } } events s ∧ s.rooms.rooms[key]? = none ∧
    s.told key = some (ld, rev) ∧ ¬ Stands (s.rooms.stored key) ld rev := by
  refine ⟨(start full).rooms.st, openKey :: (visit ++ [sweepUp]), deserted.exec sweepUp,
    drawnRoom.live, 2, fun projectID => ?_, started, ?_, ?_, ?_⟩
  · show (Function.update (fun _ => ({} : Project)) "p" (onDisk full) projectID).file = none
    rw [Function.update_apply]
    split <;> rfl
  · rw [deserted_swept, Rooms.drop_get, if_pos rfl]
  · rw [sweepUp, exec_sweep]
    exact deserted_told
  · rintro ⟨doc, ld, hstored, hread, halike⟩
    have hwritten : (deserted.exec sweepUp).rooms.stored key = some (some leftDoc, 2) := by
      rw [deserted_swept, Rooms.stored, Rooms.drop_st, Rooms.setRoom_st,
        show key.1 = "p" from rfl, Rooms.setProject_same]
      exact written_stored
    rw [hwritten] at hstored
    cases hstored
    have hnone : drawnRoom.live.store["shape:b"]? = none := by decide +kernel
    have hsame := halike.store "shape:b"
    have hsome := leftDoc_read
    rw [show readDoc leftDoc = some ld from hread] at hsome
    rw [hnone] at hsame
    obtain ⟨raw, hraw⟩ := Option.isSome_iff_exists.mp hsome
    rw [Option.bind_some] at hraw
    rw [hraw] at hsame
    cases hsame

end Lifecycle

end FusionLocalServer.Whiteboards
