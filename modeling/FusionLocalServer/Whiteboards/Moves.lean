import FusionLocalServer.Whiteboards.Meaning
import FusionLocalServer.Whiteboards.Documents
import FusionLocalServer.Whiteboards.Rooms
import FusionLocalServer.Whiteboards.Stored
import Mathlib.Logic.Relation

/-!
# The moves of a registry

All that the operations of the registry do, but for taking in patches and documents, comes to
a few moves (`Rooms.Move`): a room is written or half written, leaves, is made of what is
stored, or is touched; and a document is read. An invariant of the registry is checked on these.
-/

namespace FusionLocalServer.Whiteboards

open Lib Std

namespace Room

variable {order : Order} {r : Room} {req : DocPatchRequest} {by' : UserRef} {now : Time} {a : Applied}

/-- What does not change in a room, and what is unsaved once something does. -/
structure Carries (r r' : Room) : Prop where
  projectID : r'.projectID = r.projectID
  boardID : r'.boardID = r.boardID
  clean : r'.dirty = false → r.dirty = false ∧ r'.live = r.live ∧ r'.rev = r.rev

theorem Carries.refl (r : Room) : r.Carries r := ⟨rfl, rfl, fun h => ⟨h, rfl, rfl⟩⟩

theorem settle_carries (h : r.Accepts order req by' now a (r.settle order req by' now)) :
    r.Carries (r.settle order req by' now) := by
  have hframe := (folded r req).frame
  have hproject : (r.fold req).room.projectID = r.projectID :=
    of_frame Room.projectID (fun _ => rfl) hframe
  have hboard : (r.fold req).room.boardID = r.boardID := of_frame Room.boardID (fun _ => rfl) hframe
  have hdirty : (r.fold req).room.dirty = r.dirty := of_frame Room.dirty (fun _ => rfl) hframe
  have ht := h.taken
  by_cases hchanges : r.Changes req
  · have hout : ¬ (r.fold req).out.empty := fun hempty => out_empty_iff.mp hempty hchanges
    unfold settle
    dsimp only
    rw [if_neg hout]
    constructor
    · rw [of_trimTombs Room.projectID fun _ _ => rfl]
      exact hproject
    · rw [of_trimTombs Room.boardID fun _ _ => rfl]
      exact hboard
    · rw [of_trimTombs Room.dirty fun _ _ => rfl]
      exact fun h => (nomatch h)
  · have hlive : (r.settle order req by' now).live = r.live := by
      unfold live
      rw [ht.records_of_stays hchanges, ht.schema]
    have hrev : (r.settle order req by' now).rev = r.rev := ht.rev.trans (ht.stays hchanges)
    have hsettle : r.settle order req by' now =
        { (r.fold req).room with
          lastSeq := (r.fold req).room.lastSeq.insert req.clientID req.seq } :=
      if_pos (out_empty_iff.mpr hchanges)
    refine ⟨?_, ?_, fun hclean => ⟨?_, hlive, hrev⟩⟩
    · rw [hsettle]
      exact hproject
    · rw [hsettle]
      exact hboard
    · rw [hsettle] at hclean
      exact hdirty.symm.trans hclean

/-- A patch that is answered without an error. -/
theorem apply_carries (h : (r.apply order req by' now).2 = .ok a) :
    r.Carries (r.apply order req by' now).1 := by
  by_cases hadmitted : r.Admitted req
  · have hretry := hadmitted.2.1
    have heq : r.apply order req by' now = _ := apply_admitted hadmitted
    split at heq
    · rw [heq] at h
      cases h
    · have hsettle : (r.apply order req by' now).1 = r.settle order req by' now := by rw [heq]
      rw [hsettle]
      exact settle_carries ⟨hretry, Prod.ext hsettle h⟩
  · rw [apply_not_admitted hadmitted]
    exact .refl r

theorem replace_ok {doc : List Char} {rev : Int} {r' : Room}
    (h : r.replace doc by' now = (r', .ok rev)) :
    r.Carries r' ∧ rev = r'.rev := by
  unfold replace at h
  split at h
  · cases h
  · cases h
    exact ⟨⟨rfl, rfl, fun h => (nomatch h)⟩, rfl⟩

theorem replace_error {doc : List Char} {e : Err} {r' : Room}
    (h : r.replace doc by' now = (r', .error e)) : r' = r := by
  unfold replace at h
  split at h
  · cases h
    rfl
  · cases h

end Room

namespace Rooms

variable {rs rs' : Rooms} {key : RoomKey} {r : Room}

/-- What is on disk of a board. -/
def stored (rs : Rooms) (key : RoomKey) : Option (Option (List Char) × Int) :=
  (rs.st key.1).stored key.2

@[simp] theorem setProject_rooms (projectID : String) (p : Project) :
    (rs.setProject projectID p).rooms = rs.rooms := rfl

@[simp] theorem setRoom_st : (rs.setRoom key r).st = rs.st := rfl

@[simp] theorem drop_st : (rs.drop key).st = rs.st := rfl

theorem setProject_same (projectID : String) (p : Project) :
    (rs.setProject projectID p).st projectID = p := Function.update_self ..

theorem setProject_other {projectID projectID' : String} (h : projectID' ≠ projectID) (p : Project) :
    (rs.setProject projectID p).st projectID' = rs.st projectID' := Function.update_of_ne h ..

theorem setRoom_get (key' : RoomKey) :
    (rs.setRoom key r).rooms[key']? = if key = key' then some r else rs.rooms[key']? :=
  Table.get_insert ..

theorem drop_get (key' : RoomKey) :
    (rs.drop key).rooms[key']? = if key = key' then none else rs.rooms[key']? :=
  Table.get_erase ..

/-- A room that is written. -/
theorem flushLocked_saved {env : Env} {p : Project} {b : Board} {doc : List Char}
    (hr : rs.rooms[key]? = some r) (hdirty : r.dirty = true)
    (hdoc : r.document = some doc)
    (hsave : (rs.st r.projectID).saveSnapshotAtRev env r.projectID r.boardID doc r.lastBy r.rev =
      (p, .ok b)) :
    rs.flushLocked env key = (rs.setProject r.projectID p).setRoom key (flushed r) := by
  unfold flushLocked
  rw [hr]
  dsimp only
  rw [if_neg (Bool.eq_false_iff.not_left.mpr hdirty), hdoc]
  dsimp only
  rw [hsave]

/-- A room that has nothing unsaved leaves. -/
theorem flushAndLeave_clean {env : Env} (hr : rs.rooms[key]? = some r)
    (hclean : r.dirty = false) : rs.flushAndLeave env key = rs.drop key := by
  have hflush : rs.flushLocked env key = rs := by
    unfold flushLocked
    rw [hr]
    exact if_pos hclean
  unfold flushAndLeave
  dsimp only
  rw [hflush, hr]
  exact if_pos hclean

/-! ## Moves -/

inductive Move (rs : Rooms) : Rooms → Prop
  /-- A room that is not written, or not all the way. -/
  | fail {key : RoomKey} {r : Room} {doc : List Char} {env : Env} {p : Project} {e : Err} :
      rs.rooms[key]? = some r → r.dirty = true → r.document = some doc →
      (rs.st r.projectID).saveSnapshotAtRev env r.projectID r.boardID doc r.lastBy r.rev =
        (p, .error e) →
      Move rs (rs.setProject r.projectID p)
  | write {key : RoomKey} {r : Room} {doc : List Char} {env : Env} {p : Project} {b : Board} :
      rs.rooms[key]? = some r → r.dirty = true → r.document = some doc →
      (rs.st r.projectID).saveSnapshotAtRev env r.projectID r.boardID doc r.lastBy r.rev =
        (p, .ok b) →
      Move rs ((rs.setProject r.projectID p).setRoom key (flushed r))
  | leave {key : RoomKey} {r : Room} :
      rs.rooms[key]? = some r → r.dirty = false → Move rs (rs.drop key)
  | read {key : RoomKey} {env : Env} {p : Project} {result : Except Err (Option (List Char) × Int)} :
      (rs.st key.1).document env key.1 key.2 = (p, result) → Move rs (rs.setProject key.1 p)
  | make {key : RoomKey} {r : Room} {doc : Option (List Char)} {rev : Int} {env : Env}
      {p : Project} {now : Time} :
      rs.rooms[key]? = none → (rs.st key.1).document env key.1 key.2 = (p, .ok (doc, rev)) →
      newRoom key.1 key.2 doc rev now = .ok r → Move rs ((rs.setProject key.1 p).setRoom key r)
  | touch {key : RoomKey} {r : Room} (subs : Nat) (lastTouch : Time) :
      rs.rooms[key]? = some r → Move rs (rs.setRoom key { r with subs, lastTouch })

/-- Moves one after the other. -/
abbrev Moves : Rooms → Rooms → Prop := Relation.ReflTransGen Move

/-- What every move preserves holds after any number of them. -/
theorem Moves.invariant {P : Rooms → Prop} (h : Moves rs rs') (h₀ : P rs)
    (hmove : ∀ rs rs', P rs → Move rs rs' → P rs') : P rs' := by
  induction h with
  | refl => exact h₀
  | tail _ hlast ih => exact hmove _ _ ih hlast

/-! ## Writing back -/

theorem flushLocked_moves (rs : Rooms) (env : Env) (key : RoomKey) :
    Moves rs (rs.flushLocked env key) := by
  unfold flushLocked
  split
  · exact .refl
  · next r hr =>
    split
    · exact .refl
    · next hdirty =>
      split
      · exact .refl
      · next doc hdoc =>
        have hdirty' : r.dirty = true := Bool.not_eq_false _ ▸ hdirty
        split
        · next p e hsave => exact .single (.fail hr hdirty' hdoc hsave)
        · next p b hsave => exact .single (.write hr hdirty' hdoc hsave)

theorem flushAndLeave_moves (rs : Rooms) (env : Env) (key : RoomKey) :
    Moves rs (rs.flushAndLeave env key) := by
  have hflush := rs.flushLocked_moves env key
  unfold flushAndLeave
  dsimp only
  split
  · exact hflush
  · next r hr =>
    split
    · next hclean => exact hflush.tail (.leave hr hclean)
    · exact hflush

theorem evictEach_moves (saves : RoomKey → Env) (keys : List RoomKey) :
    ∀ rs, Moves rs (evictEach saves keys rs) := by
  induction keys with
  | nil => exact fun rs => .refl
  | cons key rest ih =>
    intro rs
    have hleave := rs.flushAndLeave_moves (saves key) key
    rw [evictEach]
    split
    · exact hleave
    · exact hleave.trans (ih _)

theorem sweepRoom_moves (now : Time) (first again : RoomKey → Env) (rs : Rooms) (key : RoomKey) :
    Moves rs (sweepRoom now first again rs key) := by
  unfold sweepRoom
  split
  · exact .refl
  · have hflush : ∀ P : Prop, ∀ [Decidable P],
        Moves rs (if P then rs.flushLocked (first key) key else rs) := by
      intro P _
      split
      · exact rs.flushLocked_moves (first key) key
      · exact .refl
    dsimp only
    split
    · exact (hflush _).trans (flushAndLeave_moves _ (again key) key)
    · exact hflush _

theorem sweep_moves (now : Time) (first again : RoomKey → Env) (order : List RoomKey) :
    ∀ rs : Rooms, Moves rs (rs.sweep now order first again) := by
  induction order with
  | nil => exact fun rs => .refl
  | cons key rest ih => exact fun rs => (sweepRoom_moves now first again rs key).trans (ih _)

theorem flushAll_moves (saves : RoomKey → Env) (order : List RoomKey) :
    ∀ rs : Rooms, Moves rs (rs.flushAll order saves) := by
  induction order with
  | nil => exact fun rs => .refl
  | cons key rest ih => exact fun rs => (rs.flushLocked_moves (saves key) key).trans (ih _)

/-! ## Making a room -/

/-- Writing a room back makes none. -/
theorem flushLocked_none {key' : RoomKey} (h : rs.rooms[key']? = none) (env : Env) (key : RoomKey) :
    (rs.flushLocked env key).rooms[key']? = none := by
  unfold flushLocked
  split
  · exact h
  · next r hr =>
    split
    · exact h
    · split
      · exact h
      · split
        · exact h
        · have hne : key ≠ key' := by
            rintro rfl
            rw [h] at hr
            cases hr
          rw [setRoom_get, if_neg hne]
          exact h

theorem flushAndLeave_none {key' : RoomKey} (h : rs.rooms[key']? = none) (env : Env)
    (key : RoomKey) : (rs.flushAndLeave env key).rooms[key']? = none := by
  have hflush := flushLocked_none h env key
  unfold flushAndLeave
  dsimp only
  split
  · exact hflush
  · split
    · rw [drop_get]
      split
      · rfl
      · exact hflush
    · exact hflush

theorem evictEach_none {key' : RoomKey} (saves : RoomKey → Env) (keys : List RoomKey) :
    ∀ {rs : Rooms}, rs.rooms[key']? = none → (evictEach saves keys rs).rooms[key']? = none := by
  induction keys with
  | nil => exact fun h => h
  | cons key rest ih =>
    intro rs h
    have hleave := flushAndLeave_none h (saves key) key
    rw [evictEach]
    split
    · exact hleave
    · exact ih hleave

theorem roomLocked_moves (rs : Rooms) (o : Opening) (now : Time) (key : RoomKey) :
    Moves rs (rs.roomLocked o now key).1 ∧
      ∀ r, (rs.roomLocked o now key).2 = .ok r →
        (rs.roomLocked o now key).1.rooms[key]? = some r := by
  unfold roomLocked
  split
  · next r hr =>
    refine ⟨.refl, ?_⟩
    rintro _ ⟨⟩
    exact hr
  · next hnone =>
    have hspace : Moves rs (if MaxLiveRooms ≤ rs.rooms.size then rs.evictIdleLocked o else rs) ∧
        (if MaxLiveRooms ≤ rs.rooms.size then rs.evictIdleLocked o else rs).rooms[key]? = none := by
      split
      · exact ⟨evictEach_moves o.saves _ rs, evictEach_none o.saves _ hnone⟩
      · exact ⟨.refl, hnone⟩
    generalize (if MaxLiveRooms ≤ rs.rooms.size then rs.evictIdleLocked o else rs) = rs₀ at hspace
    dsimp only
    split
    · exact ⟨hspace.1, fun _ h => (nomatch h)⟩
    · unfold document
      cases hread : (rs₀.st key.1).document o.env key.1 key.2 with
      | mk p result =>
        have hmove := hspace.1.tail (.read hread)
        cases result with
        | error e => exact ⟨hmove, fun _ h => (nomatch h)⟩
        | ok found =>
          obtain ⟨doc, rev⟩ := found
          dsimp only
          split
          · exact ⟨hmove, fun _ h => (nomatch h)⟩
          · next r hr =>
            refine ⟨hspace.1.tail (.make hspace.2 hread hr), ?_⟩
            rintro _ ⟨⟩
            rw [setRoom_get, if_pos rfl]

/-! ## The operations -/

theorem open_moves (rs : Rooms) (o : Opening) (now : Time) (key : RoomKey) :
    Moves rs (rs.open' o now key).1 := by
  obtain ⟨hroom, hget⟩ := rs.roomLocked_moves o now key
  unfold open'
  split
  · next rs₁ e heq =>
    rw [heq] at hroom
    exact hroom
  · next rs₁ r heq =>
    rw [heq] at hroom hget
    exact hroom.tail (.touch _ _ (hget r rfl))

theorem release_moves (rs : Rooms) (now : Time) (key : RoomKey) : Moves rs (rs.release now key) := by
  unfold release
  split
  · exact .refl
  · next r hr => exact .single (.touch _ _ hr)

theorem snapshot_moves (rs : Rooms) (env : Env) (key : RoomKey) :
    Moves rs (rs.snapshot env key).1 := by
  unfold snapshot
  split
  · exact .refl
  · unfold document
    cases hread : (rs.st key.1).document env key.1 key.2 with
    | mk p result => exact .single (.read hread)

/-- A patch goes to the room of its board, made if need be. -/
theorem apply_moves (rs : Rooms) (o : Opening) (key : RoomKey) (offer : Offer) :
    (∃ e, (rs.apply o key offer).2 = .error e ∧ Moves rs (rs.apply o key offer).1) ∨
    ∃ rs₁ r, rs.roomLocked o offer.now key = (rs₁, .ok r) ∧ Moves rs rs₁ ∧
      rs₁.rooms[key]? = some r ∧
      rs.apply o key offer =
        (rs₁.setRoom key (r.apply offer.order offer.req offer.by' offer.now).1,
          (r.apply offer.order offer.req offer.by' offer.now).2) := by
  obtain ⟨hroom, hget⟩ := rs.roomLocked_moves o offer.now key
  unfold apply
  cases heq : rs.roomLocked o offer.now key with
  | mk rs₁ result =>
    rw [heq] at hroom hget
    cases result with
    | error e => exact .inl ⟨e, rfl, hroom⟩
    | ok r => exact .inr ⟨rs₁, r, rfl, hroom, hget r rfl, rfl⟩

end Rooms

end FusionLocalServer.Whiteboards
