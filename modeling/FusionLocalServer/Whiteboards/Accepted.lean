import FusionLocalServer.Whiteboards.Folding

/-!
# Accepted and refused patches

What `Room.apply` does, by its outcomes. A patch taken in (`Accepts`) was neither refused nor
recognised as one sent before; what it makes of the records, the tombstones and the
revision, and what it broadcasts, is collected in `Taken`. A patch that is refused leaves
the room alone, unless the refusal is the one made after the patch was folded in
(`refused_untouched_iff`).
-/

namespace FusionLocalServer.Whiteboards

open Lib Std
open Lib.Json (RawMessage)

namespace Room

variable {order : Order} {r r' : Room} {req : DocPatchRequest} {by' : UserRef} {now : Time}
  {a : Applied}

/-! ## Forgetting tombstones -/

/-- Forgetting touches nothing but the tombstones. -/
theorem of_trimTombs {γ : Type} (field : Room → γ)
    (hfield : ∀ (r : Room) tombs, field { r with tombs } = field r) :
    field (r.trimTombs order) = field r := by
  unfold trimTombs
  split
  · rfl
  · exact hfield r _

@[simp] theorem trimTombs_records : (r.trimTombs order).records = r.records :=
  of_trimTombs Room.records fun _ _ => rfl

@[simp] theorem trimTombs_slack : (r.trimTombs order).slack = r.slack :=
  of_trimTombs slack fun _ _ => rfl

/-- The tombstones that a room forgets. -/
def forgotten (order : Order) (tombs : Tombs) : List String :=
  if tombs.size ≤ MaxTombstones then [] else surplus order tombs

theorem trimTombs_tombs (id : String) : (r.trimTombs order).tombs[id]? =
    if id ∈ forgotten order r.tombs then none else r.tombs[id]? := by
  unfold trimTombs forgotten
  by_cases h : r.tombs.size ≤ MaxTombstones
  · rw [if_pos h, if_pos h, if_neg List.not_mem_nil]
  · rw [if_neg h, if_neg h]
    dsimp only
    rw [Table.get_eraseAll]

/-! ## The outcomes -/

/-- The patch is taken in: not refused, and not answered as one sent before. -/
def Accepts (order : Order) (r : Room) (req : DocPatchRequest) (by' : UserRef) (now : Time)
    (a : Applied) (r' : Room) : Prop :=
  ¬ r.Retried req ∧ r.apply order req by' now = (r', .ok a)

/-- The patch passed every check made before the first write. -/
def Admitted (r : Room) (req : DocPatchRequest) : Prop :=
  req.validate = .ok () ∧ ¬ r.Retried req ∧ r.precheck req = .ok ()

instance (r : Room) (req : DocPatchRequest) : Decidable (r.Admitted req) :=
  inferInstanceAs (Decidable (_ ∧ _ ∧ _))

/-- The room once a patch was folded in and fits. -/
def settle (order : Order) (r : Room) (req : DocPatchRequest) (by' : UserRef) (now : Time) : Room :=
  let f := r.fold req
  let r := { f.room with lastSeq := f.room.lastSeq.insert req.clientID req.seq }
  if f.out.empty then r else (r.changed by' now).trimTombs order

theorem apply_not_admitted (h : ¬ r.Admitted req) :
    (r.apply order req by' now).1 = r := by
  unfold apply
  cases hvalid : req.validate with
  | error e => rfl
  | ok _ =>
    dsimp only
    split
    · rfl
    · next hretry =>
      cases hprecheck : r.precheck req with
      | error e => rfl
      | ok _ => exact absurd ⟨hvalid, hretry, hprecheck⟩ h

theorem apply_admitted (h : r.Admitted req) : r.apply order req by' now =
    if (MaxSnapshotBytes : Int) < (r.fold req).room.bytes then
      ((r.fold req).room,
        .error ⟨.invalid, "board would exceed %d bytes", [toString MaxSnapshotBytes]⟩)
    else (r.settle order req by' now,
      .ok { rev := (r.settle order req by' now).rev
            patch := if (r.fold req).out.empty then {}
              else { (r.fold req).out with remove := (r.fold req).out.remove.mergeSort }
            rejected := (r.fold req).rejected }) := by
  obtain ⟨hvalid, hretry, hprecheck⟩ := h
  unfold apply settle
  rw [hvalid, hprecheck]
  dsimp only
  rw [if_neg hretry]
  split
  · rfl
  · split <;> rfl

theorem Accepts.admitted (h : r.Accepts order req by' now a r') : r.Admitted req := by
  obtain ⟨hretry, h⟩ := h
  by_contra hnot
  unfold apply at h
  cases hvalid : req.validate with
  | error e =>
    rw [hvalid] at h
    cases h
  | ok _ =>
    rw [hvalid] at h
    dsimp only at h
    rw [if_neg hretry] at h
    cases hprecheck : r.precheck req with
    | error e =>
      rw [hprecheck] at h
      cases h
    | ok _ => exact hnot ⟨hvalid, hretry, hprecheck⟩

variable (order r req by' now) in
/-- A patch that is answered without an error, and not as a retry, is taken in. -/
theorem exists_accepts (hretry : ¬ r.Retried req)
    (hok : (r.apply order req by' now).2.toBool = true) :
    ∃ a, r.Accepts order req by' now a (r.apply order req by' now).1 := by
  cases h : (r.apply order req by' now).2 with
  | error e =>
    rw [h] at hok
    cases hok
  | ok a => exact ⟨a, hretry, Prod.ext rfl h⟩

/-- A patch that was let through is based on a revision the room has had. -/
theorem Admitted.baseRev_le (h : r.Admitted req) : req.baseRev ≤ r.rev := by
  obtain ⟨hnot, -⟩ := refuse_bind_iff.mp h.2.2
  omega

/-- What is gone cannot be put by the same patch: its tombstone is newer than any base. -/
theorem refused_of_gone (h : r.Admitted req) {id : String} (hgone : r.Gone req id) :
    r.Refused req id := by
  refine ⟨r.rev + 1, ?_, ?_⟩
  · unfold buried
    rw [if_pos hgone]
  · have := h.baseRev_le
    omega

theorem laid_of_gone (h : r.Admitted req) {id : String} (hgone : r.Gone req id) :
    r.laid req id = none := if_pos (refused_of_gone h hgone)

/-- The patch changes something. -/
def Changes (r : Room) (req : DocPatchRequest) : Prop :=
  ∃ id, r.Gone req id ∨ (r.laid req id).isSome

theorem out_empty_iff : (r.fold req).out.empty ↔ ¬ r.Changes req := by
  have hf := folded r req
  unfold DocPatch.empty Changes
  rw [ExtTreeMap.isEmpty_iff]
  constructor
  · rintro ⟨hput, hremove⟩ ⟨id, hgone | hlaid⟩
    · rw [← hf.remove, hremove] at hgone
      exact (nomatch hgone)
    · rw [← hf.put, hput, ExtTreeMap.getElem?_empty] at hlaid
      exact (nomatch hlaid)
  · intro hnone
    constructor
    · refine ExtTreeMap.ext_getElem? fun id => ?_
      rw [hf.put, ExtTreeMap.getElem?_empty]
      by_contra hne
      exact hnone ⟨id, .inr (Option.isSome_iff_ne_none.mpr hne)⟩
    · exact List.eq_nil_iff_forall_not_mem.mpr fun id hid => hnone ⟨id, .inl ((hf.remove id).mp hid)⟩

instance : Decidable (r.Changes req) :=
  decidable_of_iff (¬ (r.fold req).out.empty) (not_iff_comm.mp out_empty_iff.symm)

/-- The patch makes the room forget the tombstone of an id. -/
def Forgets (order : Order) (r : Room) (req : DocPatchRequest) (id : String) : Prop :=
  r.Changes req ∧ id ∈ forgotten order (r.fold req).room.tombs

instance (id : String) : Decidable (Forgets order r req id) := inferInstanceAs (Decidable (_ ∧ _))

/-- What a patch that was taken in did, and what is broadcast of it. -/
structure Taken (order : Order) (r : Room) (req : DocPatchRequest) (a : Applied) (r' : Room) :
    Prop where
  admitted : r.Admitted req
  records : ∀ id, r'.records[id]? = (r.laid req id).or (r.left req id)
  forgets : ∀ id, r.Forgets order req id → r'.tombs[id]? = none
  tombs : ∀ id, ¬ r.Forgets order req id →
    r'.tombs[id]? = if (r.laid req id).isSome then none else r.buried req id
  slack : r'.slack = r.slack
  fits : r'.bytes ≤ MaxSnapshotBytes
  schema : r'.schema = r.schema
  rev : r'.rev = a.rev
  moves : r.Changes req → a.rev = r.rev + 1
  stays : ¬ r.Changes req → a.rev = r.rev
  put : ∀ id, a.patch.put[id]? = r.laid req id
  remove : ∀ id, id ∈ a.patch.remove ↔ r.Gone req id
  rejected : ∀ id, id ∈ a.rejected ↔ (req.put[id]?).isSome ∧ r.Refused req id

theorem Accepts.taken (h : r.Accepts order req by' now a r') : r.Taken order req a r' := by
  have hadmitted := h.admitted
  have happly := h.2
  rw [apply_admitted hadmitted] at happly
  have hf := folded r req
  have hschema : (r.fold req).room.schema = r.schema := of_frame Room.schema (fun _ => rfl) hf.frame
  have hrev : (r.fold req).room.rev = r.rev := rev_eq hf.frame
  split at happly
  · cases happly
  · next hfits =>
    cases happly
    unfold settle
    by_cases hempty : (r.fold req).out.empty
    · have hnone := out_empty_iff.mp hempty
      rw [if_pos hempty, if_pos hempty]
      constructor
      · exact hadmitted
      · exact hf.records
      · exact fun id h => absurd h.1 hnone
      · exact fun id _ => hf.tombs id
      · exact hf.slack
      · exact Int.not_lt.mp hfits
      · exact hschema
      · rfl
      · exact fun h => absurd h hnone
      · exact fun _ => hrev
      · intro id
        rw [← hf.put, ExtTreeMap.isEmpty_iff.mp hempty.1]
      · intro id
        rw [← hf.remove, hempty.2]
      · exact hf.rejected
    · have hsome : r.Changes req := not_not.mp fun h => hempty (out_empty_iff.mpr h)
      rw [if_neg hempty, if_neg hempty]
      constructor
      · exact hadmitted
      · intro id
        rw [trimTombs_records]
        exact hf.records id
      · intro id h
        exact (trimTombs_tombs id).trans (if_pos h.2)
      · intro id h
        exact (trimTombs_tombs id).trans
          ((if_neg fun hmem => h ⟨hsome, hmem⟩).trans (hf.tombs id))
      · rw [trimTombs_slack]
        exact hf.slack
      · rw [of_trimTombs Room.bytes fun _ _ => rfl]
        exact Int.not_lt.mp hfits
      · rw [of_trimTombs Room.schema fun _ _ => rfl]
        exact hschema
      · rfl
      · intro _
        rw [of_trimTombs Room.rev fun _ _ => rfl]
        exact congrArg (· + 1) hrev
      · exact fun h => absurd hsome h
      · exact hf.put
      · intro id
        rw [← hf.remove]
        exact List.mem_mergeSort
      · exact hf.rejected

theorem not_gone_of_remove_nil (h : req.remove = []) (id : String) : ¬ r.Gone req id := by
  rintro (hid | ⟨-, -, rec, -, htouch⟩)
  · rw [h] at hid
    exact (nomatch hid)
  · obtain ⟨e, -, he⟩ := bindingTouches_iff.mp htouch
    rw [h] at he
    exact (nomatch he)

/-! ## Refused patches -/

/-- The records of a room with a patch folded in: what is not gone, with what is not refused
over it. -/
def after (r : Room) (req : DocPatchRequest) : Records :=
  (r.records.filter fun id _ => ¬ r.Gone req id) ∪ req.put.filter fun id _ => ¬ r.Refused req id

theorem get_after (id : String) :
    (r.after req)[id]? = (r.laid req id).or (r.left req id) := by
  unfold after laid left
  rw [ExtTreeMap.getElem?_union, ExtTreeMap.getElem?_filter', ExtTreeMap.getElem?_filter']
  congr 1
  · cases req.put[id]? <;> by_cases h : r.Refused req id <;> simp [h]
  · cases r.records[id]? <;> by_cases h : r.Gone req id <;> simp [h]

theorem fold_records : (r.fold req).room.records = r.after req :=
  ExtTreeMap.ext_getElem? fun id => ((folded r req).records id).trans (get_after id).symm

/-- The size of a board with a patch folded in. -/
def sizeAfter (r : Room) (req : DocPatchRequest) : Int :=
  r.bytes + (sizeOf (r.after req) - sizeOf r.records)

theorem fold_bytes : (r.fold req).room.bytes = r.sizeAfter req := by
  have hslack := (folded r req).slack
  unfold slack at hslack
  rw [fold_records] at hslack
  unfold sizeAfter
  omega

/-- Folding the patch in changes no record and no tombstone. -/
def Idle (r : Room) (req : DocPatchRequest) : Prop :=
  r.after req = r.records ∧
    ∀ id, (if (r.laid req id).isSome then none else r.buried req id) = r.tombs[id]?

theorem fold_eq_iff : (r.fold req).room = r ↔ r.Idle req := by
  have hf := folded r req
  constructor
  · intro h
    refine ⟨fold_records.symm.trans (by rw [h]), fun id => ?_⟩
    rw [← hf.tombs, h]
  · rintro ⟨hrecords, htombs⟩
    have hmap : (r.fold req).room.records = r.records := fold_records.trans hrecords
    have hdead : (r.fold req).room.tombs = r.tombs :=
      ExtTreeMap.ext_getElem? fun id => (hf.tombs id).trans (htombs id)
    have hbytes : (r.fold req).room.bytes = r.bytes := by
      rw [fold_bytes]
      unfold sizeAfter
      rw [hrecords]
      omega
    calc (r.fold req).room
        = { (r.fold req).room.frame with records := (r.fold req).room.records
                                         bytes := (r.fold req).room.bytes
                                         tombs := (r.fold req).room.tombs } := rfl
      _ = r := by rw [hf.frame, hmap, hdead, hbytes]; rfl

/-- What a refused patch leaves of the room: as it was, or with the patch folded in. -/
theorem refused_cases {e : Err} (h : (r.apply order req by' now).2 = .error e) :
    ¬ r.Admitted req ∧ (r.apply order req by' now).1 = r ∨
      r.Admitted req ∧ (r.apply order req by' now).1 = (r.fold req).room := by
  by_cases hadmitted : r.Admitted req
  · rw [apply_admitted hadmitted] at h ⊢
    split at h
    · next hlarge =>
      rw [if_pos hlarge]
      exact .inr ⟨hadmitted, rfl⟩
    · cases h
  · exact .inl ⟨hadmitted, apply_not_admitted hadmitted⟩

/-- The one refusal that comes too late: every check before the first write is passed, the
board is too large with the patch folded in, and the patch is not without effect. -/
def Overfull (r : Room) (req : DocPatchRequest) : Prop :=
  r.Admitted req ∧ (MaxSnapshotBytes : Int) < r.sizeAfter req ∧ ¬ r.Idle req

/-- A patch that is not refused does not make the board too large. -/
theorem not_overfull (h : (r.apply order req by' now).2.toBool = true) : ¬ r.Overfull req := by
  rintro ⟨hadmitted, hlarge, -⟩
  rw [← fold_bytes] at hlarge
  rw [apply_admitted hadmitted, if_pos hlarge] at h
  cases h

/-- Any other refusal comes before the first write. -/
theorem apply_of_refused {e : Err} (h : (r.apply order req by' now).2 = .error e)
    (hfits : ¬ r.Overfull req) : (r.apply order req by' now).1 = r := by
  rcases refused_cases h with ⟨-, heq⟩ | ⟨hadmitted, heq⟩
  · exact heq
  · rw [apply_admitted hadmitted] at h
    split at h
    · next hlarge =>
      rw [fold_bytes] at hlarge
      have hidle : r.Idle req := not_not.mp fun hidle => hfits ⟨hadmitted, hlarge, hidle⟩
      exact heq.trans (fold_eq_iff.mpr hidle)
    · cases h

/-- **A refused patch leaves the room as it was, but for one that makes the board too
large**: that is found out after the patch was folded in. -/
theorem refused_untouched_iff (order : Order) (r : Room) (req : DocPatchRequest)
    (by' : UserRef) (now : Time) :
    (∀ e, (r.apply order req by' now).2 = .error e → (r.apply order req by' now).1 = r) ↔
      ¬ r.Overfull req := by
  constructor
  · rintro h ⟨hadmitted, hlarge, hidle⟩
    rw [← fold_bytes] at hlarge
    rw [apply_admitted hadmitted, if_pos hlarge] at h
    exact hidle (fold_eq_iff.mp (h _ rfl))
  · exact fun hfits e he => apply_of_refused he hfits

/-- Of a patch that removes nothing, in a room that remembers no removal, all is laid. -/
theorem after_eq_union (hremove : req.remove = []) (htombs : r.tombs = ∅) :
    r.after req = r.records ∪ req.put := by
  refine ExtTreeMap.ext_getElem? fun id => ?_
  have hgone := not_gone_of_remove_nil (r := r) hremove id
  have hfree : ¬ r.Refused req id := by
    rintro ⟨tomb, hburied, -⟩
    unfold buried at hburied
    rw [if_neg hgone, htombs, ExtTreeMap.getElem?_empty] at hburied
    cases hburied
  rw [get_after, ExtTreeMap.getElem?_union]
  unfold laid left
  rw [if_neg hfree, if_neg hgone]

/-! ### A board that is almost full -/

/-- A text record of so many letters. -/
def letters (n : Nat) : RawMessage := '"' :: (List.replicate n 'a' ++ ['"'])

theorem byteLen_letters (n : Nat) : Json.byteLen (letters n) = n + 2 := by
  unfold letters Json.byteLen
  simp [show 'a'.utf8Size = 1 from rfl, show '"'.utf8Size = 1 from rfl]
  omega

/-- One image, and a hundred bytes to spare. -/
def almostFull : Room :=
  { projectID := "p", boardID := "w1"
    records := (∅ : Records).insert "asset:image" (letters (MaxSnapshotBytes - 100)), schema := []
    rev := 1, bytes := MaxSnapshotBytes - 87, tombs := ∅, lastSeq := ∅, lastBy := default
    dirty := false, savedRev := 1, dirtyAt := none, lastTouch := 0, subs := 1 }

def stroke : DocPatchRequest :=
  { clientID := "c", seq := 1, baseRev := 1, put := (∅ : Records).insert "shape:b" (letters 100) }

theorem stroke_admitted : almostFull.Admitted stroke :=
  ⟨by decide +kernel, by decide +kernel, by decide +kernel⟩

theorem almostFull_size : almostFull.bytes = sizeOf almostFull.records := by
  show ((MaxSnapshotBytes : Nat) : Int) - 87 = Table.total recordSize
    ((∅ : Records).insert "asset:image" (letters (MaxSnapshotBytes - 100)))
  rw [Table.total_insert, Table.erase_self ExtTreeMap.getElem?_empty, Table.total_empty]
  unfold recordSize
  rw [byteLen_letters]
  have hid : "asset:image".utf8ByteSize = 11 := by decide
  have hmax : MaxSnapshotBytes = 25165824 := rfl
  omega

theorem stroke_absent : almostFull.records["shape:b"]? = none := by
  show ((∅ : Records).insert "asset:image" _)["shape:b"]? = none
  rw [Table.get_insert, if_neg (by decide), ExtTreeMap.getElem?_empty]

theorem stroke_after :
    almostFull.after stroke = almostFull.records.insert "shape:b" (letters 100) := by
  rw [after_eq_union rfl rfl]
  refine ExtTreeMap.ext_getElem? fun id => ?_
  rw [ExtTreeMap.getElem?_union, Table.get_insert]
  show (((∅ : Records).insert "shape:b" (letters 100))[id]?).or _ = _
  rw [Table.get_insert, ExtTreeMap.getElem?_empty]
  split <;> rfl

/-- The stroke is refused, and is there. -/
theorem refused_stroke_stays : almostFull.bytes = sizeOf almostFull.records ∧
    (∃ e, (almostFull.apply .sorted stroke default 0).2 = .error e) ∧
    almostFull.records["shape:b"]? = none ∧
    (almostFull.apply .sorted stroke default 0).1.records["shape:b"]? = some (letters 100) := by
  have hlarge : (MaxSnapshotBytes : Int) < (almostFull.fold stroke).room.bytes := by
    rw [fold_bytes, sizeAfter, stroke_after, sizeOf, Table.total_insert,
      Table.erase_self stroke_absent, ← sizeOf, ← almostFull_size]
    unfold recordSize
    rw [byteLen_letters]
    have hid : "shape:b".utf8ByteSize = 7 := by decide
    have hbytes : almostFull.bytes = MaxSnapshotBytes - 87 := rfl
    omega
  rw [apply_admitted stroke_admitted, if_pos hlarge]
  refine ⟨almostFull_size, ⟨_, rfl⟩, stroke_absent, ?_⟩
  show (almostFull.fold stroke).room.records["shape:b"]? = _
  rw [fold_records, stroke_after, Table.get_insert, if_pos rfl]

end Room

end FusionLocalServer.Whiteboards
