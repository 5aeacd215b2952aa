import FusionLocalServer.Whiteboards.Accepted

/-!
# What a patch means

A patch is a set of records to put over what is left when some ids, and the bindings of the
shapes among them, are taken away (`meaning`). A patch made at the room's own revision has
that meaning exactly when it puts nothing that it also removes (`meaning_iff`): the removals
come first, as the source wants it, but the tombstone they leave refuses the put. What is
broadcast, applied to the records before (`DocPatch.applyTo`), always gives the records
after (`Taken.broadcast`).
-/

namespace FusionLocalServer.Whiteboards

open Lib Std
open Lib.Json (RawMessage)

/-- A patch as a viewer applies it: the puts, then the removals. -/
def DocPatch.applyTo (p : DocPatch) (m : Records) : Records := Table.eraseAll (m ∪ p.put) p.remove

theorem DocPatch.get_applyTo (p : DocPatch) (m : Records) (id : String) :
    (p.applyTo m)[id]? = if id ∈ p.remove then none else p.put[id]?.or m[id]? := by
  unfold applyTo
  rw [Table.get_eraseAll, ExtTreeMap.getElem?_union]

namespace Room

variable {order : Order} {r r' : Room} {req : DocPatchRequest} {by' : UserRef} {now : Time}
  {a : Applied}

/-- The records minus what the patch takes away, with its puts over them. -/
def meaning (r : Room) (req : DocPatchRequest) : Records :=
  (r.records.filter fun id _ => ¬ r.Gone req id) ∪ req.put

theorem get_meaning (id : String) : (r.meaning req)[id]? = req.put[id]?.or (r.left req id) := by
  unfold meaning left
  rw [ExtTreeMap.getElem?_union, ExtTreeMap.getElem?_filter']
  congr 1
  cases r.records[id]? <;> by_cases h : r.Gone req id <;> simp [h]

/-- The broadcast is exactly what changed. -/
theorem Taken.broadcast (h : r.Taken order req a r') : a.patch.applyTo r.records = r'.records := by
  refine ExtTreeMap.ext_getElem? fun id => ?_
  rw [DocPatch.get_applyTo, h.put, h.records]
  by_cases hgone : r.Gone req id
  · rw [if_pos ((h.remove id).mpr hgone), laid_of_gone h.admitted hgone]
    unfold left
    rw [if_pos hgone]
    rfl
  · rw [if_neg fun hmem => hgone ((h.remove id).mp hmem)]
    unfold left
    rw [if_neg hgone]

/-- Without a change there is nothing to broadcast, and the records are what they were. -/
theorem Taken.records_of_stays (h : r.Taken order req a r') (hstays : ¬ r.Changes req) :
    r'.records = r.records := by
  refine ExtTreeMap.ext_getElem? fun id => ?_
  have hlaid : r.laid req id = none := by
    by_contra hne
    exact hstays ⟨id, .inr (Option.isSome_iff_ne_none.mpr hne)⟩
  rw [h.records, hlaid]
  exact if_neg fun hgone => hstays ⟨id, .inl hgone⟩

/-- No record is put that is also taken away, nor under a tombstone from the future. -/
def Separate (r : Room) (req : DocPatchRequest) : Prop :=
  ∀ id rec, req.put[id]? = some rec → ¬ r.Gone req id ∧
    ∀ tomb, r.tombs[id]? = some tomb → tomb ≤ r.rev ∨ r.records[id]? = some rec

/-- **A patch at the current revision has its meaning exactly when it puts nothing that it
takes away**, and what is broadcast of it always says what it did. -/
theorem meaning_iff (h : r.Accepts order req by' now a r') (hbase : req.baseRev = r.rev) :
    (r'.records = r.meaning req ∧ a.patch.applyTo r.records = r.meaning req ↔ r.Separate req) ∧
      a.patch.applyTo r.records = r'.records := by
  have ht := h.taken
  refine ⟨?_, ht.broadcast⟩
  rw [ht.broadcast, and_self]
  constructor
  · intro heq id rec hput
    have hid : (r.laid req id).or (r.left req id) = some rec := by
      rw [← ht.records, heq, get_meaning, hput]
      rfl
    constructor
    · intro hgone
      rw [laid_of_gone ht.admitted hgone, left, if_pos hgone] at hid
      cases hid
    · intro tomb htomb
      by_contra hnew
      obtain ⟨hlt, hother⟩ := not_or.mp hnew
      have hgone : ¬ r.Gone req id := fun hgone => by
        rw [laid_of_gone ht.admitted hgone, left, if_pos hgone] at hid
        cases hid
      have hrefused : r.Refused req id := ⟨tomb, by rw [buried, if_neg hgone, htomb], by omega⟩
      rw [laid, if_pos hrefused, left, if_neg hgone] at hid
      exact hother hid
  · intro hsep
    refine ExtTreeMap.ext_getElem? fun id => ?_
    rw [ht.records, get_meaning]
    cases hput : req.put[id]? with
    | none =>
      unfold laid
      rw [hput, ite_self]
    | some rec =>
      obtain ⟨hgone, htombs⟩ := hsep id rec hput
      by_cases hrefused : r.Refused req id
      · obtain ⟨tomb, hburied, hlt⟩ := hrefused
        rw [buried, if_neg hgone] at hburied
        have hsame : r.records[id]? = some rec := by
          rcases htombs tomb hburied with hle | hsame
          · omega
          · exact hsame
        rw [laid, if_pos ⟨tomb, by rw [buried, if_neg hgone, hburied], hlt⟩, left, if_neg hgone,
          hsame]
        rfl
      · rw [laid, if_neg hrefused, hput]

/-! ### A room with one shape -/

/-- A room over some records, at revision one. -/
def holding (records : Records) : Room :=
  { projectID := "p", boardID := "w1", records, schema := [], rev := 1, bytes := sizeOf records
    tombs := ∅, lastSeq := ∅, lastBy := default, dirty := false, savedRev := 1, dirtyAt := none
    lastTouch := 0, subs := 1 }

/-- An object without members. -/
def blank : RawMessage := ['\x7b', '\x7d']

def oneShape : Room := holding ((∅ : Records).insert "shape:a" blank)

/-- A patch of the first client, made at revision one. -/
def first (put : Records) (remove : List String) : DocPatchRequest :=
  { clientID := "c", seq := 1, baseRev := 1, put, remove }

/-- A second shape has its meaning. -/
theorem meaning_iff_second : ∃ a r',
    oneShape.Accepts .sorted (first ((∅ : Records).insert "shape:b" blank) []) default 0 a r' ∧
      (r'.records = oneShape.meaning (first ((∅ : Records).insert "shape:b" blank) []) ∧
        a.patch.applyTo oneShape.records =
          oneShape.meaning (first ((∅ : Records).insert "shape:b" blank) []) ↔
        oneShape.Separate (first ((∅ : Records).insert "shape:b" blank) [])) ∧
      a.patch.applyTo oneShape.records = r'.records := by
  obtain ⟨a, ha⟩ := exists_accepts .sorted oneShape
    (first ((∅ : Records).insert "shape:b" blank) []) default 0 (by decide +kernel) (by decide +kernel)
  exact ⟨a, _, ha, meaning_iff ha rfl⟩

/-- A shape removed and put by one patch. -/
def readd : DocPatchRequest := first ((∅ : Records).insert "shape:a" blank) ["shape:a"]

/-- It is accepted at the current revision, and the shape is gone. -/
theorem readded_shape_gone : ∃ a r', oneShape.Accepts .sorted readd default 0 a r' ∧
    readd.baseRev = oneShape.rev ∧ readd.put["shape:a"]? = some blank ∧
    r'.records["shape:a"]? = none ∧ r'.records ≠ oneShape.meaning readd := by
  obtain ⟨a, ha⟩ := exists_accepts .sorted oneShape readd default 0 (by decide +kernel) (by decide +kernel)
  exact ⟨a, _, ha, rfl, by decide +kernel, by decide +kernel, by decide +kernel⟩

end Room

end FusionLocalServer.Whiteboards
