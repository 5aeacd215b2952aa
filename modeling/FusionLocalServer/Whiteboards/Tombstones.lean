import FusionLocalServer.Whiteboards.Bindings

/-!
# Removals win over stale puts

A room is watched from the document it was loaded with: for each id the revision of its
latest removal, by a patch or by the cascade, is written down next to the room, and struck
out when the room forgets the tombstone or the document is replaced (`Watches`). A patch
that is refused for the size of the board is folded in nevertheless, so its removals count
too. What is written down and the tombstones of the room belong together (`Agrees`): a
tombstone is the latest removal, and a removal without a tombstone was undone by a put. So a
put of a record that is gone comes through exactly when it is based on the removal
(`removals_win`).
-/

namespace FusionLocalServer.Whiteboards

open Lib Std
open Lib.Json (RawMessage)

namespace Room

/-- A room, with the revision of the latest removal of each id. -/
structure Watched where
  room : Room
  removed : String → Option Int

/-- A change of the document of a room. -/
inductive Edit where
  | patch (o : Offer)
  | replace (doc : List Char) (by' : UserRef) (now : Time)

/-- The latest removal of an id, counting those of a patch just taken in. -/
def latest (removed : String → Option Int) (a : Applied) (id : String) : Option Int :=
  if id ∈ a.patch.remove then some a.rev else removed id

/-- What a change does to a room under watch. -/
inductive Watches : Watched → Edit → Watched → Prop
  | patch {w : Watched} {o : Offer} {a : Applied} {r' : Room} :
      w.room.Accepts o.order o.req o.by' o.now a r' →
      Watches w (.patch o)
        ⟨r', fun id => if Forgets o.order w.room o.req id then none else latest w.removed a id⟩
  | retry {w : Watched} {o : Offer} : w.room.Retried o.req → Watches w (.patch o) w
  | refused {w : Watched} {o : Offer} {e : Err} :
      (w.room.apply o.order o.req o.by' o.now).2 = .error e →
      Watches w (.patch o)
        ⟨(w.room.apply o.order o.req o.by' o.now).1, fun id =>
          if w.room.Admitted o.req ∧ w.room.Gone o.req id then some (w.room.rev + 1)
          else w.removed id⟩
  | replace {w : Watched} {doc : List Char} {by' : UserRef} {now : Time} {rev : Int} {r' : Room} :
      w.room.replace doc by' now = (r', .ok rev) →
      Watches w (.replace doc by' now) ⟨r', fun _ => none⟩

/-- The tombstone of an id is its latest removal, unless it was put since. -/
structure AgreesAt (tomb removed : Option Int) (record : Option RawMessage) : Prop where
  latest : ∀ t, tomb = some t → removed = some t
  kept : ∀ t, removed = some t → tomb = some t ∨ record.isSome

/-- The tombstones are the latest removals, except of what was put since. -/
def Agrees (w : Watched) : Prop :=
  ∀ id, AgreesAt w.room.tombs[id]? (w.removed id) w.room.records[id]?

theorem AgreesAt.clear (record : Option RawMessage) : AgreesAt none none record := by
  refine ⟨fun t ht => ?_, fun t ht => ?_⟩
  · cases ht
  · cases ht

variable {order : Order} {r r' : Room} {req : DocPatchRequest} {a : Applied}

/-- Folding a patch in keeps the two together. -/
theorem AgreesAt.fold {removed : Option Int} {id : String} (hadmitted : r.Admitted req)
    (h : AgreesAt r.tombs[id]? removed r.records[id]?) :
    AgreesAt (if (r.laid req id).isSome then none else r.buried req id)
      (if r.Gone req id then some (r.rev + 1) else removed)
      ((r.laid req id).or (r.left req id)) := by
  by_cases hgone : r.Gone req id
  · rw [laid_of_gone hadmitted hgone, buried, if_pos hgone, if_pos hgone]
    exact ⟨fun t ht => ht, fun t ht => .inl ht⟩
  · rw [buried, left, if_neg hgone, if_neg hgone, if_neg hgone]
    -- a put that comes through takes the tombstone with it
    cases r.laid req id with
    | some rec =>
      refine ⟨fun t ht => ?_, fun t _ => .inr rfl⟩
      cases ht
    | none => exact h

/-- A removal is at the revision it made. -/
theorem Taken.rev_of_gone (h : r.Taken order req a r') {id : String} (hgone : r.Gone req id) :
    a.rev = r.rev + 1 := h.moves ⟨id, .inl hgone⟩

/-- The latest removals after a patch, as far as they were its own. -/
theorem Taken.latest_eq (h : r.Taken order req a r') (removed : String → Option Int)
    (id : String) :
    latest removed a id = if r.Gone req id then some (r.rev + 1) else removed id := by
  unfold latest
  by_cases hgone : r.Gone req id
  · rw [if_pos ((h.remove id).mpr hgone), if_pos hgone, h.rev_of_gone hgone]
  · rw [if_neg fun hmem => hgone ((h.remove id).mp hmem), if_neg hgone]

theorem Agrees.watches {w w' : Watched} {e : Edit} (hw : Agrees w) (h : Watches w e w') :
    Agrees w' := by
  intro id
  cases h with
  | @patch o a r' h =>
    have ht := h.taken
    dsimp only
    by_cases hforgets : Forgets o.order w.room o.req id
    · rw [if_pos hforgets, ht.forgets id hforgets]
      exact .clear _
    · rw [if_neg hforgets, ht.tombs id hforgets, ht.records, ht.latest_eq]
      exact (hw id).fold ht.admitted
  | retry => exact hw id
  | @refused o e h =>
    dsimp only
    rcases refused_cases h with ⟨hnot, hroom⟩ | ⟨hadmitted, hroom⟩
    · rw [hroom, if_neg fun hgone => hnot hgone.1]
      exact hw id
    · have hf := folded w.room o.req
      rw [hroom, hf.tombs, hf.records, if_congr (and_iff_right hadmitted) rfl rfl]
      exact (hw id).fold hadmitted
  | @replace doc by' now rev r' h =>
    unfold replace at h
    split at h
    · cases h
    · cases h
      show AgreesAt (∅ : Tombs)[id]? none _
      rw [ExtTreeMap.getElem?_empty]
      exact .clear _

/-- A room just loaded remembers no removal. -/
theorem Agrees.loaded {projectID boardID : String} {doc : Option (List Char)} {rev : Int}
    {now : Time} (h : newRoom projectID boardID doc rev now = .ok r) :
    Agrees ⟨r, fun _ => none⟩ := by
  have htombs : r.tombs = ∅ := by
    unfold newRoom at h
    split at h
    · cases h; rfl
    · cases h; rfl
    · split at h
      · cases h
      · cases h; rfl
  intro id
  show AgreesAt r.tombs[id]? none _
  rw [htombs, ExtTreeMap.getElem?_empty]
  exact .clear _

/-- **Removals win over stale puts**: in a room reached from a loaded document by any patches
and replacements, a put of a record based on an older revision than its latest removal does
not bring it back, and one that is based on the removal or later does. -/
theorem removals_win {projectID boardID : String} {doc : Option (List Char)} {rev : Int}
    {now : Time} {r₀ : Room} {edits : List Edit} {w : Watched} {o : Offer}
    (hload : newRoom projectID boardID doc rev now = .ok r₀)
    (hrun : Run Watches always ⟨r₀, fun _ => none⟩ edits w)
    (h : w.room.Accepts o.order o.req o.by' o.now a r') {id : String} {rec : RawMessage}
    (hput : o.req.put[id]? = some rec) {t : Int} (hlast : latest w.removed a id = some t) :
    (o.req.baseRev < t → w.room.records[id]? = none ∨ id ∈ a.patch.remove →
      r'.records[id]? = none ∧ id ∈ a.rejected) ∧
    (t ≤ o.req.baseRev → r'.records[id]? = some rec) := by
  have hw : Agrees w := hrun.invariant (Agrees.loaded hload) fun w e w' hw _ h => hw.watches h
  have ht := h.taken
  rw [ht.latest_eq] at hlast
  by_cases hgone : w.room.Gone o.req id
  · -- removed by the patch itself, at a revision no base reaches
    rw [if_pos hgone] at hlast
    cases hlast
    constructor
    · intro _ _
      rw [ht.records, laid_of_gone ht.admitted hgone, left, if_pos hgone, ht.rejected, hput]
      exact ⟨rfl, rfl, refused_of_gone ht.admitted hgone⟩
    · intro hle
      have := ht.admitted.baseRev_le
      omega
  · rw [if_neg hgone] at hlast
    constructor
    · intro hlt habsent
      have hnone : w.room.records[id]? = none :=
        habsent.resolve_right fun hmem => hgone ((ht.remove id).mp hmem)
      have htomb : w.room.tombs[id]? = some t := by
        rcases (hw id).kept t hlast with htomb | hsome
        · exact htomb
        · rw [hnone] at hsome
          cases hsome
      have hrefused : w.room.Refused o.req id :=
        ⟨t, by rw [buried, if_neg hgone, htomb], hlt⟩
      rw [ht.records, laid, if_pos hrefused, left, if_neg hgone, hnone, ht.rejected, hput]
      exact ⟨rfl, rfl, hrefused⟩
    · intro hle
      have hfree : ¬ w.room.Refused o.req id := by
        rintro ⟨tomb, hburied, hlt⟩
        rw [buried, if_neg hgone] at hburied
        have hsame := ((hw id).latest tomb hburied).symm.trans hlast
        cases hsame
        omega
      rw [ht.records, laid, if_neg hfree, hput]
      rfl

/-! ### A drag of a shape that is gone -/

def empty : Room :=
  { projectID := "p", boardID := "w1", records := ∅, schema := [], rev := 0, bytes := 0
    tombs := ∅, lastSeq := ∅, lastBy := default, dirty := false, savedRev := 0, dirtyAt := none
    lastTouch := 0, subs := 0 }

def drawX : Offer where
  order := .sorted
  req := { clientID := "a", seq := 1, baseRev := 0, put := (∅ : Records).insert "shape:x" blank }
  by' := default
  now := 0

def removeX : Offer where
  order := .sorted
  req := { clientID := "a", seq := 2, baseRev := 1, remove := ["shape:x"] }
  by' := default
  now := 0

def dragX : Offer where
  order := .sorted
  req := { clientID := "b", seq := 1, baseRev := 1, put := (∅ : Records).insert "shape:x" blank }
  by' := default
  now := 0

/-- The room after a patch. -/
def offered (r : Room) (o : Offer) : Room := (r.apply o.order o.req o.by' o.now).1

/-- One client draws a shape and removes it; the other one, at revision one, drags it. -/
theorem removals_win_drag :
    (((empty.offered drawX).offered removeX).offered dragX).records["shape:x"]? = none := by
  have hdraw : empty.Accepts .sorted drawX.req default 0
      { rev := 1, patch := { put := (∅ : Records).insert "shape:x" blank } }
      (empty.offered drawX) :=
    ⟨by decide +kernel, Prod.ext rfl (by decide +kernel)⟩
  have hremove : (empty.offered drawX).Accepts .sorted removeX.req default 0
      { rev := 2, patch := { remove := ["shape:x"] } } ((empty.offered drawX).offered removeX) :=
    ⟨by decide +kernel, Prod.ext rfl (by decide +kernel)⟩
  have hdrag : ((empty.offered drawX).offered removeX).Accepts .sorted dragX.req default 0
      { rev := 2, rejected := ["shape:x"] } (((empty.offered drawX).offered removeX).offered dragX) :=
    ⟨by decide +kernel, Prod.ext rfl (by decide +kernel)⟩
  have hrun : Run Watches always ⟨empty, fun _ => none⟩ [.patch drawX, .patch removeX] _ :=
    .cons trivial (.patch (o := drawX) hdraw) (.single trivial (.patch (o := removeX) hremove))
  have hload : newRoom "p" "w1" none 0 0 = .ok empty := rfl
  have hput : dragX.req.put["shape:x"]? = some blank := by decide +kernel
  exact ((removals_win hload hrun (o := dragX) hdrag hput (t := 2) (by decide +kernel)).1 (by decide) (.inl (by decide +kernel))).1

end Room

end FusionLocalServer.Whiteboards
