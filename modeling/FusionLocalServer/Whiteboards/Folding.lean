import FusionLocalServer.Whiteboards.Room

/-!
# What folding a patch into a room comes to

`Room.fold` runs three loops over one room. Here is what they leave under each id: an id is
`Gone` when the patch removes it or a binding of a shape it removes, what the patch lays
under an id (`laid`) is its put unless a tombstone refuses it, and the records are what was
laid over what is not gone. The loops touch only the records, the size and the tombstones
(`frame`), and the size moves with the records (`slack`).
-/

namespace FusionLocalServer.Whiteboards

open Lib Std
open Lib.Table (get_insert get_erase)
open Lib.Json (RawMessage)

namespace Room

/-- What a room has besides its records, their size and its tombstones. -/
def frame (r : Room) : Room := { r with records := ∅, bytes := 0, tombs := ∅ }

/-- What the frame keeps is the same of two rooms that have the same frame. -/
theorem of_frame {γ : Type} (field : Room → γ) (hfield : ∀ r, field r.frame = field r)
    {r r' : Room} (h : r'.frame = r.frame) : field r' = field r := by
  rw [← hfield r', h, hfield]

theorem rev_eq {r r' : Room} (h : r'.frame = r.frame) : r'.rev = r.rev :=
  of_frame Room.rev (fun _ => rfl) h

/-- By how much the running size is off the size of the records. -/
def slack (r : Room) : Int := r.bytes - sizeOf r.records

namespace Folding

variable (f : Folding) (id a : String) (rec : RawMessage)

/-! ## One record -/

theorem drop_records : (f.drop id).room.records[a]? = if id = a then none else f.room.records[a]? := by
  unfold drop
  split
  · exact get_erase ..
  · next h =>
    split
    · next hid => rw [← hid, h]
    · rfl

@[simp] theorem drop_tombs : (f.drop id).room.tombs = f.room.tombs := by unfold drop; split <;> rfl

@[simp] theorem drop_rev : (f.drop id).room.rev = f.room.rev := by unfold drop; split <;> rfl

@[simp] theorem drop_out : (f.drop id).out = f.out := by unfold drop; split <;> rfl

@[simp] theorem drop_rejected : (f.drop id).rejected = f.rejected := by unfold drop; split <;> rfl

@[simp] theorem drop_removedShapes : (f.drop id).removedShapes = f.removedShapes := by
  unfold drop; split <;> rfl

@[simp] theorem drop_frame : (f.drop id).room.frame = f.room.frame := by unfold drop; split <;> rfl

@[simp] theorem drop_slack : (f.drop id).room.slack = f.room.slack := by
  unfold drop
  split
  · next h =>
    show f.room.bytes - recordSize id _ - sizeOf (f.room.records.erase id) = _
    have hsize := Table.total_erase recordSize h
    unfold slack sizeOf
    omega
  · rfl

/-! ## The removals -/

/-- What removing some ids leaves. -/
structure Discarded (f : Folding) (ids : List String) (g : Folding) : Prop where
  frame : g.room.frame = f.room.frame
  slack : g.room.slack = f.room.slack
  rejected : g.rejected = f.rejected
  put : g.out.put = f.out.put
  remove : g.out.remove = f.out.remove ++ ids
  records : ∀ a, g.room.records[a]? = if a ∈ ids then none else f.room.records[a]?
  tombs : ∀ a, g.room.tombs[a]? = if a ∈ ids then some (f.room.rev + 1) else f.room.tombs[a]?


theorem Discarded.nil : Discarded f [] f :=
  ⟨rfl, rfl, rfl, rfl, (List.append_nil _).symm, fun _ => rfl, fun _ => rfl⟩

theorem Discarded.cons {f g h : Folding} {ids : List String} (hone : Discarded f [id] g)
    (hrest : Discarded g ids h) : Discarded f (id :: ids) h where
  frame := hrest.frame.trans hone.frame
  slack := hrest.slack.trans hone.slack
  rejected := hrest.rejected.trans hone.rejected
  put := hrest.put.trans hone.put
  remove := by rw [hrest.remove, hone.remove, List.append_assoc]; rfl
  records a := by
    rw [hrest.records, hone.records]
    by_cases hid : a = id <;> by_cases ha : a ∈ ids <;> simp [hid, ha]
  tombs a := by
    rw [hrest.tombs, hone.tombs, rev_eq hone.frame]
    by_cases hid : a = id <;> by_cases ha : a ∈ ids <;> simp [hid, ha]

/-- A loop that removes one id at a time removes them all. -/
theorem discarded_foldl {step : Folding → String → Folding}
    (hstep : ∀ f id, Discarded f [id] (step f id)) (ids : List String) :
    ∀ f, Discarded f ids (ids.foldl step f) := by
  induction ids with
  | nil => exact .nil
  | cons id ids ih => exact fun f => .cons id (hstep f id) (ih _)

/-- A record that goes, whoever removes it. -/
def discard : Folding := (f.drop id).bury id

theorem discarded : Discarded f [id] (f.discard id) where
  frame := drop_frame f id
  slack := drop_slack f id
  rejected := drop_rejected f id
  put := by
    show (f.drop id).out.put = _
    rw [drop_out]
  remove := by
    show (f.drop id).out.remove ++ [id] = _
    rw [drop_out]
  records a := by
    show (f.drop id).room.records[a]? = _
    rw [drop_records]
    simp [eq_comm]
  tombs a := by
    show ((f.drop id).room.tombs.insert id ((f.drop id).room.rev + 1))[a]? = _
    rw [get_insert, drop_tombs, drop_rev]
    simp [eq_comm]

@[simp] theorem discard_removedShapes : (f.discard id).removedShapes = f.removedShapes :=
  drop_removedShapes f id

theorem discarded_remove (f : Folding) (id : String) : Discarded f [id] (f.remove id) :=
  { discarded f id with }

/-- The first loop picks out the shapes among the ids it removes. -/
theorem foldl_remove_removedShapes (ids : List String) : ∀ f : Folding,
    (ids.foldl remove f).removedShapes = f.removedShapes ++ ids.filter isShape := by
  induction ids with
  | nil => exact fun f => (List.append_nil _).symm
  | cons id ids ih =>
    intro f
    show (ids.foldl remove (f.remove id)).removedShapes = _
    rw [ih]
    show (if isShape id then (f.discard id).removedShapes ++ [id]
      else (f.discard id).removedShapes) ++ _ = _
    rw [discard_removedShapes, List.filter_cons]
    split
    · rw [List.append_assoc]
      rfl
    · rfl

/-! ## The cascade -/

/-- The entries the cascade takes. -/
def hits (shapes : List String) (l : List (String × RawMessage)) : List String :=
  (l.filter fun record => isBinding record.1 && bindingTouches record.2 shapes).map (·.1)

theorem mem_hits {shapes : List String} {l : List (String × RawMessage)} {id : String} :
    id ∈ hits shapes l ↔
      ∃ rec, (id, rec) ∈ l ∧ isBinding id = true ∧ bindingTouches rec shapes = true := by
  unfold hits
  simp only [List.mem_map, List.mem_filter, Bool.and_eq_true]
  constructor
  · rintro ⟨⟨id, rec⟩, ⟨hmem, hb, ht⟩, rfl⟩
    exact ⟨rec, hmem, hb, ht⟩
  · rintro ⟨rec, hmem, hb, ht⟩
    exact ⟨(id, rec), ⟨hmem, hb, ht⟩, rfl⟩

/-- The second loop removes the bindings that touch a shape removed. -/
theorem foldl_cascade (l : List (String × RawMessage)) :
    ∀ f : Folding, l.foldl cascade f = (hits f.removedShapes l).foldl discard f := by
  induction l with
  | nil => exact fun f => rfl
  | cons record l ih =>
    intro f
    rw [List.foldl_cons, ih]
    unfold cascade hits
    by_cases hhit : isBinding record.1 = true ∧ bindingTouches record.2 f.removedShapes = true
    · rw [if_neg (by simp [hhit.1, hhit.2]),
        List.filter_cons_of_pos (by simp [hhit.1, hhit.2])]
      show (hits (f.discard record.1).removedShapes l).foldl discard (f.discard record.1) = _
      rw [discard_removedShapes]
      rfl
    · rw [if_pos (not_and_or.mp hhit), List.filter_cons_of_neg (by simpa using hhit)]

/-! ## The puts -/

/-- A tombstone newer than the revision a patch is based on. -/
def Refuses (tombs : Tombs) (baseRev : Int) (id : String) : Prop :=
  ∃ tomb, tombs[id]? = some tomb ∧ baseRev < tomb

theorem lay_records : (f.lay id rec).room.records[a]? =
    if id = a then some rec else f.room.records[a]? := by
  show ((f.drop id).room.records.insert id rec)[a]? = _
  rw [get_insert, drop_records]
  split <;> rfl

theorem lay_tombs : (f.lay id rec).room.tombs[a]? =
    if id = a then none else f.room.tombs[a]? := by
  show ((f.drop id).room.tombs.erase id)[a]? = _
  rw [get_erase, drop_tombs]

theorem lay_put : (f.lay id rec).out.put[a]? = if id = a then some rec else f.out.put[a]? := by
  show ((f.drop id).out.put.insert id rec)[a]? = _
  rw [get_insert, drop_out]

theorem lay_slack : (f.lay id rec).room.slack = f.room.slack := by
  have hdrop := drop_slack f id
  have hfree : (f.drop id).room.records[id]? = none := by rw [drop_records, if_pos rfl]
  have hsize := Table.total_insert recordSize (f.drop id).room.records id rec
  rw [Table.erase_self hfree] at hsize
  show (f.drop id).room.bytes + recordSize id rec -
    sizeOf ((f.drop id).room.records.insert id rec) = _
  unfold slack at hdrop ⊢
  unfold sizeOf at hdrop ⊢
  omega

theorem put_cases (baseRev : Int) (record : String × RawMessage) :
    Refuses f.room.tombs baseRev record.1 ∧
        f.put baseRev record = { f with rejected := f.rejected ++ [record.1] } ∨
      ¬ Refuses f.room.tombs baseRev record.1 ∧
        f.put baseRev record = f.lay record.1 record.2 := by
  unfold put
  split
  · next tomb h =>
    split
    · next hlt => exact .inl ⟨⟨tomb, h, hlt⟩, rfl⟩
    · next hle =>
      refine .inr ⟨?_, rfl⟩
      rintro ⟨tomb', h', hlt⟩
      rw [h] at h'
      cases h'
      exact hle hlt
  · next h =>
    refine .inr ⟨?_, rfl⟩
    rintro ⟨tomb, h', -⟩
    rw [h] at h'
    cases h'

/-- What the third loop leaves of the records of a list. -/
structure Laid (f : Folding) (baseRev : Int) (l : List (String × RawMessage)) (g : Folding) :
    Prop where
  frame : g.room.frame = f.room.frame
  slack : g.room.slack = f.room.slack
  remove : g.out.remove = f.out.remove
  laid : ∀ {a rec}, (a, rec) ∈ l → ¬ Refuses f.room.tombs baseRev a →
    g.room.records[a]? = some rec ∧ g.room.tombs[a]? = none ∧ g.out.put[a]? = some rec
  kept : ∀ {a}, (∀ rec, (a, rec) ∉ l) ∨ Refuses f.room.tombs baseRev a →
    g.room.records[a]? = f.room.records[a]? ∧ g.room.tombs[a]? = f.room.tombs[a]? ∧
      g.out.put[a]? = f.out.put[a]?
  rejected : ∀ a, a ∈ g.rejected ↔
    a ∈ f.rejected ∨ (∃ rec, (a, rec) ∈ l) ∧ Refuses f.room.tombs baseRev a

theorem Refuses.congr {tombs tombs' : Tombs} {baseRev : Int} {id : String}
    (h : tombs'[id]? = tombs[id]?) :
    Refuses tombs' baseRev id ↔ Refuses tombs baseRev id := by
  unfold Refuses
  rw [h]

/-- One put, and the tombstones of the other ids. -/
theorem put_tombs {baseRev : Int} {record : String × RawMessage} {a : String}
    (ha : record.1 ≠ a) : (f.put baseRev record).room.tombs[a]? = f.room.tombs[a]? := by
  rcases put_cases f baseRev record with ⟨-, h⟩ | ⟨-, h⟩
  · rw [h]
  · rw [h, lay_tombs, if_neg ha]

theorem laid_one (baseRev : Int) (record : String × RawMessage) :
    Laid f baseRev [record] (f.put baseRev record) := by
  obtain ⟨id, rec⟩ := record
  rcases put_cases f baseRev (id, rec) with ⟨hrefuses, h⟩ | ⟨hfree, h⟩
  · rw [h]
    constructor
    · rfl
    · rfl
    · rfl
    · intro a rec' hmem hfree
      cases List.mem_singleton.mp hmem
      exact absurd hrefuses hfree
    · exact fun _ => ⟨rfl, rfl, rfl⟩
    · intro a
      show a ∈ f.rejected ++ [id] ↔ _
      rw [List.mem_append, List.mem_singleton]
      constructor
      · rintro (ha | rfl)
        · exact .inl ha
        · exact .inr ⟨⟨rec, List.mem_singleton_self _⟩, hrefuses⟩
      · rintro (ha | ⟨⟨rec', hmem⟩, -⟩)
        · exact .inl ha
        · cases List.mem_singleton.mp hmem
          exact .inr rfl
  · rw [h]
    constructor
    · exact drop_frame f id
    · exact lay_slack f id rec
    · show (f.drop id).out.remove = _
      rw [drop_out]
    · intro a rec' hmem _
      cases List.mem_singleton.mp hmem
      rw [lay_records, lay_tombs, lay_put, if_pos rfl, if_pos rfl, if_pos rfl]
      exact ⟨rfl, rfl, rfl⟩
    · intro a ha
      have hne : id ≠ a := by
        rintro rfl
        rcases ha with ha | ha
        · exact ha rec (List.mem_singleton_self _)
        · exact hfree ha
      rw [lay_records, lay_tombs, lay_put, if_neg hne, if_neg hne, if_neg hne]
      exact ⟨rfl, rfl, rfl⟩
    · intro a
      show a ∈ (f.drop id).rejected ↔ _
      rw [drop_rejected]
      constructor
      · exact .inl
      · rintro (ha | ⟨⟨rec', hmem⟩, hrefuses⟩)
        · exact ha
        · cases List.mem_singleton.mp hmem
          exact absurd hrefuses hfree

theorem laid_foldl (baseRev : Int) (l : List (String × RawMessage)) :
    (l.map (·.1)).Nodup → ∀ f : Folding, Laid f baseRev l (l.foldl (put baseRev) f) := by
  induction l with
  | nil =>
    intro _ f
    exact ⟨rfl, rfl, rfl, fun h => (nomatch h), fun _ => ⟨rfl, rfl, rfl⟩, fun a => by simp⟩
  | cons record l ih =>
    intro hnodup f
    obtain ⟨hnew, hnodup⟩ := List.nodup_cons.mp hnodup
    have hone := laid_one f baseRev record
    have hrest := ih hnodup (f.put baseRev record)
    have hother : ∀ {a rec}, (a, rec) ∈ l → record.1 ≠ a := by
      rintro a rec hmem rfl
      exact hnew (List.mem_map.mpr ⟨_, hmem, rfl⟩)
    -- the tombstones of the records still to come are those there were
    have hsame : ∀ {a}, record.1 ≠ a → (Refuses (f.put baseRev record).room.tombs baseRev a ↔
        Refuses f.room.tombs baseRev a) := fun ha => Refuses.congr (put_tombs f ha)
    constructor
    · exact hrest.frame.trans hone.frame
    · exact hrest.slack.trans hone.slack
    · exact hrest.remove.trans hone.remove
    · intro a rec hmem hfree
      rcases List.mem_cons.mp hmem with hmem | hmem
      · have hlast := hrest.kept (a := a) (.inl fun rec' hmem' => hother hmem' (hmem ▸ rfl))
        have hfirst := hone.laid (List.mem_singleton.mpr hmem) hfree
        exact ⟨hlast.1.trans hfirst.1, hlast.2.1.trans hfirst.2.1, hlast.2.2.trans hfirst.2.2⟩
      · exact hrest.laid hmem fun h => hfree ((hsame (hother hmem)).mp h)
    · intro a ha
      by_cases hid : record.1 = a
      · have hfirst := hone.kept (a := a) (ha.imp_left fun h rec hmem =>
          h rec (List.mem_cons.mpr (.inl (List.mem_singleton.mp hmem))))
        have hlast := hrest.kept (a := a) (.inl fun rec' hmem' => hother hmem' hid)
        exact ⟨hlast.1.trans hfirst.1, hlast.2.1.trans hfirst.2.1, hlast.2.2.trans hfirst.2.2⟩
      · have hfirst := hone.kept (a := a) (.inl fun rec hmem =>
          hid (List.mem_singleton.mp hmem ▸ rfl))
        have hlast := hrest.kept (a := a) (ha.imp (fun h rec hmem =>
          h rec (List.mem_cons_of_mem _ hmem)) (hsame hid).mpr)
        exact ⟨hlast.1.trans hfirst.1, hlast.2.1.trans hfirst.2.1, hlast.2.2.trans hfirst.2.2⟩
    · intro a
      show a ∈ (l.foldl (put baseRev) (f.put baseRev record)).rejected ↔ _
      rw [hrest.rejected, hone.rejected]
      by_cases hid : record.1 = a
      · subst hid
        constructor
        · rintro ((ha | ⟨⟨rec, hmem⟩, h⟩) | ⟨⟨rec, hmem⟩, -⟩)
          · exact .inl ha
          · exact .inr ⟨⟨rec, List.mem_cons.mpr (.inl (List.mem_singleton.mp hmem))⟩, h⟩
          · exact absurd rfl (hother hmem)
        · rintro (ha | ⟨-, h⟩)
          · exact .inl (.inl ha)
          · exact .inl (.inr ⟨⟨record.2, List.mem_singleton_self _⟩, h⟩)
      · rw [hsame hid]
        constructor
        · rintro ((ha | ⟨⟨rec, hmem⟩, -⟩) | ⟨⟨rec, hmem⟩, h⟩)
          · exact .inl ha
          · exact absurd (List.mem_singleton.mp hmem ▸ rfl) hid
          · exact .inr ⟨⟨rec, List.mem_cons_of_mem _ hmem⟩, h⟩
        · rintro (ha | ⟨⟨rec, hmem⟩, h⟩)
          · exact .inl (.inl ha)
          · rcases List.mem_cons.mp hmem with hmem | hmem
            · exact absurd (hmem ▸ rfl) hid
            · exact .inr ⟨⟨rec, hmem⟩, h⟩

end Folding

/-! ## The whole patch -/

section Fold

variable (r : Room) (req : DocPatchRequest)

/-- A binding of a shape that the patch removes, not itself removed by it. -/
def Cascades (id : String) : Prop :=
  id ∉ req.remove ∧ isBinding id = true ∧
    ∃ rec, r.records[id]? = some rec ∧ bindingTouches rec (req.remove.filter isShape) = true

instance (id : String) : Decidable (r.Cascades req id) :=
  decidable_of_iff (id ∉ req.remove ∧ isBinding id = true ∧
      (r.records[id]?.any fun rec => bindingTouches rec (req.remove.filter isShape)) = true) <| by
    unfold Cascades
    rw [Option.any_eq_true]

/-- The patch removes what is under the id. -/
def Gone (id : String) : Prop := id ∈ req.remove ∨ r.Cascades req id

instance (id : String) : Decidable (r.Gone req id) := inferInstanceAs (Decidable (_ ∨ _))

/-- The tombstone of an id when the puts are looked at. -/
def buried (id : String) : Option Int := if r.Gone req id then some (r.rev + 1) else r.tombs[id]?

/-- A put of the id is refused. -/
def Refused (id : String) : Prop := ∃ tomb, r.buried req id = some tomb ∧ req.baseRev < tomb

instance (id : String) : Decidable (r.Refused req id) :=
  decidable_of_iff ((r.buried req id).any fun tomb => req.baseRev < tomb) <| by
    unfold Refused
    rw [Option.any_eq_true]
    simp only [decide_eq_true_eq]

/-- The record the patch lays under an id. -/
def laid (id : String) : Option RawMessage := if r.Refused req id then none else req.put[id]?

/-- What is under an id before the puts. -/
def left (id : String) : Option RawMessage := if r.Gone req id then none else r.records[id]?

/-- What folding a patch in leaves. -/
structure Folded (f : Folding) : Prop where
  frame : f.room.frame = r.frame
  slack : f.room.slack = r.slack
  records : ∀ id, f.room.records[id]? = (r.laid req id).or (r.left req id)
  tombs : ∀ id, f.room.tombs[id]? = if (r.laid req id).isSome then none else r.buried req id
  put : ∀ id, f.out.put[id]? = r.laid req id
  remove : ∀ id, id ∈ f.out.remove ↔ r.Gone req id
  rejected : ∀ id, id ∈ f.rejected ↔ (req.put[id]?).isSome ∧ r.Refused req id

theorem folded : r.Folded req (r.fold req) := by
  -- the removals
  obtain ⟨f₁, hf₁⟩ : ∃ f₁ : Folding, f₁ = req.remove.foldl Folding.remove { room := r } := ⟨_, rfl⟩
  have h₁ : Folding.Discarded { room := r } req.remove f₁ :=
    hf₁ ▸ Folding.discarded_foldl Folding.discarded_remove req.remove _
  have hshapes : f₁.removedShapes = req.remove.filter isShape :=
    hf₁ ▸ Folding.foldl_remove_removedShapes req.remove _
  -- the cascade: with no shape removed it would take nothing
  obtain ⟨f₂, hf₂⟩ : ∃ f₂ : Folding, f₂ = if f₁.removedShapes = [] then f₁
      else f₁.room.records.toList.foldl Folding.cascade f₁ := ⟨_, rfl⟩
  have hhits : ∀ id, id ∈ Folding.hits f₁.removedShapes f₁.room.records.toList ↔
      r.Cascades req id := by
    intro id
    rw [Folding.mem_hits, hshapes]
    simp only [ExtTreeMap.mem_toList_iff_getElem?_eq_some, h₁.records]
    unfold Cascades
    by_cases hid : id ∈ req.remove
    · simp [hid]
    · simp only [hid, if_false, not_false_eq_true, true_and]
      exact ⟨fun ⟨rec, h, hb, ht⟩ => ⟨hb, rec, h, ht⟩, fun ⟨hb, rec, h, ht⟩ => ⟨rec, h, hb, ht⟩⟩
  have h₂ : Folding.Discarded f₁ (Folding.hits f₁.removedShapes f₁.room.records.toList) f₂ := by
    rw [hf₂]
    split
    · next hnone =>
      have hempty : Folding.hits f₁.removedShapes f₁.room.records.toList = [] := by
        refine List.eq_nil_iff_forall_not_mem.mpr fun id hid => ?_
        obtain ⟨rec, -, -, htouch⟩ := Folding.mem_hits.mp hid
        obtain ⟨e, -, he⟩ := bindingTouches_iff.mp htouch
        rw [hnone] at he
        exact (nomatch he)
      rw [hempty]
      exact .nil f₁
    · rw [Folding.foldl_cascade]
      exact Folding.discarded_foldl Folding.discarded _ _
  -- the puts
  have hnodup : (req.put.toList.map (·.1)).Nodup := by
    rw [ExtTreeMap.map_fst_toList_eq_keys]
    exact ExtTreeMap.nodup_keys
  have hfold : r.fold req = req.put.toList.foldl (Folding.put req.baseRev) f₂ := by
    rw [hf₂, hf₁]
    rfl
  have h₃ := Folding.laid_foldl req.baseRev req.put.toList hnodup f₂
  rw [← hfold] at h₃
  have hgone : ∀ id, (id ∈ req.remove ∨ id ∈ Folding.hits f₁.removedShapes
      f₁.room.records.toList) ↔ r.Gone req id := fun id => or_congr_right (hhits id)
  have hrecords : ∀ id, f₂.room.records[id]? = r.left req id := by
    intro id
    rw [h₂.records, h₁.records, ← ite_or, if_congr (or_comm.trans (hgone id)) rfl rfl]
    rfl
  have htombs : ∀ id, f₂.room.tombs[id]? = r.buried req id := by
    intro id
    rw [h₂.tombs, h₁.tombs, rev_eq h₁.frame, ← ite_or,
      if_congr (or_comm.trans (hgone id)) rfl rfl]
    rfl
  have hrefuses : ∀ id, Folding.Refuses f₂.room.tombs req.baseRev id ↔ r.Refused req id := by
    intro id
    unfold Folding.Refuses Refused
    rw [htombs]
  have hput : ∀ id, f₂.out.put[id]? = none := fun id => by
    rw [h₂.put, h₁.put]
    exact ExtTreeMap.getElem?_empty
  have hlaid : ∀ id, ((r.fold req).room.records[id]? = (r.laid req id).or (r.left req id) ∧
      (r.fold req).room.tombs[id]? = if (r.laid req id).isSome then none else r.buried req id) ∧
      (r.fold req).out.put[id]? = r.laid req id := by
    intro id
    unfold laid
    by_cases hrefused : r.Refused req id
    · obtain ⟨hr, ht, hp⟩ := h₃.kept (.inr ((hrefuses id).mpr hrefused))
      rw [hr, ht, hp, if_pos hrefused, hrecords, htombs, hput]
      exact ⟨⟨rfl, rfl⟩, rfl⟩
    · rw [if_neg hrefused]
      cases hreq : req.put[id]? with
      | none =>
        obtain ⟨hr, ht, hp⟩ := h₃.kept (a := id) (.inl fun rec hmem => by
          rw [ExtTreeMap.mem_toList_iff_getElem?_eq_some, hreq] at hmem
          cases hmem)
        rw [hr, ht, hp, hrecords, htombs, hput]
        exact ⟨⟨rfl, rfl⟩, rfl⟩
      | some rec =>
        obtain ⟨hr, ht, hp⟩ := h₃.laid (ExtTreeMap.mem_toList_iff_getElem?_eq_some.mpr hreq)
          (fun h => hrefused ((hrefuses id).mp h))
        exact ⟨⟨hr, ht⟩, hp⟩
  constructor
  · exact h₃.frame.trans (h₂.frame.trans h₁.frame)
  · exact h₃.slack.trans (h₂.slack.trans h₁.slack)
  · exact fun id => (hlaid id).1.1
  · exact fun id => (hlaid id).1.2
  · exact fun id => (hlaid id).2
  · intro id
    rw [h₃.remove, h₂.remove, h₁.remove, List.nil_append, List.mem_append, hgone]
  · intro id
    rw [h₃.rejected, h₂.rejected, h₁.rejected, hrefuses]
    simp only [ExtTreeMap.mem_toList_iff_getElem?_eq_some, List.not_mem_nil, false_or,
      Option.isSome_iff_exists]

end Fold

end Room

end FusionLocalServer.Whiteboards
