import FusionLocalServer.Lib.Run
import FusionLocalServer.Whiteboards.Meaning

/-!
# Bindings and their ends

A shape that is removed takes its bindings with it. Nothing keeps a binding from being put
that names a record which is not there, though, be it that another client has removed it
meanwhile, or that the patch itself removes something the cascade does not look at. The
bindings stay whole through the patches that do neither (`bindings_whole`), and one patch
keeps them whole exactly when it does neither (`Taken.whole_iff`).
-/

namespace FusionLocalServer.Whiteboards

open Lib Std
open Lib.Json (RawMessage)

/-- A patch that comes to a room. -/
structure Offer where
  order : Order
  req : DocPatchRequest
  by' : UserRef
  now : Time

namespace Room

/-- A room takes a patch in. -/
def Patches (r : Room) (o : Offer) (r' : Room) : Prop :=
  ∃ a, r.Accepts o.order o.req o.by' o.now a r'

/-- Every end a binding names is a record. -/
def Whole (m : Records) : Prop :=
  ∀ id rec, m[id]? = some rec → isBinding id = true → ∀ e ∈ namedEnds rec, (m[e]?).isSome

/-- The patch leaves a record under the id: it is put and not refused, or there and not
taken away. -/
def Leaves (r : Room) (req : DocPatchRequest) (id : String) : Prop :=
  (r.laid req id).isSome ∨ (r.left req id).isSome

/-- The patch joins what is there: a binding it puts names no end that is missing once it is
folded in, and what it takes away besides shapes is not an end of a binding that stays. -/
structure Joins (r : Room) (req : DocPatchRequest) : Prop where
  put : ∀ id rec, r.laid req id = some rec → isBinding id = true →
    ∀ e ∈ namedEnds rec, r.Leaves req e
  taken : ∀ e, r.Gone req e → isShape e = false →
    ∀ id rec, r.left req id = some rec → r.laid req id = none → isBinding id = true →
      e ∉ namedEnds rec

variable {order : Order} {r r' : Room} {req : DocPatchRequest} {a : Applied}

theorem Taken.isSome_iff (h : r.Taken order req a r') (id : String) :
    (r'.records[id]?).isSome ↔ r.Leaves req id := by
  rw [h.records]
  unfold Leaves
  cases r.laid req id <;> cases r.left req id <;> simp

/-- A binding of a shape that is removed does not stay. -/
theorem not_left_of_touches {id e : String} {rec : RawMessage} (hleft : r.left req id = some rec)
    (hbinding : isBinding id = true) (hend : e ∈ namedEnds rec) (hremove : e ∈ req.remove) :
    isShape e = false := by
  by_contra hshape
  have hnot : ¬ r.Gone req id := fun hgone => by
    rw [left, if_pos hgone] at hleft
    cases hleft
  rw [left, if_neg hnot] at hleft
  refine hnot (.inr ⟨fun hid => hnot (.inl hid), hbinding, rec, hleft, ?_⟩)
  exact bindingTouches_iff.mpr ⟨e, hend, List.mem_filter.mpr ⟨hremove, by simpa using hshape⟩⟩

/-- A binding that the cascade takes is no shape. -/
theorem isShape_of_isBinding {id : String} (h : isBinding id = true) : isShape id = false := by
  unfold isBinding hasPrefix at h
  unfold isShape hasPrefix
  rw [Bool.and_eq_true, List.isPrefixOf_iff_prefix] at h
  rw [Bool.and_eq_false_iff]
  right
  rw [Bool.eq_false_iff, ne_eq, List.isPrefixOf_iff_prefix]
  intro hshape
  obtain ⟨s, hs⟩ := h.2
  obtain ⟨t, ht⟩ := hshape
  rw [← ht] at hs
  cases hs

/-- **One patch keeps the bindings whole exactly when it joins what is there.** -/
theorem Taken.whole_iff (h : r.Taken order req a r') (hwhole : Whole r.records) :
    Whole r'.records ↔ r.Joins req := by
  constructor
  · intro hnew
    constructor
    · intro id rec hlaid hbinding e he
      exact (h.isSome_iff e).mp (hnew id rec (by rw [h.records, hlaid]; rfl) hbinding e he)
    · intro e hgone hshape id rec hleft hlaid hbinding hend
      have hsome := hnew id rec (by rw [h.records, hlaid, hleft]; rfl) hbinding e hend
      rw [h.records, laid_of_gone h.admitted hgone, left, if_pos hgone] at hsome
      cases hsome
  · intro hjoins id rec hrec hbinding e he
    rw [h.isSome_iff]
    rw [h.records] at hrec
    cases hlaid : r.laid req id with
    | some rec' =>
      rw [hlaid] at hrec
      cases hrec
      exact hjoins.put id rec hlaid hbinding e he
    | none =>
      rw [hlaid, Option.none_or] at hrec
      -- the end was there, and what went with it is no shape, so the binding would have gone
      have hold : r.records[id]? = some rec := by
        unfold left at hrec
        split at hrec
        · cases hrec
        · exact hrec
      have hthere := hwhole id rec hold hbinding e he
      by_cases hgone : r.Gone req e
      · refine absurd he (hjoins.taken e hgone ?_ id rec hrec hlaid hbinding)
        rcases hgone with hremove | hcascade
        · exact not_left_of_touches hrec hbinding he hremove
        · exact isShape_of_isBinding hcascade.2.1
      · right
        rw [left, if_neg hgone]
        exact hthere

/-- **Bindings stay whole**: in a room that a run of patches leads to from whole bindings,
each of them joining what it found, every end that a binding names is there; and the next
patch keeps it so exactly when it joins what is there. -/
theorem bindings_whole {r₀ r : Room} {offers : List Offer} (hwhole : Whole r₀.records)
    (hrun : Run Patches (fun r o => r.Joins o.req) r₀ offers r) :
    Whole r.records ∧
      ∀ o r', r.Patches o r' → (Whole r'.records ↔ r.Joins o.req) := by
  have hnow : Whole r.records := hrun.invariant hwhole fun r o r' h hjoins ⟨_, ha⟩ =>
    (ha.taken.whole_iff h).mpr hjoins
  exact ⟨hnow, fun o r' ⟨_, ha⟩ => ha.taken.whole_iff hnow⟩

/-! ### A binding that comes late -/

/-- A binding between two records. -/
def between (a b : String) : RawMessage :=
  ("\x7b\"fromId\":\"" ++ a ++ "\",\"toId\":\"" ++ b ++ "\"\x7d").toList

def arrow (a b : String) : Offer where
  order := .sorted
  req := { first ((∅ : Records).insert "binding:1" (between a b)) [] with clientID := "d" }
  by' := default
  now := 0

theorem arrow_put {a b id : String} {rec : RawMessage} {r : Room}
    (h : r.laid (arrow a b).req id = some rec) : id = "binding:1" ∧ rec = between a b := by
  unfold laid at h
  split at h
  · cases h
  · change ((∅ : Records).insert "binding:1" (between a b))[id]? = some rec at h
    rw [Table.get_insert, ExtTreeMap.getElem?_empty] at h
    split at h
    · next hid =>
      cases h
      exact ⟨hid.symm, rfl⟩
    · cases h

/-- A loop on the one shape there is. -/
theorem bindings_whole_loop :
    let r := (oneShape.apply .sorted (arrow "shape:a" "shape:a").req default 0).1
    Whole r.records ∧ ∀ o r', r.Patches o r' → (Whole r'.records ↔ r.Joins o.req) := by
  obtain ⟨a, ha⟩ := exists_accepts .sorted oneShape (arrow "shape:a" "shape:a").req default 0
    (by decide +kernel) (by decide +kernel)
  have hwhole : Whole oneShape.records := by
    intro id rec hrec hbinding
    change ((∅ : Records).insert "shape:a" blank)[id]? = some rec at hrec
    rw [Table.get_insert, ExtTreeMap.getElem?_empty] at hrec
    split at hrec
    · next hid =>
      subst hid
      exact absurd hbinding (by decide)
    · cases hrec
  have hjoins : oneShape.Joins (arrow "shape:a" "shape:a").req := by
    constructor
    · intro id rec hlaid _ e he
      obtain ⟨-, rfl⟩ := arrow_put hlaid
      have hends : namedEnds (between "shape:a" "shape:a") = ["shape:a", "shape:a"] := by
        decide +kernel
      rw [hends] at he
      have : e = "shape:a" := by simpa using he
      subst this
      exact .inr (by decide +kernel)
    · exact fun e hgone => absurd hgone (not_gone_of_remove_nil rfl e)
  exact bindings_whole hwhole (.single (e := arrow "shape:a" "shape:a") hjoins ⟨a, ha⟩)

def twoShapes : Room :=
  holding (((∅ : Records).insert "shape:a" blank).insert "shape:b" blank)

def removeB : Offer where
  order := .sorted
  req := first ∅ ["shape:b"]
  by' := default
  now := 0

/-- One client removes a shape, and another that has not heard joins it to the other one: the
room is left with a binding to nothing. -/
theorem late_binding_dangles : Whole twoShapes.records ∧ ∃ r,
    Run Patches always twoShapes [removeB, arrow "shape:a" "shape:b"] r ∧ ¬ Whole r.records := by
  obtain ⟨r₁, hr₁⟩ : ∃ r₁, r₁ = (twoShapes.apply .sorted removeB.req default 0).1 := ⟨_, rfl⟩
  obtain ⟨a₁, ha₁⟩ := exists_accepts .sorted twoShapes removeB.req default 0
    (by decide +kernel) (by decide +kernel)
  obtain ⟨a₂, ha₂⟩ := exists_accepts .sorted r₁ (arrow "shape:a" "shape:b").req default 0
    (by rw [hr₁]; decide +kernel) (by rw [hr₁]; decide +kernel)
  rw [← hr₁] at ha₁
  refine ⟨?_, _, .cons trivial ⟨a₁, ha₁⟩ (.single trivial ⟨a₂, ha₂⟩), fun hwhole => ?_⟩
  · intro id rec hrec hbinding
    change (((∅ : Records).insert "shape:a" blank).insert "shape:b" blank)[id]? = some rec at hrec
    rw [Table.get_insert, Table.get_insert, ExtTreeMap.getElem?_empty] at hrec
    split at hrec
    · next hid =>
      subst hid
      exact absurd hbinding (by decide)
    · split at hrec
      · next hid =>
        subst hid
        exact absurd hbinding (by decide)
      · cases hrec
  · have hend := hwhole "binding:1" (between "shape:a" "shape:b") (by rw [hr₁]; decide +kernel)
      (by decide) "shape:b" (by decide +kernel)
    rw [hr₁] at hend
    exact absurd hend (by decide +kernel)

end Room

end FusionLocalServer.Whiteboards
