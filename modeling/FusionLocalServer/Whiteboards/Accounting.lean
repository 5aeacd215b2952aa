import FusionLocalServer.Whiteboards.Capacity

/-!
# The accounts of a room

A room keeps a running count of the bytes of its records and of their ids, which each put, removal and
cascade adjusts, and forgets its oldest tombstones when there are too many. In every room that loads,
patches taken in and replacements lead to, the count is the size of the records, and there are no more
tombstones than the room is to remember (`reached_accounts`).
-/

namespace FusionLocalServer.Whiteboards

open Lib Std
open Lib.Json (RawMessage)

namespace Room

variable {order : Order} {r r' : Room} {req : DocPatchRequest} {by' : UserRef} {now : Time}

/-! ## The tombstones -/

theorem mem_of_mem_surplus {tombs : Tombs} {id : String} (h : id ∈ surplus order tombs) :
    id ∈ tombs := by
  obtain ⟨tomb, htomb, rfl⟩ := List.mem_map.mp h
  have hmem := (order.perm _).mem_iff.mp (List.mem_mergeSort.mp (List.mem_of_mem_take htomb))
  have hget := ExtTreeMap.mem_toList_iff_getElem?_eq_some.mp hmem
  rw [ExtTreeMap.mem_iff_isSome_getElem?, hget]
  rfl

theorem surplus_spec (order : Order) (tombs : Tombs) :
    (surplus order tombs).Nodup ∧ (surplus order tombs).length = tombs.size - MaxTombstones := by
  have hperm : ((order.range tombs.toList).mergeSort fun a b => a.2 ≤ b.2).Perm tombs.toList :=
    (List.mergeSort_perm _ _).trans (order.perm _)
  constructor
  · have hkeys : (((order.range tombs.toList).mergeSort fun a b => a.2 ≤ b.2).map (·.1)).Nodup := by
      rw [(hperm.map _).nodup_iff, ExtTreeMap.map_fst_toList_eq_keys]
      exact ExtTreeMap.nodup_keys
    exact hkeys.sublist ((List.take_sublist _ _).map _)
  · unfold surplus
    rw [List.length_map, List.length_take, hperm.length_eq, ExtTreeMap.length_toList]
    omega

/-- Trimmed, there are no more than there may be. -/
theorem size_trimTombs (order : Order) (r : Room) :
    (r.trimTombs order).tombs.size ≤ MaxTombstones := by
  unfold trimTombs
  split
  · next hfew => exact hfew
  · next hmany =>
    obtain ⟨hnodup, hlen⟩ := surplus_spec order r.tombs
    have hsize := Table.size_eraseAll hnodup fun id hid => mem_of_mem_surplus hid
    dsimp only
    omega

/-- A patch that changes nothing touches no tombstone. -/
theorem fold_tombs_of_empty (h : (r.fold req).out.empty) : (r.fold req).room.tombs = r.tombs := by
  have hnone := out_empty_iff.mp h
  refine ExtTreeMap.ext_getElem? fun id => ?_
  have hlaid : ¬ (r.laid req id).isSome := fun hlaid => hnone ⟨id, .inr hlaid⟩
  have hgone : ¬ r.Gone req id := fun hgone => hnone ⟨id, .inl hgone⟩
  rw [(folded r req).tombs, if_neg hlaid]
  exact if_neg hgone

/-! ## Reached rooms -/

/-- The count is the size of the records, and the tombstones are not too many. -/
structure Accounts (r : Room) : Prop where
  bytes : r.bytes = sizeOf r.records
  tombs : r.tombs.size ≤ MaxTombstones

theorem accounts_newRoom {projectID boardID : String} {doc : Option (List Char)} {rev : Int}
    (h : newRoom projectID boardID doc rev now = .ok r) : r.Accounts := by
  have hslack := loaded_slack h
  unfold slack at hslack
  refine ⟨by omega, ?_⟩
  have htombs : r.tombs = ∅ := by
    unfold newRoom at h
    split at h
    · cases h; rfl
    · cases h; rfl
    · split at h
      · cases h
      · cases h; rfl
  rw [htombs]
  exact Nat.zero_le _

/-- A patch that is taken in, or answered as one sent before. -/
theorem Accounts.apply {a : Applied} (h : r.Accounts)
    (happly : r.apply order req by' now = (r', .ok a)) : r'.Accounts := by
  by_cases hadmitted : r.Admitted req
  · have hslack := (folded r req).slack
    have hcount := h.bytes
    rw [apply_admitted hadmitted] at happly
    split at happly
    · cases happly
    · cases happly
      unfold settle
      dsimp only
      split
      · next hempty =>
        refine ⟨?_, (fold_tombs_of_empty hempty).symm ▸ h.tombs⟩
        unfold slack at hslack
        dsimp only
        omega
      · refine ⟨?_, size_trimTombs order _⟩
        rw [of_trimTombs Room.bytes fun _ _ => rfl, trimTombs_records]
        unfold slack at hslack
        dsimp only [changed]
        omega
  · have hsame : r = r' := by
      have hfst := congrArg Prod.fst happly
      rwa [apply_not_admitted hadmitted] at hfst
    exact hsame ▸ h

theorem Accounts.replace {doc : List Char} {rev : Int} (h : r.replace doc by' now = (r', .ok rev)) :
    r'.Accounts := by
  unfold Room.replace at h
  split at h
  · cases h
  · cases h
    exact ⟨rfl, Nat.zero_le _⟩

/-- The rooms that loads, patches that are not refused and replacements lead to. -/
inductive Reached : Room → Prop
  | load {projectID boardID : String} {doc : Option (List Char)} {rev : Int} {now : Time}
      {r : Room} : newRoom projectID boardID doc rev now = .ok r → Reached r
  | patch {order : Order} {req : DocPatchRequest} {by' : UserRef} {now : Time} {a : Applied}
      {r r' : Room} : Reached r → r.apply order req by' now = (r', .ok a) → Reached r'
  | replace {doc : List Char} {by' : UserRef} {now : Time} {rev : Int} {r r' : Room} :
      Reached r → r.replace doc by' now = (r', .ok rev) → Reached r'

/-- **The accounts are right** in every room reached. -/
theorem reached_accounts {r : Room} (h : Reached r) :
    r.bytes = (r.records.toList.map fun record => recordSize record.1 record.2).sum ∧
      r.tombs.size ≤ MaxTombstones := by
  have haccounts : r.Accounts := by
    induction h with
    | load hload => exact accounts_newRoom hload
    | patch _ happly ih => exact ih.apply happly
    | replace _ hreplace _ => exact Accounts.replace hreplace
  exact ⟨haccounts.bytes, haccounts.tombs⟩

/-- A shape is drawn, and removed. -/
theorem reached_accounts_removeX :
    ((empty.offered drawX).offered removeX).tombs.size ≤ MaxTombstones := by
  have hload : Reached empty :=
    .load (show newRoom "p" "w1" none 0 0 = .ok empty from rfl)
  have hdraw : Reached (empty.offered drawX) :=
    hload.patch (a := { rev := 1, patch := { put := (∅ : Records).insert "shape:x" blank } })
      (Prod.ext rfl (by decide +kernel))
  exact (reached_accounts (hdraw.patch (a := { rev := 2, patch := { remove := ["shape:x"] } })
    (Prod.ext rfl (by decide +kernel)))).2

end Room

end FusionLocalServer.Whiteboards
