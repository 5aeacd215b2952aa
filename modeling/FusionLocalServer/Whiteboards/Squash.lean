import FusionLocalServer.Whiteboards.Client

/-!
# Squashing the queue of a client (`sync/protocol.ts`)

Before it sends, a client folds the patches it has queued into one. The loops over the
entries of a patch, in whatever order an object gives its keys, come to one `squashStep`
(`squash_entries`). That step means what the patch means over what is folded so far
(`applyTo_squashStep`), and it leaves a patch that names no record twice
(`Settled.squashStep`). So the one patch means what the queue means, also when it is squashed
once more with later ones (`squash_means_queue`).
-/

namespace FusionLocalServer.Whiteboards

open Lib Std
open Lib.Json (RawMessage)

theorem get_eq_none {m : Records} {id : String} : m[id]? = none ↔ id ∉ m := by
  rw [ExtTreeMap.mem_iff_isSome_getElem?, Option.not_isSome_iff_eq_none]

/-! ## One entry at a time -/

/-- A record put takes the place of what was put before, and is not removed any more. -/
def squashPut (out : WirePatch) (entry : String × RawMessage) : WirePatch :=
  { put := out.put.insert entry.1 entry.2
    remove := out.remove.filter fun id => id ≠ entry.1 }

/-- A record removed is not put any more. -/
def squashRemove (out : WirePatch) (id : String) : WirePatch :=
  { put := out.put.erase id, remove := addTo out.remove id }

theorem put_foldl_squashPut (entries : List (String × RawMessage)) :
    ∀ out : WirePatch, (entries.foldl squashPut out).put = out.put.insertMany entries := by
  induction entries with
  | nil => intro out; exact ExtTreeMap.insertMany_nil.symm
  | cons entry entries ih =>
    intro out
    rw [List.foldl_cons, ih, ExtTreeMap.insertMany_cons]
    rfl

theorem remove_foldl_squashPut (entries : List (String × RawMessage)) :
    ∀ out : WirePatch, (entries.foldl squashPut out).remove =
      out.remove.filter fun id => id ∉ entries.map Prod.fst := by
  induction entries with
  | nil => intro out; simp
  | cons entry entries ih =>
    intro out
    rw [List.foldl_cons, ih]
    simp only [squashPut, List.filter_filter, List.map_cons, List.mem_cons, not_or]
    exact List.filter_congr fun id _ => by simp [Bool.and_comm]

theorem foldl_squashRemove (ids : List String) :
    ∀ out : WirePatch, ids.foldl squashRemove out =
      { put := Table.eraseAll out.put ids, remove := ids.foldl addTo out.remove } := by
  induction ids with
  | nil => exact fun _ => rfl
  | cons id ids ih => exact fun out => ih (squashRemove out id)

/-- The entries of a map, in any order, are the map. -/
theorem insertMany_entries {entries : List (String × RawMessage)} {put : Records}
    (h : entries.Perm put.toList) (m : Records) : m.insertMany entries = m ∪ put := by
  refine ExtTreeMap.ext_getElem? fun id => ?_
  rw [ExtTreeMap.getElem?_union]
  have hkeys : entries.Pairwise fun a b => ¬ compare a.1 b.1 = .eq :=
    h.symm.pairwise put.distinct_keys_toList fun hab hba => hab (OrientedCmp.eq_symm hba)
  cases hput : put[id]? with
  | some rec =>
    have hmem : (id, rec) ∈ entries :=
      h.mem_iff.mpr (ExtTreeMap.mem_toList_iff_getElem?_eq_some.mpr hput)
    rw [ExtTreeMap.getElem?_insertMany_list_of_mem Std.compare_self hkeys hmem]
    rfl
  | none =>
    have hkey : (entries.map Prod.fst).contains id = false := by
      rw [List.contains_eq_mem, decide_eq_false_iff_not, (h.map Prod.fst).mem_iff,
        ExtTreeMap.map_fst_toList_eq_keys, ExtTreeMap.mem_keys]
      exact get_eq_none.mp hput
    rw [ExtTreeMap.getElem?_insertMany_list_of_contains_eq_false hkey, Option.none_or]

/-- **The loops of the source over one patch** are `squashStep`. -/
theorem squash_entries {entries : List (String × RawMessage)} {p : WirePatch}
    (h : entries.Perm p.put.toList) (out : WirePatch) :
    p.remove.foldl squashRemove (entries.foldl squashPut out) = squashStep out p := by
  rw [foldl_squashRemove, put_foldl_squashPut, insertMany_entries h, remove_foldl_squashPut]
  unfold squashStep
  congr 2
  refine List.filter_congr fun id _ => decide_eq_decide.mpr (not_congr ?_)
  rw [(h.map Prod.fst).mem_iff, ExtTreeMap.map_fst_toList_eq_keys, ExtTreeMap.mem_keys]

/-! ## One patch at a time -/

theorem mem_foldl_addTo (ids : List String) (id : String) :
    ∀ seen : List String, id ∈ ids.foldl addTo seen ↔ id ∈ ids ∨ id ∈ seen := by
  induction ids with
  | nil => intro seen; simp
  | cons a ids ih =>
    intro seen
    rw [List.foldl_cons, ih]
    unfold addTo
    split
    · next ha =>
      rw [List.mem_cons]
      constructor
      · exact fun h => h.imp_left .inr
      · rintro ((rfl | h) | h)
        · exact .inr ha
        · exact .inl h
        · exact .inr h
    · rw [List.mem_append, List.mem_singleton, List.mem_cons]
      tauto

theorem nodup_foldl_addTo (ids : List String) :
    ∀ {seen : List String}, seen.Nodup → (ids.foldl addTo seen).Nodup := by
  induction ids with
  | nil => exact fun h => h
  | cons a ids ih =>
    intro seen h
    refine ih ?_
    unfold addTo
    split
    · exact h
    · next ha => exact List.nodup_append.mpr ⟨h, List.pairwise_singleton _ a, by
        rintro b hb c hc rfl
        exact ha (List.mem_singleton.mp hc ▸ hb)⟩

/-- Nothing is there twice when a list without repetitions is added to another list. -/
theorem foldl_addTo_eq {ids : List String} (h : ids.Nodup) :
    ∀ {seen : List String}, (∀ id ∈ ids, id ∉ seen) → ids.foldl addTo seen = seen ++ ids := by
  induction ids with
  | nil => intro seen _; simp
  | cons a ids ih =>
    intro seen hseen
    obtain ⟨ha, hids⟩ := List.nodup_cons.mp h
    rw [List.foldl_cons, show addTo seen a = seen ++ [a] from if_neg (hseen a List.mem_cons_self)]
    rw [ih hids, List.append_assoc, List.singleton_append]
    intro id hid hmem
    rcases List.mem_append.mp hmem with hmem | hmem
    · exact hseen id (List.mem_cons_of_mem _ hid) hmem
    · exact ha (List.mem_singleton.mp hmem ▸ hid)

theorem mem_remove_squashStep (out p : WirePatch) (id : String) :
    id ∈ (squashStep out p).remove ↔ id ∈ p.remove ∨ (id ∈ out.remove ∧ p.put[id]? = none) := by
  unfold squashStep
  rw [mem_foldl_addTo, List.mem_filter, decide_eq_true_eq, get_eq_none]

theorem get_put_squashStep (out p : WirePatch) (id : String) :
    (squashStep out p).put[id]? = if id ∈ p.remove then none else p.put[id]?.or out.put[id]? := by
  unfold squashStep
  rw [Table.get_eraseAll, ExtTreeMap.getElem?_union]

/-- A patch that names no record twice. The records put have one value each as it is. -/
structure Settled (p : WirePatch) : Prop where
  remove : p.remove.Nodup
  disjoint : ∀ id ∈ p.remove, p.put[id]? = none

theorem Settled.empty : Settled {} := ⟨List.nodup_nil, fun _ h => absurd h List.not_mem_nil⟩

theorem Settled.squashStep {out : WirePatch} (h : Settled out) (p : WirePatch) :
    Settled (squashStep out p) where
  remove := nodup_foldl_addTo _ (h.remove.filter _)
  disjoint id hid := by
    rw [get_put_squashStep]
    rcases (mem_remove_squashStep out p id).mp hid with hid | ⟨hid, hput⟩
    · exact if_pos hid
    · rw [hput, h.disjoint id hid, Option.or_none, ite_self]

/-- A patch folded over others means what it means after them. Per record: it is removed
last, put last, or left to the patches before. -/
theorem applyTo_squashStep (out p : WirePatch) (m : Records) :
    (squashStep out p).applyTo m = p.applyTo (out.applyTo m) := by
  refine ExtTreeMap.ext_getElem? fun id => ?_
  simp only [DocPatch.get_applyTo, mem_remove_squashStep, get_put_squashStep]
  by_cases hremove : id ∈ p.remove
  · rw [if_pos (.inl hremove), if_pos hremove]
  · rw [if_neg hremove, if_neg hremove]
    cases hput : p.put[id]? with
    | some rec => simp [hremove]
    | none => by_cases hout : id ∈ out.remove <;> simp [hremove, hout]

/-- A patch that names no record twice comes through the loop as it is. -/
theorem squashStep_empty {p : WirePatch} (h : Settled p) : squashStep {} p = p := by
  have hput : Table.eraseAll ((∅ : Records) ∪ p.put) p.remove = p.put := by
    refine ExtTreeMap.ext_getElem? fun id => ?_
    rw [Table.get_eraseAll, ExtTreeMap.getElem?_union, ExtTreeMap.getElem?_empty, Option.or_none]
    split
    · next hid => exact (h.disjoint id hid).symm
    · rfl
  have hremove : p.remove.foldl addTo [] = p.remove :=
    (foldl_addTo_eq h.remove fun _ _ => List.not_mem_nil).trans (List.nil_append _)
  unfold squashStep
  rw [show ({} : WirePatch).put = ∅ from rfl, hput, show ({} : WirePatch).remove = [] from rfl,
    List.filter_nil, hremove]

/-! ## The whole queue -/

theorem settled_foldl (patches : List WirePatch) :
    ∀ {out : WirePatch}, Settled out → Settled (patches.foldl squashStep out) := by
  induction patches with
  | nil => exact fun h => h
  | cons p patches ih => exact fun h => ih (h.squashStep p)

theorem applyTo_foldl (patches : List WirePatch) (m : Records) :
    ∀ out : WirePatch, (patches.foldl squashStep out).applyTo m =
      patches.foldl (fun m p => p.applyTo m) (out.applyTo m) := by
  induction patches with
  | nil => exact fun _ => rfl
  | cons p patches ih =>
    intro out
    rw [List.foldl_cons, ih, applyTo_squashStep]
    rfl

theorem settled_squash (patches : List WirePatch) : Settled (squash patches) :=
  settled_foldl patches Settled.empty

theorem applyTo_empty (m : Records) : ({} : WirePatch).applyTo m = m := by
  refine ExtTreeMap.ext_getElem? fun id => ?_
  rw [DocPatch.get_applyTo, show ({} : WirePatch).put = ∅ from rfl, ExtTreeMap.getElem?_empty]
  rfl

/-- **The squashed patch means what the queue means.** Each record it names it names once,
and it can be squashed with later patches as if it were the queue it came from. -/
theorem squash_means_queue (patches later : List WirePatch) (records : Records) :
    (squash patches).applyTo records = patches.foldl (fun m p => p.applyTo m) records ∧
      (squash patches).put.keys.Nodup ∧ (squash patches).remove.Nodup ∧
      (∀ id ∈ (squash patches).put.keys, id ∉ (squash patches).remove) ∧
      squash (squash patches :: later) = squash (patches ++ later) := by
  have hsettled := settled_squash patches
  refine ⟨?_, ExtTreeMap.nodup_keys, hsettled.remove, ?_, ?_⟩
  · rw [squash, applyTo_foldl, applyTo_empty]
  · intro id hput hremove
    have hnone := hsettled.disjoint id hremove
    exact get_eq_none.mp hnone (ExtTreeMap.mem_keys.mp hput)
  · rw [squash, List.foldl_cons, squashStep_empty hsettled, squash, squash, List.foldl_append]

end FusionLocalServer.Whiteboards
