import Mathlib.Algebra.BigOperators.Group.List.Basic
import Mathlib.Algebra.Order.Ring.Int
import Std.Data.ExtTreeMap

/-!
# Finite maps with totals

A map with ordered keys is `Std.ExtTreeMap`: two maps are equal when they hold the same
under every key. Here is what a running total over such a map needs, the sum of a weight
over its entries, and how the sum moves when one key is written or erased; and the map
that is left when the keys of a list are erased.
-/

namespace Lib.Table

open Std

variable {α β : Type} [DecidableEq α] [Ord α] [TransOrd α] [LawfulEqOrd α]

/-- The sum of a weight over the entries of a map. -/
def total (weight : α → β → Int) (m : ExtTreeMap α β) : Int :=
  (m.toList.map fun entry => weight entry.1 entry.2).sum

omit [DecidableEq α] in
theorem nodup_toList (m : ExtTreeMap α β) : m.toList.Nodup := by
  refine List.Pairwise.imp ?_ m.distinct_keys_toList
  rintro a b h rfl
  exact h Std.compare_self

theorem get_insert (m : ExtTreeMap α β) (k a : α) (v : β) :
    (m.insert k v)[a]? = if k = a then some v else m[a]? := by
  rw [ExtTreeMap.getElem?_insert]
  simp only [Std.compare_eq_iff_eq]

theorem get_erase (m : ExtTreeMap α β) (k a : α) :
    (m.erase k)[a]? = if k = a then none else m[a]? := by
  rw [ExtTreeMap.getElem?_erase]
  simp only [Std.compare_eq_iff_eq]

/-- The entries after a key is written are the new one and those under the other keys. -/
theorem toList_insert_perm (m : ExtTreeMap α β) (k : α) (v : β) :
    (m.insert k v).toList.Perm ((k, v) :: (m.erase k).toList) := by
  have hfresh : (k, v) ∉ (m.erase k).toList := by
    rw [ExtTreeMap.mem_toList_iff_getElem?_eq_some, get_erase, if_pos rfl]
    exact fun h => (nomatch h)
  refine (List.perm_ext_iff_of_nodup (nodup_toList _)
    (List.nodup_cons.mpr ⟨hfresh, nodup_toList _⟩)).mpr ?_
  rintro ⟨a, b⟩
  rw [List.mem_cons, ExtTreeMap.mem_toList_iff_getElem?_eq_some,
    ExtTreeMap.mem_toList_iff_getElem?_eq_some, get_insert, get_erase]
  by_cases hka : k = a
  · subst hka
    simp [eq_comm]
  · simp [hka, Ne.symm hka]

theorem insert_self {m : ExtTreeMap α β} {k : α} {v : β} (h : m[k]? = some v) :
    m.insert k v = m := by
  refine ExtTreeMap.ext_getElem? fun a => ?_
  rw [get_insert]
  split
  · next hka => rw [← hka, h]
  · rfl

theorem erase_self {m : ExtTreeMap α β} {k : α} (h : m[k]? = none) : m.erase k = m := by
  refine ExtTreeMap.ext_getElem? fun a => ?_
  rw [get_erase]
  split
  · next hka => rw [← hka, h]
  · rfl

omit [DecidableEq α] in
/-- What a map holds under its keys, in whatever order these are listed. -/
theorem filterMap_get_perm {m : ExtTreeMap α β} {ks : List α} (hnodup : ks.Nodup)
    (hmem : ∀ k, k ∈ ks ↔ (m[k]?).isSome) :
    (ks.filterMap (m[·]?)).Perm (m.toList.map (·.2)) := by
  have hkeys : (m.toList.map (·.1)).Nodup := by
    refine List.pairwise_map.mpr (m.distinct_keys_toList.imp ?_)
    rintro a b h heq
    exact h (by rw [heq, Std.compare_self])
  have hperm : ks.Perm (m.toList.map (·.1)) := by
    refine (List.perm_ext_iff_of_nodup hnodup hkeys).mpr fun k => ?_
    rw [hmem, Option.isSome_iff_exists, List.mem_map]
    constructor
    · rintro ⟨v, hv⟩
      exact ⟨(k, v), ExtTreeMap.mem_toList_iff_getElem?_eq_some.mpr hv, rfl⟩
    · rintro ⟨⟨k, v⟩, hv, rfl⟩
      exact ⟨v, ExtTreeMap.mem_toList_iff_getElem?_eq_some.mp hv⟩
  have hvalues : (m.toList.map (·.1)).filterMap (m[·]?) = m.toList.map (·.2) := by
    rw [List.filterMap_map, ← List.filterMap_eq_map]
    refine List.filterMap_congr fun entry hentry => ?_
    exact ExtTreeMap.mem_toList_iff_getElem?_eq_some.mp hentry
  rw [← hvalues]
  exact hperm.filterMap _

section Total

variable (weight : α → β → Int)

omit [DecidableEq α] [LawfulEqOrd α] in
@[simp] theorem total_empty : total weight (∅ : ExtTreeMap α β) = 0 := rfl

theorem total_insert (m : ExtTreeMap α β) (k : α) (v : β) :
    total weight (m.insert k v) = weight k v + total weight (m.erase k) := by
  have h := (toList_insert_perm m k v).map fun entry => weight entry.1 entry.2
  exact h.sum_eq.trans List.sum_cons

/-- Erasing a key takes the weight of what was there off the total. -/
theorem total_erase {m : ExtTreeMap α β} {k : α} {v : β} (h : m[k]? = some v) :
    total weight (m.erase k) = total weight m - weight k v := by
  have hins := total_insert weight m k v
  rw [insert_self h] at hins
  omega

end Total

/-! ## Erasing the keys of a list -/

/-- The map without the keys of a list. -/
def eraseAll (m : ExtTreeMap α β) (ks : List α) : ExtTreeMap α β := ks.foldl ExtTreeMap.erase m

theorem get_eraseAll (ks : List α) :
    ∀ (m : ExtTreeMap α β) (a : α), (eraseAll m ks)[a]? = if a ∈ ks then none else m[a]? := by
  induction ks with
  | nil => exact fun m a => rfl
  | cons k ks ih =>
    intro m a
    show (eraseAll (m.erase k) ks)[a]? = _
    rw [ih, get_erase]
    by_cases hka : k = a
    · subst hka
      simp
    · simp [hka, Ne.symm hka]

/-- Each key of the map that goes makes it smaller by one. -/
theorem size_eraseAll {ks : List α} (hnodup : ks.Nodup) :
    ∀ {m : ExtTreeMap α β}, (∀ k ∈ ks, k ∈ m) → (eraseAll m ks).size + ks.length = m.size := by
  induction ks with
  | nil => exact fun _ => rfl
  | cons k ks ih =>
    intro m hmem
    obtain ⟨hnew, hnodup⟩ := List.nodup_cons.mp hnodup
    have hk : k ∈ m := hmem k List.mem_cons_self
    have hrest : ∀ k' ∈ ks, k' ∈ m.erase k := by
      intro k' hk'
      have hne : k ≠ k' := fun h => hnew (h.symm ▸ hk')
      rw [ExtTreeMap.mem_iff_isSome_getElem?, get_erase, if_neg hne,
        ← ExtTreeMap.mem_iff_isSome_getElem?]
      exact hmem k' (List.mem_cons_of_mem _ hk')
    have hsize := ih hnodup hrest
    have herase : (m.erase k).size = m.size - 1 := by
      rw [ExtTreeMap.size_erase, if_pos (ExtTreeMap.contains_iff_mem.mpr hk)]
    have hpos : 0 < m.size := by
      rw [← ExtTreeMap.length_keys]
      exact List.length_pos_of_mem (ExtTreeMap.mem_keys.mpr hk)
    show (eraseAll (m.erase k) ks).size + (ks.length + 1) = m.size
    omega

end Lib.Table
