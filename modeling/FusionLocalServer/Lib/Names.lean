import Mathlib.Data.List.Flatten
import Mathlib.Data.List.Forall2
import Mathlib.Data.List.Nodup
import Mathlib.Data.List.Perm.Subperm

/-!
# Issuing names

Things have names in a list, and a step takes some away and adds new ones. A step issues well
(`Issues`) when each name it adds has never been used and is added once; then names that were
apart stay apart. What a step leaves of the names is bounded by what was there and what it adds,
as multisets; names are put together from those of parts, and a change to one part of them is a
change to the whole.
-/

namespace Lib

universe u v

variable {α : Type u} {β : Type v}

section Issues

variable [DecidableEq α]

/-- Of the names after a step, each was there before as often, or was never used and is there
once. -/
def Issues (before used after : List α) : Prop :=
  ∀ a, after.count a ≤ before.count a ∨ (a ∉ used ∧ after.count a ≤ 1)

variable {before used after : List α}

theorem Issues.of_subperm (h : after.Subperm before) : Issues before used after :=
  fun a => .inl (h.count_le a)

theorem Issues.of_subperm_one {new : α} (h : after.Subperm (before ++ [new])) (hnew : new ∉ used)
    (hused : before ⊆ used) : Issues before used after := by
  intro a
  have hcount := h.count_le a
  rw [List.count_append] at hcount
  by_cases ha : new = a
  · subst ha
    have hnone : before.count new = 0 := List.count_eq_zero.mpr fun hmem => hnew (hused hmem)
    rw [hnone, List.count_singleton_self] at hcount
    exact .inr ⟨hnew, hcount⟩
  · rw [List.count_eq_zero.mpr (fun hmem => ha (List.mem_singleton.mp hmem).symm)] at hcount
    exact .inl hcount

/-- Names that were apart stay apart. -/
theorem Issues.nodup (h : Issues before used after) (hbefore : before.Nodup) : after.Nodup := by
  refine List.nodup_iff_count_le_one.mpr fun a => ?_
  rcases h a with hle | ⟨-, hle⟩
  · exact Nat.le_trans hle (List.nodup_iff_count_le_one.mp hbefore a)
  · exact hle

end Issues

/-! ## Names of parts -/

variable {g : α → List β} {f : α → α} {new : List β} {xs : List α} {x : α} {i : Nat}

/-- A change of one part adds to the whole what it adds to the part. -/
theorem flatMap_modify_subperm (hget : xs[i]? = some x) (h : (g (f x)).Subperm (g x ++ new)) :
    ((xs.modify i f).flatMap g).Subperm (xs.flatMap g ++ new) := by
  induction xs generalizing i with
  | nil => cases hget
  | cons y ys ih =>
    cases i with
    | zero =>
      cases hget
      rw [List.modify_zero_cons, List.flatMap_cons, List.flatMap_cons]
      have hmove : (g x ++ new ++ ys.flatMap g).Perm (g x ++ ys.flatMap g ++ new) := by
        rw [List.append_assoc, List.append_assoc]
        exact (List.perm_append_comm).append_left _
      exact (h.append (List.Subperm.refl _)).trans hmove.subperm
    | succ i =>
      rw [List.modify_succ_cons, List.flatMap_cons, List.flatMap_cons, List.append_assoc]
      exact (List.Subperm.refl _).append (ih hget)

/-- A change of a part that leaves its names. -/
theorem flatMap_modify (h : ∀ x, g (f x) = g x) : (xs.modify i f).flatMap g = xs.flatMap g := by
  induction xs generalizing i with
  | nil => rw [List.modify_nil]
  | cons y ys ih =>
    cases i with
    | zero => rw [List.modify_zero_cons, List.flatMap_cons, List.flatMap_cons, h]
    | succ i => rw [List.modify_succ_cons, List.flatMap_cons, List.flatMap_cons, ih]

/-- A change that adds nothing to any part, wherever it is made. -/
theorem flatMap_modify_subperm_self (h : ∀ x, (g (f x)).Subperm (g x)) :
    ((xs.modify i f).flatMap g).Subperm (xs.flatMap g) := by
  cases hget : xs[i]? with
  | none =>
    rw [List.modify_eq_self (List.getElem?_eq_none_iff.mp hget)]
  | some x =>
    have hsub := flatMap_modify_subperm hget ((List.append_nil (g x)).symm ▸ h x)
    rwa [List.append_nil] at hsub

theorem flatMap_eraseIdx_subperm : ((xs.eraseIdx i).flatMap g).Subperm (xs.flatMap g) :=
  ((List.eraseIdx_sublist ..).flatMap g).subperm

/-! ## Things beside their histories -/

section Beside

open List (Forall₂)

variable {R S : α → β → Prop} {as : List α} {bs : List β}

theorem forall₂_set (h : Forall₂ R as bs) (i : Nat) {b : β}
    (hnew : ∀ a, as[i]? = some a → R a b) : Forall₂ R as (bs.set i b) := by
  induction h generalizing i with
  | nil => exact .nil
  | cons hab hrest ih =>
    cases i with
    | zero => exact .cons (hnew _ rfl) hrest
    | succ i => exact .cons hab (ih i fun a ha => hnew a ha)

theorem forall₂_eraseIdx (h : Forall₂ R as bs) (i : Nat) :
    Forall₂ R (as.eraseIdx i) (bs.eraseIdx i) := by
  induction h generalizing i with
  | nil => exact .nil
  | cons hab hrest ih =>
    cases i with
    | zero => exact hrest
    | succ i => exact .cons hab (ih i)

theorem forall₂_getElem? (h : Forall₂ R as bs) {i : Nat} {b : β} (hb : bs[i]? = some b) :
    ∃ a, as[i]? = some a ∧ R a b := by
  induction h generalizing i with
  | nil => cases hb
  | cons hab hrest ih =>
    cases i with
    | zero =>
      cases hb
      exact ⟨_, rfl, hab⟩
    | succ i => exact ih hb

theorem forall₂_zipWith {f : α → β → α} (h : Forall₂ R as bs)
    (hf : ∀ a b, R a b → S (f a b) b) : Forall₂ S (List.zipWith f as bs) bs := by
  induction h with
  | nil => exact .nil
  | cons hab _ ih => exact .cons (hf _ _ hab) ih

end Beside

end Lib
