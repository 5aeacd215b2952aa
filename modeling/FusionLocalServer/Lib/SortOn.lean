import Mathlib.Data.List.Sort
import Mathlib.Order.Lattice

/-!
# Sorting by a key

A list in the order of a key, with elements of equal keys in the order they came in. What is sorted
does not depend on that order when equal keys are those of equal elements.

A `SliceSort` may put elements that are not told apart in any order.
-/

namespace Lib

variable {α β : Type} [LinearOrder β]

def sortOn (key : α → β) (l : List α) : List α := l.insertionSort fun a b => key a ≤ key b

variable {key : α → β} {l l' : List α}

theorem sortOn_perm (key : α → β) (l : List α) : (sortOn key l).Perm l := List.perm_insertionSort _ _

@[simp] theorem mem_sortOn {a : α} : a ∈ sortOn key l ↔ a ∈ l := (sortOn_perm key l).mem_iff

@[simp] theorem length_sortOn : (sortOn key l).length = l.length := (sortOn_perm key l).length_eq

theorem pairwise_sortOn (key : α → β) (l : List α) :
    (sortOn key l).Pairwise fun a b => key a ≤ key b := by
  have htotal : Std.Total fun a b : α => key a ≤ key b := ⟨fun a b => le_total (key a) (key b)⟩
  have htrans : IsTrans α fun a b : α => key a ≤ key b := ⟨fun a b c => le_trans⟩
  exact List.pairwise_insertionSort _ _

/-- Lists with the same elements are the same when sorted by what tells these apart. -/
theorem sortOn_eq_of_perm (h : l.Perm l')
    (hinj : ∀ a ∈ l, ∀ b ∈ l, key a = key b → a = b) : sortOn key l = sortOn key l' := by
  have hperm : (sortOn key l).Perm (sortOn key l') :=
    (sortOn_perm key l).trans (h.trans (sortOn_perm key l').symm)
  refine hperm.eq_of_pairwise (fun a b ha hb hab hba => ?_) (pairwise_sortOn key l)
    (pairwise_sortOn key l')
  exact hinj a (mem_sortOn.mp ha) b (h.mem_iff.mpr (mem_sortOn.mp hb)) (le_antisymm hab hba)

/-- A sort by a comparison (`sort.Slice`) that is not stable. -/
structure SliceSort where
  sort : {α : Type} → (α → α → Bool) → List α → List α
  perm : ∀ {α : Type} (less : α → α → Bool) (l : List α), (sort less l).Perm l
  sorted : ∀ {α β : Type} [LinearOrder β] (key : α → β) (l : List α),
    (sort (fun a b => key a < key b) l).Pairwise fun a b => key a ≤ key b

/-- The stable sort is one. -/
def SliceSort.stable : SliceSort where
  sort less l := l.insertionSort fun a b => !less b a
  perm _ _ := List.perm_insertionSort _ _
  sorted key l := by
    have h := pairwise_sortOn key l
    unfold sortOn at h
    simpa using h

end Lib
