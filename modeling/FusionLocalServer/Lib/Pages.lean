import Mathlib.Data.List.DropRight
import Mathlib.Order.Defs.LinearOrder
import Mathlib.Order.Lattice

/-!
# Pages of an ordered list, from its end

A list in strictly ascending order of a key is read from its end: a page is the last so many
elements below a cursor, and the cursor goes to the first element of the page. What was read is
the part of the list from the cursor on (`range_page`, `range_split`), nothing is missing when a
page is empty (`range_of_page_nil`), and it does not matter that the list goes on growing at its
end (`range_append`).
-/

namespace Lib.Pages

universe u v

variable {α : Type u} {κ : Type v} [LinearOrder κ] {key : α → κ} {xs ys : List α} {n : Nat}
  {low mid high cursor : κ}

/-- The elements from `low` to below `high`. -/
def range (key : α → κ) (low high : κ) (xs : List α) : List α :=
  xs.filter fun x => decide (low ≤ key x) && decide (key x < high)

/-- The last `n` elements below the cursor. -/
def page (key : α → κ) (n : Nat) (cursor : κ) (xs : List α) : List α :=
  (xs.filter fun x => decide (key x < cursor)).rtake n

theorem mem_range {x : α} : x ∈ range key low high xs ↔ x ∈ xs ∧ low ≤ key x ∧ key x < high := by
  simp [range]

theorem page_map {β : Type u} {key' : β → κ} {f : α → β} (hf : ∀ x, key' (f x) = key x) :
    (page key n cursor xs).map f = page key' n cursor (xs.map f) := by
  have hfilter : (xs.map f).filter (fun y => decide (key' y < cursor)) =
      (xs.filter fun x => decide (key x < cursor)).map f := by
    rw [List.filter_map]
    exact congrArg _ (List.filter_congr fun x _ => by rw [Function.comp_apply, hf])
  unfold page List.rtake
  rw [hfilter, List.map_drop, List.length_map]

/-- A page is what there is from its first element to below the cursor. -/
theorem range_page (hxs : xs.Pairwise fun a b => key a < key b) {x : α} {rest : List α}
    (h : page key n cursor xs = x :: rest) : range key (key x) cursor xs = x :: rest := by
  have holder : range key (key x) cursor xs =
      (xs.filter fun x => decide (key x < cursor)).filter fun y => decide (key x ≤ key y) := by
    rw [List.filter_filter]
    rfl
  obtain ⟨before, hbefore⟩ : ∃ before, xs.filter (fun x => decide (key x < cursor)) =
      before ++ x :: rest := by
    rw [← h]
    exact ⟨_, (List.take_append_drop (List.length _ - n) _).symm⟩
  have hsorted := hxs.filter fun x => decide (key x < cursor)
  rw [hbefore] at hsorted
  obtain ⟨-, hpage, hacross⟩ := List.pairwise_append.mp hsorted
  rw [holder, hbefore, List.filter_append]
  have hnone : before.filter (fun y => decide (key x ≤ key y)) = [] := by
    refine List.filter_eq_nil_iff.mpr fun y hy => ?_
    simpa using hacross y hy x List.mem_cons_self
  have hall : (x :: rest).filter (fun y => decide (key x ≤ key y)) = x :: rest := by
    refine List.filter_eq_self.mpr fun y hy => ?_
    rcases List.mem_cons.mp hy with rfl | hy
    · simp
    · simpa using le_of_lt ((List.pairwise_cons.mp hpage).1 y hy)
  rw [hnone, hall, List.nil_append]

/-- Two ranges that meet. -/
theorem range_split (hxs : xs.Pairwise fun a b => key a < key b) (hlow : low ≤ mid)
    (hhigh : mid ≤ high) : range key low high xs = range key low mid xs ++ range key mid high xs := by
  induction xs with
  | nil => rfl
  | cons x xs ih =>
    obtain ⟨hx, hrest⟩ := List.pairwise_cons.mp hxs
    have hsplit := ih hrest
    unfold range at hsplit ⊢
    by_cases hlt : key x < mid
    · -- it is in the first range if in any
      have hnot : ¬ mid ≤ key x := not_le.mpr hlt
      have hbelow : key x < high := lt_of_lt_of_le hlt hhigh
      by_cases hle : low ≤ key x <;> simp [hle, hlt, hnot, hbelow, hsplit]
    · have hle : low ≤ key x := le_trans hlow (not_lt.mp hlt)
      have hempty : xs.filter (fun y => decide (low ≤ key y) && decide (key y < mid)) = [] := by
        refine List.filter_eq_nil_iff.mpr fun y hy => ?_
        have hy := lt_of_le_of_lt (not_lt.mp hlt) (hx y hy)
        simp [not_lt.mpr (le_of_lt hy)]
      rw [hempty, List.nil_append] at hsplit
      simp only [List.filter_cons, hempty, hsplit, hlt, hle, not_lt.mp hlt, decide_true, decide_false,
        Bool.true_and, Bool.false_eq_true, ↓reduceIte, List.nil_append]

theorem range_of_page_nil (hn : 0 < n) (h : page key n cursor xs = []) :
    range key low cursor xs = [] := by
  refine List.filter_eq_nil_iff.mpr fun x hx hin => ?_
  obtain ⟨-, hlt⟩ := Bool.and_eq_true_iff.mp hin
  have hmem : x ∈ xs.filter fun x => decide (key x < cursor) := List.mem_filter.mpr ⟨hx, hlt⟩
  have hlen : ((xs.filter fun x => decide (key x < cursor)).rtake n).length = 0 := by
    rw [show (xs.filter fun x => decide (key x < cursor)).rtake n = [] from h]
    rfl
  rw [List.rtake_eq_reverse_take_reverse, List.length_reverse, List.length_take,
    List.length_reverse] at hlen
  have hpos := List.length_pos_of_mem hmem
  omega

/-- What comes at the end of the list is in no earlier range. -/
theorem range_append (h : ∀ y ∈ ys, high ≤ key y) :
    range key low high (xs ++ ys) = range key low high xs := by
  have hnone : ys.filter (fun x => decide (low ≤ key x) && decide (key x < high)) = [] := by
    refine List.filter_eq_nil_iff.mpr fun y hy => ?_
    simp [not_lt.mpr (h y hy)]
  rw [range, List.filter_append, hnone, List.append_nil]
  rfl

end Lib.Pages
