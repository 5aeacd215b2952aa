import Mathlib.Data.List.Induction

/-!
# Searching a list that is edited

What a search for the first element with a property comes to after an element is taken out,
replaced, changed in place or appended, and what a search from the end finds.
-/

namespace Lib

universe u v

variable {α : Type u} {β : Type v} {p : α → Bool} {xs : List α} {i : Nat} {x y : α}

theorem find?_eraseIdx (hget : xs[i]? = some x) (hx : p x = false) :
    (xs.eraseIdx i).find? p = xs.find? p := by
  induction xs generalizing i with
  | nil => cases hget
  | cons z xs ih =>
    cases i with
    | zero =>
      cases hget
      rw [List.eraseIdx_cons_zero, List.find?_cons_of_neg (by rw [hx]; exact Bool.false_ne_true)]
    | succ i =>
      rw [List.eraseIdx_cons_succ, List.find?_cons, List.find?_cons, ih hget]

theorem find?_set_other (hget : xs[i]? = some x) (hx : p x = false) (hy : p y = false) :
    (xs.set i y).find? p = xs.find? p := by
  induction xs generalizing i with
  | nil => cases hget
  | cons z xs ih =>
    cases i with
    | zero =>
      cases hget
      rw [List.set_cons_zero, List.find?_cons_of_neg (by rw [hy]; exact Bool.false_ne_true),
        List.find?_cons_of_neg (by rw [hx]; exact Bool.false_ne_true)]
    | succ i =>
      rw [List.set_cons_succ, List.find?_cons, List.find?_cons, ih hget]

theorem find?_set_first (hfirst : xs.findIdx? p = some i) (hy : p y = true) :
    (xs.set i y).find? p = some y := by
  induction xs generalizing i with
  | nil => cases hfirst
  | cons z xs ih =>
    rw [List.findIdx?_cons] at hfirst
    split at hfirst
    · cases hfirst
      rw [List.set_cons_zero, List.find?_cons_of_pos hy]
    · next hz =>
      obtain ⟨k, hk, rfl⟩ := Option.map_eq_some_iff.mp hfirst
      rw [List.set_cons_succ, List.find?_cons_of_neg hz, ih hk]

theorem find?_of_findIdx? (hfirst : xs.findIdx? p = some i) (hget : xs[i]? = some x) :
    xs.find? p = some x := by
  obtain ⟨hi, hx, hbefore⟩ := List.findIdx?_eq_some_iff_getElem.mp hfirst
  obtain ⟨hi', rfl⟩ := List.getElem?_eq_some_iff.mp hget
  have hset := find?_set_first hfirst hx
  rwa [List.set_getElem_self] at hset

/-- A change that the search does not see, nor what is read off what it finds. -/
theorem find?_modify {f : α → α} {g : α → β} (hp : ∀ x, p (f x) = p x) (hg : ∀ x, g (f x) = g x) :
    ((xs.modify i f).find? p).map g = (xs.find? p).map g := by
  induction xs generalizing i with
  | nil => rw [List.modify_nil]
  | cons z xs ih =>
    cases i with
    | zero =>
      rw [List.modify_zero_cons, List.find?_cons, List.find?_cons, hp]
      split
      · rw [Option.map_some, Option.map_some, hg]
      · rfl
    | succ i =>
      rw [List.modify_succ_cons, List.find?_cons, List.find?_cons]
      split
      · rfl
      · exact ih

theorem find?_append_of_some {ys : List α} (h : xs.find? p = some x) :
    (xs ++ ys).find? p = some x := by
  rw [List.find?_append, h]
  rfl

/-- Once the first is taken out, there is none where there was at most one. -/
theorem find?_eraseIdx_first (hfirst : xs.findIdx? p = some i)
    (honce : (xs.filter p).length ≤ 1) : (xs.eraseIdx i).find? p = none := by
  induction xs generalizing i with
  | nil => cases hfirst
  | cons z xs ih =>
    rw [List.findIdx?_cons] at hfirst
    split at hfirst
    · next hz =>
      cases hfirst
      rw [List.filter_cons_of_pos hz, List.length_cons] at honce
      have hnil : xs.filter p = [] := List.length_eq_zero_iff.mp (by omega)
      rw [List.eraseIdx_cons_zero, List.find?_eq_none]
      exact List.filter_eq_nil_iff.mp hnil
    · next hz =>
      obtain ⟨k, hk, rfl⟩ := Option.map_eq_some_iff.mp hfirst
      rw [List.filter_cons_of_neg hz] at honce
      rw [List.eraseIdx_cons_succ, List.find?_cons_of_neg hz]
      exact ih hk honce

/-- Where what is looked for stands at the end of the list, a search from there finds it all. -/
theorem takeWhile_reverse {q : α → Bool} (h : xs.Pairwise fun a b => q a = true → q b = true) :
    xs.reverse.takeWhile q = (xs.filter q).reverse := by
  induction xs using List.reverseRecOn with
  | nil => rfl
  | append_singleton xs x ih =>
    obtain ⟨hxs, -, hlast⟩ := List.pairwise_append.mp h
    rw [List.reverse_append, List.reverse_singleton, List.singleton_append, List.filter_append,
      List.reverse_append]
    cases hx : q x with
    | true =>
      rw [List.takeWhile_cons_of_pos hx, List.filter_cons_of_pos hx, ih hxs]
      rfl
    | false =>
      -- nothing is found in front of it either
      have hnone : xs.filter q = [] := List.filter_eq_nil_iff.mpr fun a ha hq => by
        rw [hlast a ha x List.mem_cons_self hq] at hx
        cases hx
      rw [List.takeWhile_cons_of_neg (by rw [hx]; exact Bool.false_ne_true), hnone,
        List.filter_cons_of_neg (by rw [hx]; exact Bool.false_ne_true)]
      rfl

/-! ## What stands where after a change -/

theorem getElem?_snoc {xs : List α} {x y : α} {i : Nat} :
    (xs ++ [x])[i]? = some y ↔ xs[i]? = some y ∨ (i = xs.length ∧ y = x) := by
  rcases Nat.lt_trichotomy i xs.length with hlt | heq | hgt
  · rw [List.getElem?_append_left hlt]
    exact (or_iff_left fun h => absurd h.1 (Nat.ne_of_lt hlt)).symm
  · subst heq
    simp [eq_comm]
  · rw [List.getElem?_eq_none (by simp; omega), List.getElem?_eq_none (Nat.le_of_lt hgt)]
    simp [Nat.ne_of_gt hgt]

theorem getElem?_set_cases {xs : List α} {x y : α} {n i : Nat} (h : (xs.set n x)[i]? = some y) :
    (i = n ∧ y = x) ∨ (i ≠ n ∧ xs[i]? = some y) := by
  by_cases hi : i = n
  · subst hi
    obtain ⟨hlt, hy⟩ := List.getElem?_eq_some_iff.mp h
    exact .inl ⟨rfl, by simpa using hy.symm⟩
  · rw [List.getElem?_set_ne (Ne.symm hi)] at h
    exact .inr ⟨hi, h⟩

theorem getElem?_modify_cases {xs : List α} {f : α → α} {y : α} {n i : Nat}
    (h : (xs.modify n f)[i]? = some y) :
    (∃ x, xs[i]? = some x ∧ i = n ∧ y = f x) ∨ (i ≠ n ∧ xs[i]? = some y) := by
  rw [List.getElem?_modify] at h
  obtain ⟨x, hx, rfl⟩ := Option.map_eq_some_iff.mp h
  by_cases hi : n = i
  · subst hi
    exact .inl ⟨x, hx, rfl, by simp⟩
  · exact .inr ⟨Ne.symm hi, by simpa [hi] using hx⟩

end Lib
