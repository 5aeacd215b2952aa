import Mathlib.Data.List.Perm.Basic

/-!
# Threads that take turns

A list of threads, each somewhere in its work, of which a step moves one: what the list was and
what it has become differ in one place (`exists_split`). What the threads hold, one thing or none
each, is what they held before, less what the one has let go (`filterMap_set_perm`).
-/

namespace Lib

universe u v

variable {α : Type u} {β : Type v} {threads : List α} {i : Nat} {x y : α}

theorem exists_split (h : threads[i]? = some x) :
    ∃ before after, threads = before ++ x :: after ∧
      ∀ y, threads.set i y = before ++ y :: after := by
  obtain ⟨hi, rfl⟩ := List.getElem?_eq_some_iff.mp h
  refine ⟨threads.take i, threads.drop (i + 1), ?_, fun y => ?_⟩
  · rw [List.getElem_cons_drop, List.take_append_drop]
  · rw [List.set_eq_take_append_cons_drop, if_pos hi]

section Holding

variable {f : α → Option β}

/-- A thread that goes on with what it holds. -/
theorem filterMap_set_of_eq (h : threads[i]? = some x) (hf : f y = f x) :
    (threads.set i y).filterMap f = threads.filterMap f := by
  obtain ⟨before, after, rfl, hset⟩ := exists_split h
  rw [hset, List.filterMap_append, List.filterMap_append, List.filterMap_cons, List.filterMap_cons, hf]

/-- A thread that lets go of what it holds. -/
theorem filterMap_set_perm {b : β} (h : threads[i]? = some x) (hx : f x = some b) (hy : f y = none) :
    (threads.filterMap f).Perm (b :: (threads.set i y).filterMap f) := by
  obtain ⟨before, after, rfl, hset⟩ := exists_split h
  rw [hset, List.filterMap_append, List.filterMap_append, List.filterMap_cons_some hx,
    List.filterMap_cons_none hy]
  exact List.perm_middle

theorem filterMap_set_sublist (hy : f y = none) :
    ((threads.set i y).filterMap f).Sublist (threads.filterMap f) := by
  cases h : threads[i]? with
  | none => rw [List.set_eq_of_length_le (List.getElem?_eq_none_iff.mp h)]
  | some x =>
    obtain ⟨before, after, rfl, hset⟩ := exists_split h
    rw [hset, List.filterMap_append, List.filterMap_append, List.filterMap_cons_none hy]
    refine (List.Sublist.refl _).append (List.Sublist.filterMap f ?_)
    exact List.sublist_cons_self x after

end Holding

end Lib
