import Mathlib.Data.List.Basic
import Mathlib.Order.Defs.LinearOrder
import Mathlib.Order.Lattice

/-!
# Keeping the first of each period

A history is a list of instants, the newest first. Each instant falls in a period, given by
`key`; `firsts` are those with no earlier one in their period, and `retain n` the newest `n`
of them.

Whoever keeps only `retain n` of a history can go on with it: a new instant is the first of
its period in the whole history just when no instant kept is of that period. What this takes
is that a period is a stretch of time: an instant between two of one period is of it too.
-/

namespace Lib

universe u v

variable {α : Type u} {β : Type v} [DecidableEq β] {key : α → β}

/-- The instants of a history with no earlier one in their period. -/
def firsts (key : α → β) : List α → List α
  | [] => []
  | t :: ts => if ts.any fun u => key u = key t then firsts key ts else t :: firsts key ts

/-- The newest `n` of the firsts. -/
def retain (n : Nat) (key : α → β) (ts : List α) : List α := (firsts key ts).take n

theorem firsts_sublist (ts : List α) : (firsts key ts).Sublist ts := by
  induction ts with
  | nil => exact List.Sublist.refl _
  | cons t ts ih =>
    unfold firsts
    split
    · exact ih.cons t
    · exact ih.cons_cons t

variable (key) in
theorem retain_sublist (n : Nat) (ts : List α) : (retain n key ts).Sublist ts :=
  (List.take_sublist n _).trans (firsts_sublist ts)

/-- No two firsts are of one period. -/
theorem firsts_pairwise (ts : List α) : (firsts key ts).Pairwise fun t u => key t ≠ key u := by
  induction ts with
  | nil => exact .nil
  | cons t ts ih =>
    unfold firsts
    split
    · exact ih
    · next hnone =>
      refine List.pairwise_cons.mpr ⟨fun u hu heq => hnone ?_, ih⟩
      exact List.any_eq_true.mpr ⟨u, (firsts_sublist ts).subset hu, decide_eq_true heq.symm⟩

/-- Every period with an instant has its first. -/
theorem exists_first (ts : List α) : ∀ t ∈ ts, ∃ u ∈ firsts key ts, key u = key t := by
  induction ts with
  | nil => exact fun t ht => (nomatch ht)
  | cons t ts ih =>
    intro u hu
    unfold firsts
    split
    · next hany =>
      rcases List.mem_cons.mp hu with rfl | hu
      · obtain ⟨v, hv, hkey⟩ := List.any_eq_true.mp hany
        obtain ⟨w, hw, hkey'⟩ := ih v hv
        exact ⟨w, hw, hkey'.trans (of_decide_eq_true hkey)⟩
      · exact ih u hu
    · rcases List.mem_cons.mp hu with rfl | hu
      · exact ⟨u, List.mem_cons_self, rfl⟩
      · obtain ⟨v, hv, hkey⟩ := ih u hu
        exact ⟨v, List.mem_cons_of_mem _ hv, hkey⟩

/-- When no period repeats, every instant is the first of its own. -/
theorem firsts_eq_self {ts : List α} (h : ts.Pairwise fun t u => key u ≠ key t) :
    firsts key ts = ts := by
  induction ts with
  | nil => rfl
  | cons t ts ih =>
    obtain ⟨ht, hts⟩ := List.pairwise_cons.mp h
    have hnone : ¬ (ts.any fun u => key u = key t) = true := by
      intro hany
      obtain ⟨u, hu, hkey⟩ := List.any_eq_true.mp hany
      exact ht u hu (of_decide_eq_true hkey)
    unfold firsts
    rw [if_neg hnone, ih hts]

section Order

variable [LinearOrder α]

/-- Instants of one period have no instant of another between them. -/
def Stretches (key : α → β) (ts : List α) : Prop :=
  ∀ a ∈ ts, ∀ b ∈ ts, ∀ c ∈ ts, a ≤ b → b ≤ c → key a = key c → key b = key c

omit [DecidableEq β] in
theorem Stretches.tail {t : α} {ts : List α} (h : Stretches key (t :: ts)) : Stretches key ts :=
  fun a ha b hb c hc => h a (List.mem_cons_of_mem _ ha) b (List.mem_cons_of_mem _ hb) c
    (List.mem_cons_of_mem _ hc)

omit [DecidableEq β] in
/-- An earlier instant of the newest one's period makes the newest before it one as well. -/
theorem Stretches.newest {t u v : α} {ts : List α} (h : Stretches key (t :: u :: ts))
    (hsorted : (t :: u :: ts).Pairwise (· > ·)) (hv : v ∈ u :: ts) (hkey : key v = key t) :
    key u = key t := by
  obtain ⟨hfirst, hrest⟩ := List.pairwise_cons.mp hsorted
  have hvu : v ≤ u := by
    rcases List.mem_cons.mp hv with rfl | hv
    · exact le_refl v
    · exact le_of_lt ((List.pairwise_cons.mp hrest).1 v hv)
  have hu : u ∈ t :: u :: ts := List.mem_cons_of_mem _ List.mem_cons_self
  exact h v (List.mem_cons_of_mem _ hv) u hu t List.mem_cons_self hvu
    (le_of_lt (hfirst u List.mem_cons_self)) hkey

/-- The newest first is of the newest instant's period. -/
theorem firsts_head {ts : List α} :
    ∀ {t : α}, Stretches key (t :: ts) → (t :: ts).Pairwise (· > ·) →
      ∃ v vs, firsts key (t :: ts) = v :: vs ∧ key v = key t := by
  induction ts with
  | nil => exact fun _ _ => ⟨_, _, rfl, rfl⟩
  | cons u ts ih =>
    intro t hper hsorted
    rw [firsts]
    split
    · next hany =>
      obtain ⟨v, hv, hkey⟩ := List.any_eq_true.mp hany
      obtain ⟨w, ws, heq, hw⟩ := ih hper.tail (List.pairwise_cons.mp hsorted).2
      exact ⟨w, ws, heq, hw.trans (hper.newest hsorted hv (of_decide_eq_true hkey))⟩
    · exact ⟨t, _, rfl, rfl⟩

/-- **Who keeps what is retained can go on with it.** -/
theorem retain_cons {n : Nat} (hn : 0 < n) {t : α} {ts : List α}
    (hper : Stretches key (t :: ts)) (hsorted : (t :: ts).Pairwise (· > ·)) :
    retain n key (t :: ts) =
      if (retain n key ts).any (fun u => key u = key t) then retain n key ts
      else (t :: retain n key ts).take n := by
  have hany : (ts.any fun u => decide (key u = key t)) =
      (retain n key ts).any fun u => decide (key u = key t) := by
    rw [Bool.eq_iff_iff]
    constructor
    · intro h
      obtain ⟨v, hv, hkey⟩ := List.any_eq_true.mp h
      cases ts with
      | nil => cases hv
      | cons u ts =>
        obtain ⟨w, ws, heq, hw⟩ := firsts_head hper.tail (List.pairwise_cons.mp hsorted).2
        have hu := hper.newest hsorted hv (of_decide_eq_true hkey)
        obtain ⟨n, rfl⟩ := Nat.exists_eq_succ_of_ne_zero (Nat.ne_of_gt hn)
        refine List.any_eq_true.mpr ⟨w, ?_, decide_eq_true (hw.trans hu)⟩
        rw [retain, heq, List.take_succ_cons]
        exact List.mem_cons_self
    · intro h
      obtain ⟨v, hv, hkey⟩ := List.any_eq_true.mp h
      exact List.any_eq_true.mpr ⟨v, (retain_sublist key n ts).subset hv, hkey⟩
  rw [← hany, retain, firsts]
  split
  · rfl
  · obtain ⟨n, rfl⟩ := Nat.exists_eq_succ_of_ne_zero (Nat.ne_of_gt hn)
    rw [retain, List.take_succ_cons, List.take_succ_cons, List.take_take,
      Nat.min_eq_left (Nat.le_succ n)]

end Order

end Lib
