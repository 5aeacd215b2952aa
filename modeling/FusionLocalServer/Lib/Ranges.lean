import Mathlib.Algebra.Order.Ring.Int
import Mathlib.Data.List.Range
import Mathlib.Tactic.Linarith
import Mathlib.Tactic.Ring

/-!
# Ranges that tile

A range is an offset and a length. Ranges tile an interval when each begins where the one before it
ends, and what a tiling cuts out of a list is, put together, the list (`Tiles.flatMap`).

`tiles_parts`: the parts of equal size, of which the last may be shorter, are a tiling as long as the
last but one part does not reach the end.
-/

namespace Lib

/-- The ranges lead from one place to another. -/
def Tiles : Int → Int → List (Int × Int) → Prop
  | lo, hi, [] => lo = hi
  | lo, hi, r :: rs => r.1 = lo ∧ 0 ≤ r.2 ∧ Tiles (lo + r.2) hi rs

theorem Tiles.le {lo hi : Int} {rs : List (Int × Int)} (h : Tiles lo hi rs) : lo ≤ hi := by
  induction rs generalizing lo with
  | nil => exact Int.le_of_eq h
  | cons r rs ih =>
    obtain ⟨-, hlen, hrest⟩ := h
    have := ih hrest
    omega

theorem Tiles.append {lo mid hi : Int} {rs ts : List (Int × Int)} (h : Tiles lo mid rs)
    (h' : Tiles mid hi ts) : Tiles lo hi (rs ++ ts) := by
  induction rs generalizing lo with
  | nil => exact (show lo = mid from h) ▸ h'
  | cons r rs ih => exact ⟨h.1, h.2.1, ih h.2.2⟩

theorem Tiles.sum {lo hi : Int} {rs : List (Int × Int)} (h : Tiles lo hi rs) :
    (rs.map (·.2)).sum = hi - lo := by
  induction rs generalizing lo with
  | nil =>
    have h : lo = hi := h
    rw [List.map_nil, List.sum_nil]
    omega
  | cons r rs ih =>
    have := ih h.2.2
    rw [List.map_cons, List.sum_cons]
    omega

/-- What a range cuts out of a list. -/
def piece {α : Type} (l : List α) (r : Int × Int) : List α := (l.drop r.1.toNat).take r.2.toNat

/-- **What a tiling cuts out is all there is between its ends.** -/
theorem Tiles.flatMap {α : Type} {lo hi : Int} {rs : List (Int × Int)} (h : Tiles lo hi rs)
    (hlo : 0 ≤ lo) (l : List α) : rs.flatMap (piece l) = piece l (lo, hi - lo) := by
  induction rs generalizing lo with
  | nil =>
    have h : lo = hi := h
    simp [piece, h]
  | cons r rs ih =>
    obtain ⟨hoff, hlen, hrest⟩ := h
    have hend := hrest.le
    rw [List.flatMap_cons, ih hrest (by omega)]
    have hsplit : (hi - lo).toNat = r.2.toNat + (hi - (lo + r.2)).toNat := by omega
    have hnext : (lo + r.2).toNat = lo.toNat + r.2.toNat := by omega
    unfold piece
    dsimp only
    rw [hoff, hsplit, hnext, List.take_add, List.drop_drop]

/-- **Parts of one size tile**, when the last of them begins before the end and the next would not. -/
theorem tiles_parts {size p : Int} {part : Nat → Int × Int} (hp : 0 ≤ p) {k : Nat}
    (hpart : ∀ i < k + 1, part i = (i * p, min p (size - i * p))) (hlast : k * p ≤ size)
    (hall : size ≤ (k + 1) * p) : Tiles 0 size ((List.range (k + 1)).map part) := by
  -- the parts before a place are whole
  have hwhole : ∀ j ≤ k, Tiles 0 (j * p) ((List.range j).map part) := by
    intro j hj
    induction j with
    | zero => simp [Tiles]
    | succ j ih =>
      rw [List.range_succ, List.map_append]
      refine (ih (by omega)).append ?_
      have hbefore : ((j : Int) + 1) * p ≤ k * p :=
        Int.mul_le_mul_of_nonneg_right (by omega) hp
      have hsucc : ((j : Int) + 1) * p = j * p + p := by ring
      have hmin : min p (size - j * p) = p := min_eq_left (by omega)
      rw [List.map_singleton, hpart j (by omega), hmin, Nat.cast_succ, hsucc]
      exact ⟨rfl, hp, rfl⟩
  rw [List.range_succ, List.map_append]
  refine (hwhole k (Nat.le_refl k)).append ?_
  have hsucc : ((k : Int) + 1) * p = k * p + p := by ring
  have hmin : min p (size - k * p) = size - k * p := min_eq_right (by omega)
  rw [List.map_singleton, hpart k (by omega), hmin]
  exact ⟨rfl, Int.sub_nonneg_of_le hlast, show k * p + (size - k * p) = size by omega⟩

end Lib
