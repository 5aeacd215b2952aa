import Mathlib.Algebra.BigOperators.Fin
import Mathlib.Algebra.BigOperators.Ring.List
import Mathlib.Algebra.Order.Group.Int

/-!
# The spend ring

The points of the last minute in a ring of 60 slots, one for a second. What a slot held a minute
ago is cleared when the clock passes, and a call clears the slots of all seconds since the last one.
Times are Unix seconds, and points are unbounded.

- `Holds` is the invariant: a slot has what was added in that one of the last sixty seconds that it
  stands for.
- `sum_eq_window`: the sum is the total of the last sixty seconds.
-/

namespace ApsBudget

structure SpendRing where
  slots : Fin 60 → Int
  lastSec : Int

/-- The zero value. -/
def SpendRing.zero : SpendRing := { slots := fun _ => 0, lastSec := 0 }

/-- The slot of a second. -/
def slotOf (sec : Int) : Fin 60 := Fin.ofNat 60 (sec % 60).toNat

/-- One round of the loop of `advance`. -/
def SpendRing.clearNext (r : SpendRing) : SpendRing where
  slots := Function.update r.slots (slotOf (r.lastSec + 1)) 0
  lastSec := r.lastSec + 1

/-- The rounds up to a second. -/
def SpendRing.clear : Nat → SpendRing → SpendRing
  | 0, r => r
  | n + 1, r => clear n r.clearNext

def SpendRing.advance (r : SpendRing) (sec : Int) : SpendRing :=
  if r.lastSec = 0 then { r with lastSec := sec } else r.clear (sec - r.lastSec).toNat

def SpendRing.add (r : SpendRing) (sec points : Int) : SpendRing :=
  let r := r.advance sec
  { r with slots := Function.update r.slots (slotOf sec) (r.slots (slotOf sec) + points) }

/-- The ring and the total. -/
def SpendRing.sum (r : SpendRing) (sec : Int) : SpendRing × Int :=
  let r := r.advance sec
  (r, (List.ofFn r.slots).sum)

inductive SpendCall where
  | add (sec points : Int)
  | sum (sec : Int)
deriving DecidableEq

def SpendCall.sec : SpendCall → Int
  | .add sec _ => sec
  | .sum sec => sec

def SpendCall.points : SpendCall → Int
  | .add _ points => points
  | .sum _ => 0

def SpendRing.call (r : SpendRing) : SpendCall → SpendRing
  | .add sec points => r.add sec points
  | .sum sec => (r.sum sec).1

def SpendRing.run (r : SpendRing) (calls : List SpendCall) : SpendRing := calls.foldl call r

/-! ## The last minute -/

/-- The total of what calls with a property added. -/
def total (calls : List SpendCall) (p : SpendCall → Prop) [DecidablePred p] : Int :=
  (calls.map fun c => if p c then c.points else 0).sum

/-- A call was made in one of the last sixty seconds. -/
def InMinute (sec : Int) (c : SpendCall) : Prop := sec - 60 < c.sec ∧ c.sec ≤ sec

instance (sec : Int) : DecidablePred (InMinute sec) := fun _ => inferInstanceAs (Decidable (_ ∧ _))

/-- A slot has what was added in its second of the last minute. -/
structure Holds (r : SpendRing) (calls : List SpendCall) : Prop where
  past : ∀ c ∈ calls, c.sec ≤ r.lastSec
  slots : ∀ i, r.slots i = total calls fun c => InMinute r.lastSec c ∧ slotOf c.sec = i

theorem total_congr {calls : List SpendCall} {p q : SpendCall → Prop} [DecidablePred p]
    [DecidablePred q] (h : ∀ c ∈ calls, p c ↔ q c) : total calls p = total calls q := by
  refine congrArg List.sum (List.map_congr_left fun c hc => ?_)
  simp only [h c hc]

theorem total_append (calls : List SpendCall) (c : SpendCall) (p : SpendCall → Prop)
    [DecidablePred p] : total (calls ++ [c]) p = total calls p + if p c then c.points else 0 := by
  simp [total]

theorem total_false {calls : List SpendCall} {p : SpendCall → Prop} [DecidablePred p]
    (h : ∀ c ∈ calls, ¬ p c) : total calls p = 0 := by
  refine List.sum_eq_zero fun x hx => ?_
  obtain ⟨c, hc, rfl⟩ := List.mem_map.mp hx
  exact if_neg (h c hc)

/-- The slots together have all there is. -/
theorem sum_total (calls : List SpendCall) (p : SpendCall → Prop) [DecidablePred p] :
    ∑ i, (total calls fun c => p c ∧ slotOf c.sec = i) = total calls p := by
  induction calls with
  | nil => simp [total]
  | cons c calls ih =>
    have hone : ∑ i, (if p c ∧ slotOf c.sec = i then c.points else 0) =
        if p c then c.points else 0 := by
      by_cases hp : p c <;> simp [hp]
    simp only [total, List.map_cons, List.sum_cons, Finset.sum_add_distrib] at ih ⊢
    rw [ih, hone]

theorem slotOf_eq_iff {a b : Int} : slotOf a = slotOf b ↔ a % 60 = b % 60 := by
  have ha : (a % 60).toNat < 60 := by omega
  have hb : (b % 60).toNat < 60 := by omega
  rw [Fin.ext_iff, slotOf, slotOf, Fin.val_ofNat, Fin.val_ofNat, Nat.mod_eq_of_lt ha,
    Nat.mod_eq_of_lt hb]
  omega

/-! ## The clock -/

/-- The slot that is cleared is that of the one second that is a minute ago now. -/
theorem Holds.clearNext {r : SpendRing} {calls : List SpendCall} (h : Holds r calls) :
    Holds r.clearNext calls := by
  constructor
  case past =>
    intro c hc
    have hpast := h.past c hc
    show c.sec ≤ r.lastSec + 1
    omega
  case slots =>
    intro i
    show Function.update r.slots (slotOf (r.lastSec + 1)) 0 i =
      total calls fun c => InMinute (r.lastSec + 1) c ∧ slotOf c.sec = i
    by_cases hi : i = slotOf (r.lastSec + 1)
    · rw [hi, Function.update_self]
      refine (total_false fun c hc hp => ?_).symm
      obtain ⟨⟨hlo, -⟩, hslot⟩ := hp
      have hpast := h.past c hc
      have hmod := slotOf_eq_iff.mp hslot
      omega
    · rw [Function.update_of_ne hi, h.slots]
      refine total_congr fun c hc => ?_
      have hpast := h.past c hc
      have hother : slotOf c.sec = i → ¬ c.sec % 60 = (r.lastSec + 1) % 60 := by
        rintro rfl hmod
        exact hi (slotOf_eq_iff.mpr hmod)
      unfold InMinute
      constructor
      · rintro ⟨⟨hlo, hhi⟩, hslot⟩
        have := hother hslot
        exact ⟨⟨by omega, by omega⟩, hslot⟩
      · rintro ⟨⟨hlo, hhi⟩, hslot⟩
        exact ⟨⟨by omega, hpast⟩, hslot⟩

theorem Holds.clear {calls : List SpendCall} (n : Nat) {r : SpendRing} (h : Holds r calls) :
    Holds (r.clear n) calls ∧ (r.clear n).lastSec = r.lastSec + n := by
  induction n generalizing r with
  | zero => exact ⟨h, (Int.add_zero _).symm⟩
  | succ n ih =>
    obtain ⟨hholds, hlast⟩ := ih h.clearNext
    refine ⟨hholds, hlast.trans ?_⟩
    show r.lastSec + 1 + n = r.lastSec + (n + 1 : Nat)
    omega

/-- The first call finds no calls before it. -/
theorem Holds.advance {r : SpendRing} {calls : List SpendCall} {sec : Int} (h : Holds r calls)
    (hnew : r.lastSec = 0 → calls = []) (hsec : r.lastSec ≤ sec) :
    Holds (r.advance sec) calls ∧ (r.advance sec).lastSec = sec := by
  unfold SpendRing.advance
  split
  · next hzero =>
    have hnone := hnew hzero
    subst hnone
    exact ⟨⟨fun c hc => absurd hc List.not_mem_nil, h.slots⟩, rfl⟩
  · obtain ⟨hholds, hlast⟩ := h.clear (sec - r.lastSec).toNat
    exact ⟨hholds, by omega⟩

/-- What is added in the present second is in its slot. -/
theorem Holds.call {r : SpendRing} {calls : List SpendCall} {c : SpendCall} (h : Holds r calls)
    (hnew : r.lastSec = 0 → calls = []) (hsec : r.lastSec ≤ c.sec) :
    Holds (r.call c) (calls ++ [c]) ∧ (r.call c).lastSec = c.sec := by
  obtain ⟨hadv, hlast⟩ := h.advance hnew hsec
  have hpast : ∀ c' ∈ calls ++ [c], c'.sec ≤ (r.advance c.sec).lastSec := by
    intro c' hc'
    rcases List.mem_append.mp hc' with hc' | hc'
    · exact hadv.past c' hc'
    · rw [List.mem_singleton.mp hc', hlast]
  have hnow : InMinute (r.advance c.sec).lastSec c := by
    rw [hlast]
    exact ⟨by omega, Int.le_refl _⟩
  cases c with
  | add sec points =>
    refine ⟨⟨hpast, fun i => ?_⟩, hlast⟩
    have hslots := hadv.slots i
    show Function.update (r.advance sec).slots (slotOf sec)
      ((r.advance sec).slots (slotOf sec) + points) i = total (calls ++ [.add sec points])
        fun c => InMinute (r.advance sec).lastSec c ∧ slotOf c.sec = i
    rw [total_append]
    by_cases hi : slotOf sec = i
    · subst hi
      rw [Function.update_self, if_pos ⟨hnow, rfl⟩]
      exact congrArg (· + points) hslots
    · rw [Function.update_of_ne (Ne.symm hi), if_neg fun hp => hi hp.2, Int.add_zero]
      exact hslots
  | sum sec =>
    refine ⟨⟨hpast, fun i => ?_⟩, hlast⟩
    have hzero : (if InMinute (r.advance sec).lastSec (.sum sec) ∧ slotOf sec = i then 0 else 0) =
        (0 : Int) := ite_self _
    rw [total_append]
    exact (hadv.slots i).trans ((Int.add_zero _).symm.trans (congrArg _ hzero.symm))

/-! ## Runs -/

theorem holds_run {calls : List SpendCall} (hpos : ∀ c ∈ calls, 0 < c.sec)
    (hmono : (calls.map (·.sec)).Pairwise (· ≤ ·)) :
    Holds (SpendRing.zero.run calls) calls ∧
      ((SpendRing.zero.run calls).lastSec = 0 → calls = []) ∧
      ∀ sec, 0 ≤ sec → (∀ c ∈ calls, c.sec ≤ sec) → (SpendRing.zero.run calls).lastSec ≤ sec := by
  induction calls using List.reverseRecOn with
  | nil =>
    exact ⟨⟨fun c hc => absurd hc List.not_mem_nil, fun _ => rfl⟩, fun _ => rfl, fun _ h _ => h⟩
  | append_singleton calls c ih =>
    rw [List.map_append, List.map_singleton] at hmono
    obtain ⟨hbefore, -, hlater⟩ := List.pairwise_append.mp hmono
    obtain ⟨hholds, hnew, hbound⟩ :=
      ih (fun c hc => hpos c (List.mem_append_left _ hc)) hbefore
    have hc : 0 < c.sec := hpos c (List.mem_append_right _ (List.mem_singleton_self c))
    have hsec : (SpendRing.zero.run calls).lastSec ≤ c.sec := hbound c.sec hc.le fun c' hc' =>
      hlater _ (List.mem_map_of_mem hc') _ (List.mem_singleton_self _)
    have hrun : SpendRing.zero.run (calls ++ [c]) = (SpendRing.zero.run calls).call c := by
      unfold SpendRing.run
      rw [List.foldl_append]
      rfl
    obtain ⟨hcall, hlast⟩ := hholds.call hnew hsec
    rw [hrun]
    refine ⟨hcall, fun hzero => absurd (hlast.symm.trans hzero) hc.ne', fun sec _ hall => ?_⟩
    rw [hlast]
    exact hall c (List.mem_append_right _ (List.mem_singleton_self c))

/-- **The sum is what was added in the last sixty seconds**, after all calls with a clock that does
not go back. -/
theorem sum_eq_window (calls : List SpendCall) (sec : Int) (hpos : ∀ c ∈ calls, 0 < c.sec)
    (hnow : 0 < sec) (hmono : (calls.map (·.sec) ++ [sec]).Pairwise (· ≤ ·)) :
    ((SpendRing.zero.run calls).sum sec).2 = total calls (InMinute sec) := by
  obtain ⟨hbefore, -, hlater⟩ := List.pairwise_append.mp hmono
  obtain ⟨hholds, hnew, hbound⟩ := holds_run hpos hbefore
  obtain ⟨hadv, hlast⟩ := hholds.advance hnew (hbound sec hnow.le fun c hc =>
    hlater _ (List.mem_map_of_mem hc) _ (List.mem_singleton_self _))
  show (List.ofFn ((SpendRing.zero.run calls).advance sec).slots).sum = _
  rw [List.sum_ofFn, ← sum_total]
  refine Finset.sum_congr rfl fun i _ => ?_
  rw [hadv.slots, hlast]

/-- Five points at the second 100 are gone at 160, the two of 101 are not. -/
theorem sum_eq_window_minute :
    ((SpendRing.zero.run [.add 100 5, .sum 100, .add 101 2]).sum 160).2 = 2 := by
  have h := sum_eq_window [.add 100 5, .sum 100, .add 101 2] 160 (by decide) (by decide) (by decide)
  exact h.trans (by decide)

end ApsBudget
