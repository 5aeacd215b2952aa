import Mathlib.Algebra.Order.Ring.Defs
import Mathlib.Tactic.Linarith
import Mathlib.Tactic.Ring

/-!
# Meters

A meter is what a token bucket is to those who only watch what is spent: at each moment a
certain amount is available, it is never above a burst, it grows no faster than a rate, and
what an event spends is no longer available. Whatever such a meter does between its events,
what is spent within a window of time is at most the burst and what the rate gives over the
length of the window (`Meter.Paced.spentIn_le`).
-/

namespace Lib

/-- A meter with states `σ`, events `ε`, moments `τ` and amounts `α`. -/
structure Meter (σ ε τ α : Type*) where
  step : σ → ε → σ
  time : ε → τ
  /-- The moment as a number, in the unit that the rate is for. -/
  clock : τ → α
  /-- What an event spends in a state. -/
  spent : σ → ε → α
  /-- What is available in a state at a moment. -/
  avail : σ → τ → α

namespace Meter

variable {σ ε τ α : Type*} [LinearOrder τ] [CommRing α] [LinearOrder α]

omit [LinearOrder τ] in
/-- What the events within a window spend. -/
def spentIn (m : Meter σ ε τ α) (start stop : α) : σ → List ε → α
  | _, [] => 0
  | s, e :: es =>
    (if start ≤ m.clock (m.time e) ∧ m.clock (m.time e) ≤ stop then m.spent s e else 0) +
      m.spentIn start stop (m.step s e) es

/-- The times of the events do not decrease, and none is before `t`. -/
def Timed (m : Meter σ ε τ α) : τ → List ε → Prop
  | _, [] => True
  | t, e :: es => t ≤ m.time e ∧ m.Timed (m.time e) es

/-- Once a window is over nothing is spent in it. -/
theorem spentIn_after (m : Meter σ ε τ α) (hclock : Monotone m.clock) {start stop : α}
    (es : List ε) : ∀ {s : σ} {t : τ}, stop < m.clock t → m.Timed t es →
      m.spentIn start stop s es = 0 := by
  induction es with
  | nil => exact fun _ _ => rfl
  | cons e es ih =>
    intro s t hlt ht
    have hlater : stop < m.clock (m.time e) := hlt.trans_le (hclock ht.1)
    rw [spentIn, if_neg fun hin => absurd hin.2 (not_le.mpr hlater), zero_add]
    exact ih hlater ht.2

/-- How a meter works in the states that are good at a moment. -/
structure Paced (m : Meter σ ε τ α) (rate burst : α) (Good : σ → τ → Prop) : Prop where
  clock : Monotone m.clock
  rate_nonneg : 0 ≤ rate
  nonneg : ∀ {s t}, Good s t → 0 ≤ m.avail s t
  le_burst : ∀ {s t}, Good s t → m.avail s t ≤ burst
  wait : ∀ {s t t'}, Good s t → t ≤ t' → Good s t'
  grows : ∀ {s t t'}, Good s t → t ≤ t' →
    m.avail s t' ≤ m.avail s t + rate * (m.clock t' - m.clock t)
  step : ∀ {s e}, Good s (m.time e) → Good (m.step s e) (m.time e)
  spends : ∀ {s e}, Good s (m.time e) →
    m.avail (m.step s e) (m.time e) + m.spent s e ≤ m.avail s (m.time e)

namespace Paced

variable [IsStrictOrderedRing α] {m : Meter σ ε τ α} {rate burst : α} {Good : σ → τ → Prop}

/-- From a moment of the window on, what is available and what still comes can be spent. -/
theorem spentIn_le_avail (h : m.Paced rate burst Good) (start stop : α) (es : List ε) :
    ∀ {s : σ} {t : τ}, Good s t → m.Timed t es → start ≤ m.clock t → m.clock t ≤ stop →
      m.spentIn start stop s es ≤ m.avail s t + rate * (stop - m.clock t) := by
  induction es with
  | nil =>
    intro s t hs _ _ hle
    exact add_nonneg (h.nonneg hs) (mul_nonneg h.rate_nonneg (sub_nonneg.mpr hle))
  | cons e es ih =>
    intro s t hs ht hstart hle
    have hs' := h.wait hs ht.1
    have hin : start ≤ m.clock (m.time e) := hstart.trans (h.clock ht.1)
    by_cases hstop : m.clock (m.time e) ≤ stop
    · have hrest := ih (h.step hs') ht.2 hin hstop
      have hspends := h.spends hs'
      have hgrows := h.grows hs ht.1
      have hsum : rate * (stop - m.clock t) =
          rate * (m.clock (m.time e) - m.clock t) + rate * (stop - m.clock (m.time e)) := by
        ring
      rw [spentIn, if_pos ⟨hin, hstop⟩]
      linarith only [hrest, hspends, hgrows, hsum]
    · rw [spentIn, if_neg fun hin => hstop hin.2, zero_add,
        m.spentIn_after h.clock es (not_le.mp hstop) ht.2]
      exact add_nonneg (h.nonneg hs) (mul_nonneg h.rate_nonneg (sub_nonneg.mpr hle))

/-- **What is spent in a window** is at most the burst and what comes over its length. -/
theorem spentIn_le (h : m.Paced rate burst Good) {start stop : α} (hwindow : start ≤ stop)
    (es : List ε) : ∀ {s : σ} {t : τ}, Good s t → m.Timed t es →
      m.spentIn start stop s es ≤ burst + rate * (stop - start) := by
  induction es with
  | nil =>
    intro s t hs _
    exact add_nonneg ((h.nonneg hs).trans (h.le_burst hs))
      (mul_nonneg h.rate_nonneg (sub_nonneg.mpr hwindow))
  | cons e es ih =>
    intro s t hs ht
    have hs' := h.wait hs ht.1
    by_cases hin : start ≤ m.clock (m.time e) ∧ m.clock (m.time e) ≤ stop
    · -- the window is entered with no more than the burst
      have hrest := h.spentIn_le_avail start stop (e :: es) hs' ⟨le_rfl, ht.2⟩ hin.1 hin.2
      have hburst := h.le_burst hs'
      have hrate := mul_le_mul_of_nonneg_left (sub_le_sub_left hin.1 stop) h.rate_nonneg
      linarith only [hrest, hburst, hrate]
    · rw [spentIn, if_neg hin, zero_add]
      exact ih (h.step hs') ht.2

end Paced

end Meter

end Lib
