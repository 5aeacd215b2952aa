import Mathlib.Data.Rat.Floor
import Mathlib.Tactic.Linarith
import Mathlib.Tactic.FieldSimp
import Mathlib.Tactic.Ring
import Mathlib.Tactic.Positivity

/-!
# The points bucket

A continuously refilling token bucket over exact rationals. Times and durations are
nanoseconds; the zero `Time` is the zero of the clock, and the difference of two times is
clamped to what a 64-bit duration holds.

`deficitWait` is where the rationals meet the clock: the wait is truncated to whole
nanoseconds, so a wait of zero leaves the bucket short by less than what refills in one.
-/

namespace ApsBudget

/-- Nanoseconds since the zero time. -/
abbrev Time := Int

/-- Nanoseconds. -/
abbrev Duration := Int

def second : Duration := 1000000000

def minute : Duration := 60 * second

def hour : Duration := 3600 * second

def minDuration : Duration := -(2 ^ 63)

def maxDuration : Duration := 2 ^ 63 - 1

/-- `t.Sub(u)`. -/
def sub (t u : Time) : Duration := max minDuration (min maxDuration (t - u))

theorem sub_pos_iff {t u : Time} : 0 < sub t u ↔ u < t := by
  rw [sub, lt_max_iff, lt_min_iff, sub_pos]
  refine ⟨?_, fun h => .inr ⟨by decide, h⟩⟩
  rintro (h | h)
  · exact absurd h (by decide)
  · exact h.2

/-- The conversion of a number to an integer type, which drops the fraction. -/
def truncate (q : Rat) : Int := q.num.tdiv q.den

/-- `d.Seconds()`. -/
def seconds (d : Duration) : Rat := (d : Rat) / (second : Int)

theorem truncate_nonneg_eq {q : Rat} (hq : 0 ≤ q) : truncate q = ⌊q⌋ := by
  rw [truncate, Int.tdiv_eq_ediv_of_nonneg (Rat.num_nonneg.mpr hq), Rat.floor_def']

/-- A number that is not negative truncates to nothing exactly when it is below one. -/
theorem truncate_nonpos_iff {q : Rat} (hq : 0 ≤ q) : truncate q ≤ 0 ↔ q < 1 := by
  rw [truncate_nonneg_eq hq, ← Int.lt_add_one_iff, zero_add, Int.floor_lt, Int.cast_one]

structure Bucket where
  capacity : Rat
  tokens : Rat
  /-- Tokens a second. -/
  refillPer : Rat
  last : Time
deriving DecidableEq

def newBucket (capacity refillPerSec : Rat) (now : Time) : Bucket :=
  { capacity, tokens := capacity, refillPer := refillPerSec, last := now }

namespace Bucket

/-- Credits the time since the last refill. -/
def refill (b : Bucket) (now : Time) : Bucket :=
  if ¬ b.last < now then b
  else
    let tokens := b.tokens + seconds (sub now b.last) * b.refillPer
    { b with tokens := if b.capacity < tokens then b.capacity else tokens, last := now }

/-- Withdraws `n` points, below zero if need be. -/
def take (b : Bucket) (n : Rat) : Bucket := { b with tokens := b.tokens - n }

/-- Reconciles an estimate with the cost the gateway reported. -/
def correct (b : Bucket) (estimated actual : Int) : Bucket :=
  if actual ≤ 0 ∨ estimated = actual then b
  else
    let tokens := b.tokens + ((estimated - actual : Int) : Rat)
    { b with tokens := if b.capacity < tokens then b.capacity else tokens }

/-- Resyncs downwards to a level the gateway reported. -/
def setLevel (b : Bucket) (level : Rat) : Bucket :=
  let tokens := if level < b.tokens then level else b.tokens
  { b with tokens := if tokens < -b.capacity then -b.capacity else tokens }

/-- How long until the bucket holds `want`. -/
def deficitWait (b : Bucket) (want : Rat) : Duration :=
  if want ≤ b.tokens then 0
  else if b.refillPer ≤ 0 then hour
  else truncate ((want - b.tokens) / b.refillPer * (second : Int))

/-- The rate and the size of a bucket are for good. -/
def SameShape (b b' : Bucket) : Prop :=
  b'.capacity = b.capacity ∧ b'.refillPer = b.refillPer

theorem refill_shape (b : Bucket) (now : Time) : b.SameShape (b.refill now) := by
  unfold refill
  split <;> exact ⟨rfl, rfl⟩

theorem take_shape (b : Bucket) (n : Rat) : b.SameShape (b.take n) := ⟨rfl, rfl⟩

theorem correct_shape (b : Bucket) (estimated actual : Int) :
    b.SameShape (b.correct estimated actual) := by
  unfold correct
  split <;> exact ⟨rfl, rfl⟩

theorem setLevel_shape (b : Bucket) (level : Rat) : b.SameShape (b.setLevel level) :=
  ⟨rfl, rfl⟩

/-- Where there is nothing to wait for, the bucket is short of `want` by less than what
refills in a nanosecond. -/
theorem lt_of_deficitWait_nonpos {b : Bucket} {want : Rat} (hr : 0 < b.refillPer)
    (h : b.deficitWait want ≤ 0) : want - b.refillPer / (second : Int) < b.tokens := by
  have hsec : (0 : Rat) < ((second : Int) : Rat) := by norm_num [second]
  have hpart : 0 < b.refillPer / ((second : Int) : Rat) := div_pos hr hsec
  unfold deficitWait at h
  split at h
  · next henough => linarith
  · next hshort =>
    rw [if_neg (not_le.mpr hr)] at h
    have hdeficit : 0 ≤ (want - b.tokens) / b.refillPer * ((second : Int) : Rat) := by
      have : 0 < want - b.tokens := by linarith [not_le.mp hshort]
      positivity
    -- less than one nanosecond's worth
    have hlt := (truncate_nonpos_iff hdeficit).mp h
    rw [div_mul_eq_mul_div, div_lt_one hr, ← lt_div_iff₀ hsec] at hlt
    linarith

end Bucket

end ApsBudget
