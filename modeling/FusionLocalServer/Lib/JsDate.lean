import Mathlib.Data.Int.ConditionallyCompleteOrder
import Mathlib.Order.ConditionallyCompleteLattice.Basic
import Mathlib.Order.Monotone.Basic
import FusionLocalServer.Lib.Week

/-!
# The `Date` of JavaScript

A time is a number of milliseconds since 1970, without the bounds of `Date`, and local time is a fixed
number of milliseconds ahead of UTC. The constructor that takes a year, a month from 0 and a day of the
month carries what is too much for a month, and takes the years 0 to 99 for 1900 to 1999.

- `makeDay_localDate`: the constructor finds back the day of a date in any other year.
- `monthIndex_eq`: the months part the days.
-/

namespace Lib.JsDate

def dayMs : Int := 86400000

/-- The day 1970 begins with. -/
def epochDay : Int := 719528

section Zone

variable (offset : Int)

/-- The day of the calendar it is. -/
def localDay (t : Int) : Int := (t + offset) / dayMs + epochDay

/-- The milliseconds since midnight. -/
def msOfDay (t : Int) : Int := (t + offset) % dayMs

/-- The time a day begins at. -/
def midnight (n : Int) : Int := (n - epochDay) * dayMs - offset

def getFullYear (t : Int) : Int := (dateOfDay (localDay offset t)).1

/-- `getMonth`, which counts from 0. -/
def getMonth (t : Int) : Int := ((dateOfDay (localDay offset t)).2.1 : Int) - 1

def getDate (t : Int) : Int := (dateOfDay (localDay offset t)).2.2

def getHours (t : Int) : Int := msOfDay offset t / 3600000

def getMinutes (t : Int) : Int := msOfDay offset t / 60000 % 60

def getSeconds (t : Int) : Int := msOfDay offset t / 1000 % 60

end Zone

/-- The day a month begins with, the months being counted from the start of the year 0. -/
def monthStart (k : Int) : Int := civilDay (k / 12) ((k % 12).toNat + 1) 1

/-- The month a day is in. -/
def monthIndex (n : Int) : Int := 12 * (dateOfDay n).1 + ((dateOfDay n).2.1 - 1)

/-- The day of a year, a month from 0 and a day of the month, any of which may be too much. -/
def makeDay (y m d : Int) : Int :=
  let y := if 0 ≤ y ∧ y ≤ 99 then 1900 + y else y
  monthStart (12 * y + m) + (d - 1)

/-- `new Date(y, m, d)`. -/
def newDate (offset : Int) (y m d : Int) : Int := midnight offset (makeDay y m d)

/-! ## Days and midnights -/

section Zone

variable {offset : Int}

@[simp] theorem localDay_midnight (n : Int) : localDay offset (midnight offset n) = n := by
  unfold localDay midnight dayMs
  omega

theorem midnight_le (t : Int) : midnight offset (localDay offset t) ≤ t := by
  unfold localDay midnight dayMs
  omega

theorem lt_midnight_succ (t : Int) : t < midnight offset (localDay offset t + 1) := by
  unfold localDay midnight dayMs
  omega

theorem midnight_lt {n k : Int} : midnight offset n < midnight offset k ↔ n < k := by
  unfold midnight dayMs
  omega

theorem midnight_le_midnight {n k : Int} : midnight offset n ≤ midnight offset k ↔ n ≤ k := by
  unfold midnight dayMs
  omega

theorem midnight_injective {n k : Int} (h : midnight offset n = midnight offset k) : n = k := by
  have := congrArg (localDay offset) h
  rwa [localDay_midnight, localDay_midnight] at this

theorem localDay_mono {t u : Int} (h : t ≤ u) : localDay offset t ≤ localDay offset u := by
  unfold localDay dayMs
  omega

end Zone

/-! ## Months -/

/-- The parts of a date. -/
theorem dateOfDay_parts (n : Int) :
    1 ≤ (dateOfDay n).2.1 ∧ (dateOfDay n).2.1 ≤ 12 ∧ 1 ≤ (dateOfDay n).2.2 ∧
      (dateOfDay n).2.2 ≤ daysIn (isLeap ((dateOfDay n).1 % 400).toNat) (dateOfDay n).2.1 := by
  unfold dateOfDay
  dsimp only
  have hday : (n % daysPerEra).toNat < 146097 := by
    have := Int.emod_lt_of_pos n (show (0 : Int) < daysPerEra by decide)
    have hera : (daysPerEra : Int) = 146097 := rfl
    omega
  generalize (n % daysPerEra).toNat = day at hday ⊢
  obtain ⟨hy, hy'⟩ := yearOfDay_spec day
  rw [daysBeforeYear_succ] at hy'
  have hlast : yearOfDay day ≤ 399 := by
    have := (daysBeforeYear_bounds (yearOfDay day)).1
    omega
  have hmod : ((400 * (n / daysPerEra) + (yearOfDay day : Int)) % 400).toNat = yearOfDay day := by
    omega
  obtain ⟨hm1, hm12, hlo, hhi⟩ := monthOfDay_spec (isLeap (yearOfDay day))
    (d := day - daysBeforeYear (yearOfDay day)) (by omega)
  rw [hmod]
  refine ⟨hm1, hm12, by omega, ?_⟩
  unfold daysIn
  omega

theorem monthStart_add (n : Int) :
    monthStart (monthIndex n) + ((dateOfDay n).2.2 - 1 : Nat) = n := by
  have hday := civilDay_dateOfDay n
  obtain ⟨hm1, hm12, -, -⟩ := dateOfDay_parts n
  unfold monthStart monthIndex
  generalize dateOfDay n = date at *
  obtain ⟨y, m, d⟩ := date
  dsimp only at *
  have hdiv : (12 * y + ((m : Int) - 1)) / 12 = y := by omega
  have hmod : ((12 * y + ((m : Int) - 1)) % 12).toNat + 1 = m := by omega
  rw [hdiv, hmod]
  unfold civilDay at *
  omega

/-- **The constructor finds a day back** from its date, in all years but 0 to 99. -/
theorem makeDay_localDate {n : Int} (h : ¬ (0 ≤ (dateOfDay n).1 ∧ (dateOfDay n).1 ≤ 99)) (k : Int) :
    makeDay (dateOfDay n).1 ((dateOfDay n).2.1 - 1) ((dateOfDay n).2.2 + k) = n + k := by
  have hday := monthStart_add n
  have hparts := dateOfDay_parts n
  unfold makeDay
  dsimp only
  rw [if_neg h]
  unfold monthIndex at hday
  omega

/-- Eras are all alike, and the years of one come one behind the other. -/
theorem yearStart_succ (y : Int) :
    yearStart (y + 1) = yearStart y + daysBeforeMonth (isLeap (y % 400).toNat) 13 := by
  have hera : (daysPerEra : Int) = 146097 := rfl
  unfold yearStart
  rw [hera]
  by_cases hlast : y % 400 = 399
  · have hdiv : (y + 1) / 400 = y / 400 + 1 := by omega
    have hmod : ((y + 1) % 400).toNat = 0 := by omega
    have hold : (y % 400).toNat = 399 := by omega
    have hfirst : daysBeforeYear 0 = 0 := rfl
    have hbefore : daysBeforeYear 399 = 145732 := rfl
    have hyear : daysBeforeMonth (isLeap 399) 13 = 365 := rfl
    rw [hdiv, hmod, hold, hfirst, hbefore, hyear]
    omega
  · have hdiv : (y + 1) / 400 = y / 400 := by omega
    have hmod : ((y + 1) % 400).toNat = (y % 400).toNat + 1 := by omega
    rw [hdiv, hmod, daysBeforeYear_succ]
    omega

theorem monthStart_succ (k : Int) : monthStart (k + 1) =
    monthStart k + daysIn (isLeap (k / 12 % 400).toNat) ((k % 12).toNat + 1) := by
  have hfirst : ∀ leap, daysBeforeMonth leap 1 = 0 := by decide
  unfold monthStart civilDay daysIn
  by_cases hlast : k % 12 = 11
  · have hdiv : (k + 1) / 12 = k / 12 + 1 := by omega
    have hmod : ((k + 1) % 12).toNat = 0 := by omega
    have hold : (k % 12).toNat = 11 := by omega
    have hle : daysBeforeMonth (isLeap (k / 12 % 400).toNat) 12 ≤
        daysBeforeMonth (isLeap (k / 12 % 400).toNat) 13 := by
      cases isLeap (k / 12 % 400).toNat <;> decide
    rw [hdiv, hmod, hold, yearStart_succ, hfirst]
    simp only [Nat.reduceAdd]
    omega
  · have hdiv : (k + 1) / 12 = k / 12 := by omega
    have hmod : ((k + 1) % 12).toNat = (k % 12).toNat + 1 := by omega
    have hle : (k % 12).toNat + 1 ≤ 12 := by omega
    rw [hdiv, hmod]
    generalize isLeap (k / 12 % 400).toNat = leap
    generalize (k % 12).toNat = m at hle ⊢
    have hmono : daysBeforeMonth leap (m + 1) ≤ daysBeforeMonth leap (m + 1 + 1) := by
      have hall : ∀ leap : Bool, ∀ m : Nat, m < 12 →
          daysBeforeMonth leap (m + 1) ≤ daysBeforeMonth leap (m + 1 + 1) := by decide
      exact hall leap m (by omega)
    omega

theorem monthStart_strictMono : StrictMono monthStart := by
  refine strictMono_int_of_lt_succ fun k => ?_
  have hdays : ∀ leap : Bool, ∀ m : Nat, m < 12 → 0 < daysIn leap (m + 1) := by decide
  have := hdays (isLeap (k / 12 % 400).toNat) (k % 12).toNat (by omega)
  rw [monthStart_succ]
  omega

/-- A day is in its month. -/
theorem monthStart_le (n : Int) : monthStart (monthIndex n) ≤ n := by
  have := monthStart_add n
  omega

theorem lt_monthStart_succ (n : Int) : n < monthStart (monthIndex n + 1) := by
  have hday := monthStart_add n
  obtain ⟨hm1, hm12, hd1, hd⟩ := dateOfDay_parts n
  have hdiv : monthIndex n / 12 = (dateOfDay n).1 := by
    unfold monthIndex
    omega
  have hmod : (monthIndex n % 12).toNat + 1 = (dateOfDay n).2.1 := by
    unfold monthIndex
    omega
  rw [monthStart_succ, hdiv, hmod]
  omega

/-- It is in no other. -/
theorem monthIndex_eq {n k : Int} (hlo : monthStart k ≤ n) (hhi : n < monthStart (k + 1)) :
    monthIndex n = k := by
  have hlo' := monthStart_le n
  have hhi' := lt_monthStart_succ n
  have h1 : monthIndex n < k + 1 := monthStart_strictMono.lt_iff_lt.mp (by omega)
  have h2 : k < monthIndex n + 1 := monthStart_strictMono.lt_iff_lt.mp (by omega)
  omega

theorem monthIndex_mono {n k : Int} (h : n ≤ k) : monthIndex n ≤ monthIndex k := by
  have hlo := monthStart_le n
  have hhi := lt_monthStart_succ k
  have : monthIndex n < monthIndex k + 1 := monthStart_strictMono.lt_iff_lt.mp (by omega)
  omega

theorem year_eq (n : Int) : (dateOfDay n).1 = monthIndex n / 12 := by
  obtain ⟨hm1, hm12, -, -⟩ := dateOfDay_parts n
  unfold monthIndex
  omega

end Lib.JsDate
