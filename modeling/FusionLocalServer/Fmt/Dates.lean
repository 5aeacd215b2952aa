import Mathlib.Algebra.Order.Floor.Ring
import Mathlib.Data.Rat.Floor
import Mathlib.Data.String.Basic
import FusionLocalServer.Lib.JsDate

/-!
# Days as texts (`fmt/dates.ts`)

A day is written `YYYY-MM-DD` and is read as the local midnight it begins with. What is written of a
day of the years 1000 to 9999 is its date, the order of the texts is that of the days, and a text of
the years from 100 on is read as the day it names; a year before 100 is read as one of 1900 to 1999.

- `addMonths_eq`: months go by, and a day that the month reached does not have is its last one.
- `calendar_spec`: the breakdown of a span leads from its start to its end.
-/

namespace FusionLocalServer.Fmt

open Lib Lib.JsDate

section Zone

variable (offset : Int)

/-- `Number` of the digits of a date; of nothing it is 0. -/
def number (cs : List Char) : Option Int :=
  if cs.all Char.isDigit then some (Nat.ofDigitChars 10 cs 0 : Nat) else none

/-- `n || 1`. -/
def orOne : Option Int → Int
  | some n => if n = 0 then 1 else n
  | none => 1

/-- Nothing is an invalid `Date`. -/
def parseDay (s : String) : Option Int :=
  let parts := (s.toList.splitOn '-').map number
  (parts.getD 0 none).map fun y =>
    newDate offset y (orOne (parts.getD 1 none) - 1) (orOne (parts.getD 2 none))

def fmtDay (d : Int) : String :=
  String.ofList (appendInt (getFullYear offset d) 1 ++
    '-' :: (appendInt (getMonth offset d + 1) 2 ++ '-' :: appendInt (getDate offset d) 2))

def addDays (d n : Int) : Int :=
  newDate offset (getFullYear offset d) (getMonth offset d) (getDate offset d + n)

/-- The day of the month is that of the date, or the last one of a shorter month. -/
def addMonths (d n : Int) : Int :=
  let y := getFullYear offset d
  let m := getMonth offset d + n
  let last := getDate offset (newDate offset y (m + 1) 0)
  newDate offset y m (min (getDate offset d) last)

/-- Monday is 0. -/
def weekDay (n : Int) : Int := (n + 5) % 7

def mondayOf (d : Int) : Int := addDays offset d (-weekDay (localDay offset d))

/-- `Math.round` -/
def round (x : Rat) : Int := ⌊x + 1 / 2⌋

def daysBetween (a b : Int) : Int := round ((b - a : Int) / (dayMs : Rat))

structure Breakdown where
  years : Int
  months : Int
  days : Int
deriving DecidableEq

/-- The breakdown of a span whose end is not before its start. -/
def breakdownOf (start stop : Int) : Breakdown :=
  let months := (getFullYear offset stop - getFullYear offset start) * 12 +
    (getMonth offset stop - getMonth offset start)
  let months := if addMonths offset start months > stop then months - 1 else months
  let days := daysBetween (addMonths offset start months) stop
  { years := months / 12, months := months % 12, days }

def calendarBreakdown (start stop : Int) : Breakdown :=
  if stop < start then breakdownOf offset stop start else breakdownOf offset start stop

end Zone

/-! ## The days of the years with four digits -/

variable {offset : Int}

/-- The days whose year is written with four digits. -/
def FourDigits (n : Int) : Prop := 1000 ≤ (dateOfDay n).1 ∧ (dateOfDay n).1 ≤ 9999

instance (n : Int) : Decidable (FourDigits n) := inferInstanceAs (Decidable (_ ∧ _))

theorem isLeap_mod_era (y : Nat) : isLeap ((y : Int) % 400).toNat = isLeap y := by
  have hera := isLeap_era (y / 400) (y % 400)
  have hsplit : 400 * (y / 400) + y % 400 = y := Nat.div_add_mod y 400
  rw [hsplit] at hera
  have hmod : ((y : Int) % 400).toNat = y % 400 := by omega
  rw [hmod, hera]

/-- The day a date of a year from 0 on is. -/
theorem civilDay_natCast (y m d : Nat) : civilDay y m d = dayOfDate y m d := by
  have hyear : yearStart y = daysBeforeYear y := by
    have hera := daysBeforeYear_era (y / 400) (y % 400)
    have hsplit : 400 * (y / 400) + y % 400 = y := Nat.div_add_mod y 400
    rw [hsplit] at hera
    have hdiv : (y : Int) / 400 = ((y / 400 : Nat) : Int) := rfl
    have hmod : ((y : Int) % 400).toNat = y % 400 := by omega
    unfold yearStart
    rw [hdiv, hmod, hera]
    push_cast
    rfl
  unfold civilDay dayOfDate
  rw [hyear, isLeap_mod_era]
  push_cast
  omega

/-- A day of a year from 0 to 9999 has a date of the calendar. -/
theorem isDate_of_year {n : Int} (hlo : 0 ≤ (dateOfDay n).1) (hhi : (dateOfDay n).1 ≤ 9999) :
    ∃ y m d : Nat, IsDate y m d ∧ dateOfDay n = ((y : Int), m, d) ∧ n = dayOfDate y m d := by
  obtain ⟨hm1, hm12, hd1, hdays⟩ := dateOfDay_parts n
  have hday := civilDay_dateOfDay n
  generalize dateOfDay n = date at *
  obtain ⟨y, m, d⟩ := date
  dsimp only at *
  obtain ⟨y, rfl⟩ := Int.eq_ofNat_of_zero_le hlo
  rw [isLeap_mod_era] at hdays
  refine ⟨y, m, d, ⟨by omega, hm1, hm12, hd1, hdays⟩, rfl, ?_⟩
  rw [← hday, civilDay_natCast]

theorem FourDigits.isDate {n : Int} (h : FourDigits n) :
    ∃ y m d : Nat, 1000 ≤ y ∧ IsDate y m d ∧ dateOfDay n = ((y : Int), m, d) ∧
      n = dayOfDate y m d := by
  obtain ⟨hlo, hhi⟩ := h
  obtain ⟨y, m, d, hdate, hparts, hn⟩ := isDate_of_year (by omega) hhi
  have hy : (y : Int) = (dateOfDay n).1 := by rw [hparts]
  exact ⟨y, m, d, by omega, hdate, hparts, hn⟩

/-- A year with four digits needs no padding. -/
theorem appendInt_fourDigits {y : Nat} (hlo : 1000 ≤ y) (hhi : y ≤ 9999) :
    appendInt y 1 = fixedDigits 4 y := by
  have hlong : 4 ≤ (Nat.toDigits 10 y).length := by
    by_contra hshort
    have := (Nat.length_toDigits_le_iff (n := y) (b := 10) (k := 3) (by decide) (by decide)).mp
      (by omega)
    omega
  have hcanon := replicate_append_toDigits (show 0 < 4 by decide) (show y < 10 ^ 4 by omega)
  have hsign : ¬ (y : Int) < 0 := Int.not_lt.mpr (Int.natCast_nonneg y)
  unfold appendInt
  dsimp only
  rw [if_neg hsign, List.nil_append, Int.natAbs_natCast, ← hcanon,
    show 1 - (Nat.toDigits 10 y).length = 4 - (Nat.toDigits 10 y).length by omega]

/-- **A day is written as its date.** -/
theorem fmtDay_eq {t : Int} {y m d : Nat} (hy : 1000 ≤ y) (hdate : IsDate y m d)
    (h : dateOfDay (localDay offset t) = ((y : Int), m, d)) :
    fmtDay offset t = String.ofList (writeDate y m d) := by
  unfold fmtDay getFullYear getMonth getDate writeDate
  rw [h]
  dsimp only
  have hm : ((m : Int) - 1 + 1) = m := by omega
  have hmonth : m < 10 ^ 2 := by
    have := hdate.month_le
    omega
  rw [appendInt_fourDigits hy hdate.year, hm, appendInt_of_lt (by decide) hmonth,
    appendInt_of_lt (by decide) hdate.day_lt]

/-- Later days have later texts. -/
theorem fmtDay_lt {t u : Int} (ht : FourDigits (localDay offset t))
    (hu : FourDigits (localDay offset u)) :
    fmtDay offset t < fmtDay offset u ↔ localDay offset t < localDay offset u := by
  have hlt : ∀ {t u}, FourDigits (localDay offset t) → FourDigits (localDay offset u) →
      localDay offset t < localDay offset u → fmtDay offset t < fmtDay offset u := by
    intro t u ht hu hlt
    obtain ⟨y, m, d, hy, hdate, hparts, hn⟩ := ht.isDate
    obtain ⟨y', m', d', hy', hdate', hparts', hn'⟩ := hu.isDate
    rw [fmtDay_eq hy hdate hparts, fmtDay_eq hy' hdate' hparts', String.lt_iff,
      String.toList_ofList, String.toList_ofList]
    exact writeDate_lt hdate hdate' (by omega)
  constructor
  · intro h
    by_contra hcon
    rcases Int.lt_or_eq_of_le (Int.not_lt.mp hcon) with hback | heq
    · exact lt_asymm h (hlt hu ht hback)
    · unfold fmtDay getFullYear getMonth getDate at h
      rw [heq] at h
      exact lt_irrefl _ h
  · exact hlt ht hu

theorem fmtDay_inj {t u : Int} (ht : FourDigits (localDay offset t))
    (hu : FourDigits (localDay offset u)) :
    fmtDay offset t = fmtDay offset u ↔ localDay offset t = localDay offset u := by
  have h := fmtDay_lt ht hu
  have h' := fmtDay_lt hu ht
  constructor
  · intro heq
    rw [heq] at h h'
    have h := mt h.mpr (lt_irrefl _)
    have h' := mt h'.mpr (lt_irrefl _)
    omega
  · intro heq
    unfold fmtDay getFullYear getMonth getDate
    rw [heq]

/-! ## Reading -/

theorem number_fixedDigits {k n : Nat} (h : n < 10 ^ k) : number (fixedDigits k n) = some (n : Int) := by
  have hall : (fixedDigits k n).all Char.isDigit = true :=
    List.all_eq_true.mpr (isDigit_of_mem_fixedDigits k n)
  rw [number, if_pos hall, ofDigitChars_fixedDigits, Nat.mod_eq_of_lt h]

theorem number_toDigits (n : Nat) : number (Nat.toDigits 10 n) = some (n : Int) := by
  have hall : (Nat.toDigits 10 n).all Char.isDigit = true :=
    List.all_eq_true.mpr fun c hc => Nat.isDigit_of_mem_toDigits (by decide) (by decide) hc
  rw [number, if_pos hall, Nat.ofDigitChars_ten_toDigits]

/-- The digits of a year, a month and a day of the month are read as these, however many digits
the year has. -/
theorem parseDay_digits {year : List Char} {y m d : Nat} (hread : number year = some (y : Int))
    (hm : IsDate y m d) :
    parseDay offset (String.ofList (year ++ '-' :: (fixedDigits 2 m ++ '-' :: fixedDigits 2 d))) =
      some (newDate offset y (m - 1) d) := by
  have hyear : '-' ∉ year := by
    intro hmem
    unfold number at hread
    split at hread
    · next hall => exact absurd (List.all_eq_true.mp hall _ hmem) (by decide)
    · cases hread
  have hsplit : (year ++ '-' :: (fixedDigits 2 m ++ '-' :: fixedDigits 2 d)).splitOn '-' =
      [year, fixedDigits 2 m, fixedDigits 2 d] := by
    have hdash : ∀ k n, '-' ∉ fixedDigits k n := fun k n hmem =>
      absurd (isDigit_of_mem_fixedDigits k n _ hmem) (by decide)
    have hjoin : year ++ '-' :: (fixedDigits 2 m ++ '-' :: fixedDigits 2 d) =
        ['-'].intercalate [year, fixedDigits 2 m, fixedDigits 2 d] := by
      simp [List.intercalate_cons_cons]
    rw [hjoin, List.splitOn_intercalate]
    · simp [hdash, hyear]
    · exact List.cons_ne_nil _ _
  have hmonth := hm.month_le
  have hm1 := hm.month
  have hd1 := hm.day
  unfold parseDay
  rw [String.toList_ofList, hsplit]
  simp only [List.map_cons, hread, number_fixedDigits (show m < 10 ^ 2 by omega),
    number_fixedDigits hm.day_lt, List.getD_cons_zero, List.getD_cons_succ, Option.map_some, orOne]
  rw [if_neg (by omega), if_neg (by omega)]

/-- The text of a date is read as its parts. -/
theorem parseDay_writeDate {y m d : Nat} (h : IsDate y m d) :
    parseDay offset (String.ofList (writeDate y m d)) = some (newDate offset y (m - 1) d) :=
  parseDay_digits (number_fixedDigits (Nat.lt_succ_of_le h.year)) h

/-- From the year 100 on these are the parts of the day. -/
theorem makeDay_natCast {y m d : Nat} (hy : 100 ≤ y) (h : IsDate y m d) :
    makeDay y (m - 1) d = dayOfDate y m d := by
  have hm := h.month_le
  have hm1 := h.month
  have hd1 := h.day
  have hdiv : (12 * (y : Int) + (m - 1)) / 12 = y := by omega
  have hmod : ((12 * (y : Int) + (m - 1)) % 12).toNat + 1 = m := by omega
  unfold makeDay monthStart
  dsimp only
  rw [if_neg (by omega), hdiv, hmod, civilDay_natCast]
  unfold dayOfDate
  omega

/-- The days of the years that the constructor of a date takes as they are, to 9999. -/
def Dated (n : Int) : Prop := 100 ≤ (dateOfDay n).1 ∧ (dateOfDay n).1 ≤ 9999

instance (n : Int) : Decidable (Dated n) := inferInstanceAs (Decidable (_ ∧ _))

theorem FourDigits.dated {n : Int} (h : FourDigits n) : Dated n :=
  ⟨Int.le_trans (by decide) h.1, h.2⟩

/-- **What is written of a day is read as the midnight it begins with.** -/
theorem parseDay_fmtDay_of_dated {t : Int} (h : Dated (localDay offset t)) :
    parseDay offset (fmtDay offset t) = some (midnight offset (localDay offset t)) := by
  obtain ⟨hlo, hhi⟩ := h
  obtain ⟨y, m, d, hdate, hparts, hn⟩ := isDate_of_year (by omega) hhi
  have hy : (y : Int) = (dateOfDay (localDay offset t)).1 := by rw [hparts]
  have hm := hdate.month_le
  -- the year is written without padding
  have hyear : appendInt y 1 = Nat.toDigits 10 y := by
    have hpos : 0 < (Nat.toDigits 10 y).length := Nat.length_toDigits_pos
    have hsign : ¬ (y : Int) < 0 := Int.not_lt.mpr (Int.natCast_nonneg y)
    unfold appendInt
    dsimp only
    rw [if_neg hsign, Int.natAbs_natCast, Nat.sub_eq_zero_of_le hpos]
    rfl
  have htext : fmtDay offset t = String.ofList
      (Nat.toDigits 10 y ++ '-' :: (fixedDigits 2 m ++ '-' :: fixedDigits 2 d)) := by
    unfold fmtDay getFullYear getMonth getDate
    rw [hparts]
    dsimp only
    rw [hyear, Int.sub_add_cancel, appendInt_of_lt (by decide) (by omega),
      appendInt_of_lt (by decide) hdate.day_lt]
  rw [htext, parseDay_digits (number_toDigits y) hdate, newDate,
    makeDay_natCast (by omega) hdate, hn]

theorem parseDay_fmtDay {t : Int} (h : FourDigits (localDay offset t)) :
    parseDay offset (fmtDay offset t) = some (midnight offset (localDay offset t)) :=
  parseDay_fmtDay_of_dated h.dated

/-! ## Calendar spans -/

theorem monthIndex_localDay (offset t : Int) :
    12 * getFullYear offset t + getMonth offset t = monthIndex (localDay offset t) := rfl

theorem getDate_eq (offset t : Int) : getDate offset t =
    localDay offset t - monthStart (monthIndex (localDay offset t)) + 1 := by
  have hday := monthStart_add (localDay offset t)
  obtain ⟨-, -, hd1, -⟩ := dateOfDay_parts (localDay offset t)
  unfold getDate
  omega

theorem makeDay_of_year {y : Int} (h : 100 ≤ y) (m d : Int) :
    makeDay y m d = monthStart (12 * y + m) + (d - 1) := by
  unfold makeDay
  dsimp only
  rw [if_neg (by omega)]

/-- The day some months after a day. -/
def shiftMonths (n k : Int) : Int :=
  monthStart (monthIndex n + k) + min (n - monthStart (monthIndex n))
    (monthStart (monthIndex n + k + 1) - monthStart (monthIndex n + k) - 1)

theorem shiftMonths_bounds (n k : Int) : monthStart (monthIndex n + k) ≤ shiftMonths n k ∧
    shiftMonths n k < monthStart (monthIndex n + k + 1) := by
  have hday := monthStart_le n
  have hmonth : monthStart (monthIndex n + k) < monthStart (monthIndex n + k + 1) :=
    monthStart_strictMono (Int.lt_succ _)
  unfold shiftMonths
  omega

@[simp] theorem monthIndex_shiftMonths (n k : Int) :
    monthIndex (shiftMonths n k) = monthIndex n + k :=
  monthIndex_eq (shiftMonths_bounds n k).1 (shiftMonths_bounds n k).2

@[simp] theorem shiftMonths_zero (n : Int) : shiftMonths n 0 = n := by
  have hlo := monthStart_le n
  have hhi := lt_monthStart_succ n
  unfold shiftMonths
  rw [Int.add_zero]
  omega

/-- A day of an earlier month is earlier. -/
theorem lt_of_monthIndex_lt {n k : Int} (h : monthIndex n < monthIndex k) : n < k := by
  by_contra hle
  have := monthIndex_mono (Int.not_lt.mp hle)
  omega

theorem shiftMonths_lt {n k j : Int} (h : k < j) : shiftMonths n k < shiftMonths n j := by
  refine lt_of_monthIndex_lt ?_
  rw [monthIndex_shiftMonths, monthIndex_shiftMonths]
  omega

/-- The clamp finds the last day of the month that is short. -/
theorem addMonths_eq {t : Int} (h : 100 ≤ getFullYear offset t) (k : Int) :
    addMonths offset t k = midnight offset (shiftMonths (localDay offset t) k) := by
  have hindex := monthIndex_localDay offset t
  have hdate := getDate_eq offset t
  have hmonth : monthStart (monthIndex (localDay offset t) + k) <
      monthStart (monthIndex (localDay offset t) + k + 1) :=
    monthStart_strictMono (Int.lt_succ _)
  have hlast : getDate offset (newDate offset (getFullYear offset t)
      (getMonth offset t + k + 1) 0) = monthStart (monthIndex (localDay offset t) + k + 1) -
        monthStart (monthIndex (localDay offset t) + k) := by
    have hmonth : monthIndex (monthStart (monthIndex (localDay offset t) + k + 1) + (0 - 1)) =
        monthIndex (localDay offset t) + k := monthIndex_eq (by omega) (by omega)
    rw [newDate, makeDay_of_year h, getDate_eq, localDay_midnight, ← Int.add_assoc, ← Int.add_assoc,
      hindex, hmonth]
    omega
  unfold addMonths
  dsimp only
  rw [hlast, newDate, makeDay_of_year h, ← Int.add_assoc, hindex, hdate]
  refine congrArg (midnight offset) ?_
  unfold shiftMonths
  omega

theorem daysBetween_midnight (n k : Int) :
    daysBetween (midnight offset n) (midnight offset k) = k - n := by
  have hms : midnight offset k - midnight offset n = (k - n) * dayMs := by
    unfold midnight
    generalize dayMs = ms
    ring
  have hne : (dayMs : Rat) ≠ 0 := by decide
  unfold daysBetween round
  rw [hms, Int.cast_mul, mul_div_cancel_right₀ _ hne, Int.floor_intCast_add]
  norm_num

theorem addDays_midnight {n : Int} (h : 100 ≤ (dateOfDay n).1) (k : Int) :
    addDays offset (midnight offset n) k = midnight offset (n + k) := by
  unfold addDays newDate getFullYear getMonth getDate
  rw [localDay_midnight, makeDay_localDate (by omega)]

/-- A span is years, less than twelve months and days that lead from its start to its end, and no
more months fit. -/
structure IsBreakdown (offset start stop : Int) (b : Breakdown) : Prop where
  years : 0 ≤ b.years
  months : 0 ≤ b.months ∧ b.months < 12
  days : 0 ≤ b.days
  reaches : addDays offset (addMonths offset start (12 * b.years + b.months)) b.days = stop
  most : ∀ k, addMonths offset start k ≤ stop → k ≤ 12 * b.years + b.months

/-- One month less is enough where the months of the fields are too many. -/
theorem breakdownOf_spec {n k : Int} (hn : 100 ≤ (dateOfDay n).1) (h : n ≤ k) :
    IsBreakdown offset (midnight offset n) (midnight offset k)
      (breakdownOf offset (midnight offset n) (midnight offset k)) := by
  have hyear : 100 ≤ getFullYear offset (midnight offset n) := by
    rwa [getFullYear, localDay_midnight]
  have hadd : ∀ j, addMonths offset (midnight offset n) j = midnight offset (shiftMonths n j) := by
    intro j
    rw [addMonths_eq hyear, localDay_midnight]
  have hfields : (getFullYear offset (midnight offset k) -
      getFullYear offset (midnight offset n)) * 12 + (getMonth offset (midnight offset k) -
        getMonth offset (midnight offset n)) = monthIndex k - monthIndex n := by
    have hk := monthIndex_localDay offset (midnight offset k)
    have hn := monthIndex_localDay offset (midnight offset n)
    rw [localDay_midnight] at hk hn
    omega
  have hmono := monthIndex_mono h
  -- the months that are taken are the most that fit
  obtain ⟨months, hmonths, hpos, hfit, hmost⟩ : ∃ months,
      (if addMonths offset (midnight offset n) (monthIndex k - monthIndex n) > midnight offset k
        then monthIndex k - monthIndex n - 1 else monthIndex k - monthIndex n) = months ∧
      0 ≤ months ∧ shiftMonths n months ≤ k ∧ k < shiftMonths n (months + 1) := by
    rw [hadd]
    split
    · next hover =>
      have hover : k < shiftMonths n (monthIndex k - monthIndex n) := midnight_lt.mp hover
      refine ⟨_, rfl, ?_, ?_, ?_⟩
      · by_contra hneg
        have hzero : monthIndex k - monthIndex n = 0 := by omega
        rw [hzero, shiftMonths_zero] at hover
        omega
      · refine (lt_of_monthIndex_lt ?_).le
        rw [monthIndex_shiftMonths]
        omega
      · rwa [Int.sub_add_cancel]
    · next hfits =>
      refine ⟨_, rfl, by omega, midnight_le_midnight.mp (Int.not_lt.mp hfits), ?_⟩
      refine lt_of_monthIndex_lt ?_
      rw [monthIndex_shiftMonths]
      omega
  have hresult : breakdownOf offset (midnight offset n) (midnight offset k) =
      { years := months / 12, months := months % 12, days := k - shiftMonths n months } := by
    unfold breakdownOf
    dsimp only
    rw [hfields, hmonths, hadd, daysBetween_midnight]
  have hsplit : 12 * (months / 12) + months % 12 = months := by omega
  have hstop : 100 ≤ (dateOfDay (shiftMonths n months)).1 := by
    rw [year_eq] at hn ⊢
    rw [monthIndex_shiftMonths]
    omega
  rw [hresult]
  constructor
  case years =>
    dsimp only
    omega
  case months =>
    dsimp only
    omega
  case days =>
    dsimp only
    omega
  case reaches =>
    dsimp only
    rw [hsplit, hadd, addDays_midnight hstop]
    refine congrArg (midnight offset) ?_
    omega
  case most =>
    intro j hj
    dsimp only
    rw [hsplit]
    rw [hadd] at hj
    have hle : shiftMonths n j ≤ k := midnight_le_midnight.mp hj
    by_contra hlt
    rcases Int.lt_or_eq_of_le (show months + 1 ≤ j by omega) with hj' | rfl
    · have := shiftMonths_lt (n := n) hj'
      omega
    · omega

/-- **Dates read back, and spans lead from their start to their end.** -/
theorem calendar_spec (offset : Int) {n k : Int} (hn : Dated n) (hk : Dated k) :
    parseDay offset (fmtDay offset (midnight offset n)) = some (midnight offset n) ∧
      parseDay offset (fmtDay offset (midnight offset k)) = some (midnight offset k) ∧
      (midnight offset n ≤ midnight offset k →
        IsBreakdown offset (midnight offset n) (midnight offset k)
          (calendarBreakdown offset (midnight offset n) (midnight offset k))) := by
  have hread : ∀ {n}, Dated n →
      parseDay offset (fmtDay offset (midnight offset n)) = some (midnight offset n) := by
    intro n hn
    have hdated : Dated (localDay offset (midnight offset n)) := (localDay_midnight n).symm ▸ hn
    have h := parseDay_fmtDay_of_dated hdated
    rwa [localDay_midnight] at h
  refine ⟨hread hn, hread hk, fun hle => ?_⟩
  rw [calendarBreakdown, if_neg (Int.not_lt.mpr hle)]
  exact breakdownOf_spec hn.1 (midnight_le_midnight.mp hle)

/-- From 2024-01-31 to 2024-03-01 it is a month and a day. -/
theorem calendar_spec_monthEnd :
    (Dated 739281 ∧ Dated 739311) ∧
      IsBreakdown 3600000 (midnight 3600000 739281) (midnight 3600000 739311)
        (calendarBreakdown 3600000 (midnight 3600000 739281) (midnight 3600000 739311)) :=
  ⟨by decide +kernel, (calendar_spec 3600000 (by decide +kernel) (by decide +kernel)).2.2
    (by decide +kernel)⟩

end FusionLocalServer.Fmt
