import FusionLocalServer.Lib.Date

/-!
# Weeks and months

A week runs from Monday to Sunday and belongs to the year its Thursday is in, which numbers
it (`Time.ISOWeek`). Two days have one ISO week just when they are in one week counted from
the beginning, so the numbering loses nothing across the turn of a year.

Days are counted from the start of the year 0, a Saturday.
-/

namespace Lib

/-- The weeks between the one of the first day and the one of a day. -/
def weekOfDay (n : Int) : Int := (n + 5) / 7

/-- The year of a day and the days of that year before it. -/
def yearDay (n : Int) : Int × Nat :=
  let day := (n % daysPerEra).toNat
  let y := yearOfDay day
  (400 * (n / daysPerEra) + y, day - daysBeforeYear y)

/-- `Time.ISOWeek` -/
def isoWeek (n : Int) : Int × Nat :=
  let thu := n - (n + 5) % 7 + 3
  ((yearDay thu).1, (yearDay thu).2 / 7 + 1)

/-- `Format("200601")` -/
def formatMonth (n : Int) : List Char :=
  let (y, m, _) := dateOfDay n
  appendInt y 4 ++ appendInt m 2

/-- The day a year begins with. -/
def yearStart (y : Int) : Int := daysPerEra * (y / 400) + daysBeforeYear (y % 400).toNat

theorem yearDay_spec (n : Int) : n = yearStart (yearDay n).1 + (yearDay n).2 := by
  have hday : (n % daysPerEra).toNat < 146097 := by
    have := Int.emod_lt_of_pos n (show (0 : Int) < daysPerEra by decide)
    have hera : (daysPerEra : Int) = 146097 := rfl
    omega
  have hback : ((n % daysPerEra).toNat : Int) = n % daysPerEra :=
    Int.toNat_of_nonneg (Int.emod_nonneg n (by decide))
  have hsplit := Int.mul_ediv_add_emod n daysPerEra
  unfold yearDay
  dsimp only
  generalize (n % daysPerEra).toNat = day at *
  obtain ⟨hy, -⟩ := yearOfDay_spec day
  have hyear : yearOfDay day ≤ 399 := by
    have := (daysBeforeYear_bounds (yearOfDay day)).1
    omega
  have hdiv : (400 * (n / daysPerEra) + (yearOfDay day : Int)) / 400 = n / daysPerEra := by omega
  have hmod : ((400 * (n / daysPerEra) + (yearOfDay day : Int)) % 400).toNat = yearOfDay day := by
    omega
  unfold yearStart
  rw [hdiv, hmod]
  generalize (daysPerEra : Int) * (n / daysPerEra) = e at *
  omega

/-- The day of a year, a month and a day of the month, also before the year 0. -/
def civilDay (y : Int) (m d : Nat) : Int :=
  yearStart y + daysBeforeMonth (isLeap (y % 400).toNat) m + (d - 1 : Nat)

/-- A day is that of its date. -/
theorem civilDay_dateOfDay (n : Int) :
    civilDay (dateOfDay n).1 (dateOfDay n).2.1 (dateOfDay n).2.2 = n := by
  have hyear := yearDay_spec n
  unfold yearDay at hyear
  unfold civilDay dateOfDay
  dsimp only at hyear ⊢
  generalize hday : (n % daysPerEra).toNat = day at hyear ⊢
  obtain ⟨hy, hy'⟩ := yearOfDay_spec day
  rw [daysBeforeYear_succ] at hy'
  have hera : day < 146097 := by
    have := Int.emod_lt_of_pos n (show (0 : Int) < daysPerEra by decide)
    have : (daysPerEra : Int) = 146097 := rfl
    omega
  have hlast : yearOfDay day ≤ 399 := by
    have := (daysBeforeYear_bounds (yearOfDay day)).1
    omega
  have hmod : ((400 * (n / daysPerEra) + (yearOfDay day : Int)) % 400).toNat = yearOfDay day := by
    omega
  obtain ⟨-, -, hmonth, -⟩ := monthOfDay_spec (isLeap (yearOfDay day))
    (d := day - daysBeforeYear (yearOfDay day)) (by omega)
  rw [hmod, Nat.add_sub_cancel]
  omega

/-- **Days have one ISO week just when they are in one week.** -/
theorem isoWeek_eq_iff {n k : Int} : isoWeek n = isoWeek k ↔ weekOfDay n = weekOfDay k := by
  have hthu : ∀ n : Int, n - (n + 5) % 7 + 3 = 7 * weekOfDay n - 2 := by
    intro n
    unfold weekOfDay
    omega
  unfold isoWeek
  dsimp only
  rw [hthu, hthu]
  constructor
  · intro h
    obtain ⟨hyear, hweek⟩ := Prod.mk.inj h
    have hn := yearDay_spec (7 * weekOfDay n - 2)
    have hk := yearDay_spec (7 * weekOfDay k - 2)
    rw [hyear] at hn
    -- seven days hold one Thursday
    omega
  · intro h
    rw [h]

theorem weekOfDay_mono {n k : Int} (h : n ≤ k) : weekOfDay n ≤ weekOfDay k := by
  unfold weekOfDay
  omega

/-- A day between two of one ISO week is of it. -/
theorem isoWeek_between {a b c : Int} (hab : a ≤ b) (hbc : b ≤ c) (h : isoWeek a = isoWeek c) :
    isoWeek b = isoWeek c := by
  have hac := isoWeek_eq_iff.mp h
  have := weekOfDay_mono hab
  have := weekOfDay_mono hbc
  exact isoWeek_eq_iff.mpr (by omega)

/-- In the four-digit years a month is written as its year and its number. -/
theorem formatMonth_of_date {n : Int} (hlo : 0 ≤ n) (hhi : n < endOfYears) :
    ∃ y m d : Nat, formatMonth n = fixedDigits 4 y ++ fixedDigits 2 m ∧ IsDate y m d ∧
      n = dayOfDate y m d := by
  obtain ⟨y, m, d, hdate, hok, hn⟩ := dateOfDay_spec hlo hhi
  refine ⟨y, m, d, ?_, hok, hn⟩
  have hy := hok.year
  have hm := hok.month_le
  unfold formatMonth
  rw [hdate]
  dsimp only
  rw [appendInt_of_lt (by decide) (by omega), appendInt_of_lt (by decide) (by omega)]

theorem fixedDigits_injective {k a b : Nat} (ha : a < 10 ^ k) (hb : b < 10 ^ k)
    (h : fixedDigits k a = fixedDigits k b) : a = b := by
  have hread := congrArg (fun ds => Nat.ofDigitChars 10 ds 0) h
  rwa [ofDigitChars_fixedDigits, ofDigitChars_fixedDigits, Nat.mod_eq_of_lt ha,
    Nat.mod_eq_of_lt hb] at hread

/-- A day between two of one month is of it. -/
theorem formatMonth_between {a b c : Int} (ha : 0 ≤ a) (hc : c < endOfYears) (hab : a ≤ b)
    (hbc : b ≤ c) (h : formatMonth a = formatMonth c) : formatMonth b = formatMonth c := by
  obtain ⟨y, m, d, htext, hdate, rfl⟩ := formatMonth_of_date ha (by omega)
  obtain ⟨y', m', d', htext', hdate', rfl⟩ := formatMonth_of_date (n := b) (by omega) (by omega)
  obtain ⟨y'', m'', d'', htext'', hdate'', rfl⟩ := formatMonth_of_date (n := c) (by omega) hc
  have hyear := hdate.year
  have hyear'' := hdate''.year
  have hmonth := hdate.month_le
  have hmonth'' := hdate''.month_le
  rw [htext, htext''] at h
  have hlen : (fixedDigits 4 y).length = (fixedDigits 4 y'').length := by
    rw [length_fixedDigits, length_fixedDigits]
  obtain ⟨hys, hms⟩ := List.append_inj h hlen
  obtain rfl := fixedDigits_injective (by omega) (by omega) hys
  obtain rfl := fixedDigits_injective (by omega) (by omega) hms
  have hlo : ¬ dayOfDate y' m' d' < dayOfDate y m d := by omega
  have hhi : ¬ dayOfDate y m d'' < dayOfDate y' m' d' := by omega
  have hsame : y' = y ∧ m' = m := by
    have hnlo : ¬ (y' < y ∨ y' = y ∧ (m' < m ∨ m' = m ∧ d' < d)) := fun hlt =>
      hlo (dayOfDate_lt hdate' hdate hlt)
    have hnhi : ¬ (y < y' ∨ y = y' ∧ (m < m' ∨ m = m' ∧ d'' < d')) := fun hlt =>
      hhi (dayOfDate_lt hdate'' hdate' hlt)
    omega
  rw [htext', htext'', hsame.1, hsame.2]

end Lib
