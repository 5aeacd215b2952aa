import Mathlib.Data.List.Basic
import FusionLocalServer.Lib.Calendar

/-!
# Dates as YYYY-MM-DD

A date is a number of days since the start of the year 0, in the proleptic Gregorian
calendar; before that the number is negative. `parseDate` and `formatDate` are `time.Parse`
and `Time.Format` with the layout `2006-01-02`. A year takes four digits when they are
enough and as many as it needs when they are not, so what is formatted reads back for the
years 0 to 9999 only. There the text determines the date and is determined by it, and the
order of the texts is that of the dates.
-/

namespace Lib

/-! ## Days before the year 0 -/

/-- The days of 400 years. -/
def daysPerEra : Nat := 146097

/-- The days of the years with four digits. -/
def endOfYears : Int := daysBeforeYear 10000

/-- The year a day falls in, the month and the day of the month. The calendar repeats every
400 years. -/
def dateOfDay (n : Int) : Int × Nat × Nat :=
  let day := (n % daysPerEra).toNat
  let y := yearOfDay day
  let d := day - daysBeforeYear y
  let m := monthOfDay (isLeap y) d
  (400 * (n / daysPerEra) + y, m, d - daysBeforeMonth (isLeap y) m + 1)

/-- `appendInt`: a number padded with zeros to a width. -/
def appendInt (z : Int) (width : Nat) : List Char :=
  let ds := Nat.toDigits 10 z.natAbs
  (if z < 0 then ['-'] else []) ++ List.replicate (width - ds.length) '0' ++ ds

/-- `Format("2006-01-02")` -/
def formatDate (n : Int) : List Char :=
  let (y, m, d) := dateOfDay n
  appendInt y 4 ++ '-' :: (appendInt m 2 ++ '-' :: appendInt d 2)

/-- `time.Parse("2006-01-02", s)` -/
def parseDate (cs : List Char) : Option Int := do
  let (y, cs) ← readUint 4 0 9999 cs
  let cs ← readChar '-' cs
  let (m, cs) ← readUint 2 1 12 cs
  let cs ← readChar '-' cs
  let (d, cs) ← readUint 2 1 (daysIn (isLeap y) m) cs
  match cs with
  | [] => some ((daysBeforeYear y + daysBeforeMonth (isLeap y) m + (d - 1) : Nat) : Int)
  | _ => none

/-- The text of a year, a month and a day of the month. -/
def writeDate (y m d : Nat) : List Char :=
  fixedDigits 4 y ++ '-' :: (fixedDigits 2 m ++ '-' :: fixedDigits 2 d)

/-- The day a year, a month and a day of the month are. -/
def dayOfDate (y m d : Nat) : Nat := daysBeforeYear y + daysBeforeMonth (isLeap y) m + (d - 1)

/-- There is such a day in the four-digit years. -/
structure IsDate (y m d : Nat) : Prop where
  year : y ≤ 9999
  month : 1 ≤ m
  month_le : m ≤ 12
  day : 1 ≤ d
  day_le : d ≤ daysIn (isLeap y) m

/-! ## Reading -/

/-- A number of fixed width is read from its rendering only. -/
theorem readUint_some {width lo hi n : Nat} {cs rest : List Char}
    (h : readUint width lo hi cs = some (n, rest)) :
    cs = fixedDigits width n ++ rest ∧ lo ≤ n ∧ n ≤ hi := by
  unfold readUint at h
  simp only at h
  split at h
  · next hread =>
    obtain ⟨hlen, hdigits, hlo, hhi⟩ := hread
    cases h
    have hcanon := fixedDigits_ofDigitChars (List.all_eq_true.mp hdigits)
    rw [hlen] at hcanon
    exact ⟨by rw [hcanon, List.take_append_drop], hlo, hhi⟩
  · cases h

theorem readChar_some {c : Char} {cs rest : List Char} (h : readChar c cs = some rest) :
    cs = c :: rest := by
  unfold readChar at h
  split at h
  · cases h
  · split at h
    · next heq =>
      cases h
      rw [heq]
    · cases h

theorem IsDate.day_lt {y m d : Nat} (h : IsDate y m d) : d < 10 ^ 2 := by
  have := daysIn_le (isLeap y) h.month_le
  have := h.day_le
  omega

/-- **What reads as a date is the text of one.** -/
theorem parseDate_iff {cs : List Char} {n : Int} :
    parseDate cs = some n ↔
      ∃ y m d, IsDate y m d ∧ cs = writeDate y m d ∧ n = dayOfDate y m d := by
  constructor
  · intro h
    unfold parseDate at h
    obtain ⟨⟨y, cs₁⟩, hy, h⟩ := Option.bind_eq_some_iff.mp h
    obtain ⟨cs₂, hdash, h⟩ := Option.bind_eq_some_iff.mp h
    obtain ⟨⟨m, cs₃⟩, hm, h⟩ := Option.bind_eq_some_iff.mp h
    obtain ⟨cs₄, hdash', h⟩ := Option.bind_eq_some_iff.mp h
    obtain ⟨⟨d, cs₅⟩, hd, hend⟩ := Option.bind_eq_some_iff.mp h
    obtain ⟨rfl, -, hyear⟩ := readUint_some hy
    obtain rfl := readChar_some hdash
    obtain ⟨rfl, hm1, hm12⟩ := readUint_some hm
    obtain rfl := readChar_some hdash'
    obtain ⟨rfl, hd1, hdays⟩ := readUint_some hd
    cases cs₅ with
    | nil =>
      cases hend
      exact ⟨y, m, d, ⟨hyear, hm1, hm12, hd1, hdays⟩, by rw [List.append_nil]; rfl, rfl⟩
    | cons _ _ => cases hend
  · rintro ⟨y, m, d, hdate, rfl, rfl⟩
    have hd := hdate.day_lt
    obtain ⟨hy, hm1, hm12, hd1, hdays⟩ := hdate
    have hday := readUint_fixedDigits hd1 hdays hd []
    rw [List.append_nil] at hday
    unfold parseDate writeDate
    rw [readUint_bind (by omega) hy (by omega)]
    dsimp only
    rw [readChar_bind, readUint_bind hm1 hm12 (by omega)]
    dsimp only
    rw [readChar_bind, hday]
    rfl

/-! ## Writing -/

theorem appendInt_of_lt {n width : Nat} (hwidth : 0 < width) (h : n < 10 ^ width) :
    appendInt n width = fixedDigits width n := by
  have hsign : ¬ (n : Int) < 0 := Int.not_lt.mpr (Int.natCast_nonneg n)
  unfold appendInt
  dsimp only
  rw [if_neg hsign, List.nil_append, Int.natAbs_natCast]
  exact replicate_append_toDigits hwidth h

theorem daysBeforeYear_era (e y : Nat) :
    daysBeforeYear (400 * e + y) = daysPerEra * e + daysBeforeYear y := by
  unfold daysBeforeYear daysPerEra
  omega

theorem isLeap_era (e y : Nat) : isLeap (400 * e + y) = isLeap y := by
  have h4 : (400 * e + y) % 4 = y % 4 := by omega
  have h100 : (400 * e + y) % 100 = y % 100 := by omega
  have h400 : (400 * e + y) % 400 = y % 400 := by omega
  unfold isLeap
  rw [h4, h100, h400]

/-- A day of the four-digit years has a date there. -/
theorem dateOfDay_spec {n : Int} (hlo : 0 ≤ n) (hhi : n < endOfYears) :
    ∃ y m d : Nat, dateOfDay n = ((y : Int), m, d) ∧ IsDate y m d ∧ n = dayOfDate y m d := by
  obtain ⟨k, rfl⟩ := Int.eq_ofNat_of_zero_le hlo
  have hend : k < 3652425 := by
    have : endOfYears = 3652425 := by decide
    omega
  have hk : (k : Int) = ((daysPerEra * (k / daysPerEra) + k % daysPerEra : Nat) : Int) := by
    rw [Nat.div_add_mod]
  generalize hE : k / daysPerEra = e at hk
  generalize hD : k % daysPerEra = day at hk
  have hday : day < 146097 := hD ▸ Nat.mod_lt _ (by decide)
  have he : e ≤ 24 := by
    rw [← hE]
    unfold daysPerEra
    omega
  obtain ⟨hy, hy'⟩ := yearOfDay_spec day
  rw [daysBeforeYear_succ] at hy'
  obtain ⟨hm1, hm12, hmlo, hmhi⟩ := monthOfDay_spec (isLeap (yearOfDay day))
    (d := day - daysBeforeYear (yearOfDay day)) (by omega)
  have hyear : yearOfDay day ≤ 399 := by
    have := (daysBeforeYear_bounds (yearOfDay day)).1
    omega
  refine ⟨400 * e + yearOfDay day, monthOfDay (isLeap (yearOfDay day))
    (day - daysBeforeYear (yearOfDay day)), day - daysBeforeYear (yearOfDay day) -
      daysBeforeMonth (isLeap (yearOfDay day)) (monthOfDay (isLeap (yearOfDay day))
        (day - daysBeforeYear (yearOfDay day))) + 1, ?_, ⟨by omega, hm1, hm12, by omega, ?_⟩, ?_⟩
  · have hday : ((k : Int) % daysPerEra).toNat = day := hD
    have hera : (k : Int) / daysPerEra = e := congrArg Int.ofNat hE
    unfold dateOfDay
    rw [hday, hera]
    rfl
  · rw [isLeap_era, daysIn]
    omega
  · rw [hk, dayOfDate, isLeap_era, daysBeforeYear_era]
    omega

/-- Such a day is written as its date. -/
theorem formatDate_of_date {n : Int} (hlo : 0 ≤ n) (hhi : n < endOfYears) :
    ∃ y m d : Nat, formatDate n = writeDate y m d ∧ IsDate y m d ∧ n = dayOfDate y m d := by
  obtain ⟨y, m, d, hdate, hok, hn⟩ := dateOfDay_spec hlo hhi
  refine ⟨y, m, d, ?_, hok, hn⟩
  have hy := hok.year
  have hm := hok.month_le
  unfold formatDate
  rw [hdate]
  dsimp only
  rw [appendInt_of_lt (by decide) (by omega), appendInt_of_lt (by decide) (by omega),
    appendInt_of_lt (by decide) hok.day_lt]
  rfl

/-- **A date of the four-digit years reads back from its text.** -/
theorem parseDate_formatDate {n : Int} (hlo : 0 ≤ n) (hhi : n < endOfYears) :
    parseDate (formatDate n) = some n := by
  obtain ⟨y, m, d, htext, hdate, hn⟩ := formatDate_of_date hlo hhi
  exact parseDate_iff.mpr ⟨y, m, d, hdate, htext, hn⟩

/-- The text of a year before 0 or after 9999 is not that of a year with four digits. -/
theorem appendInt_out {y : Int} (h : y < 0 ∨ 9999 < y) {n : Nat} {us vs : List Char} :
    appendInt y 4 ++ '-' :: us ≠ fixedDigits 4 n ++ '-' :: vs := by
  intro heq
  have hdigit := isDigit_of_mem_fixedDigits 4 n
  have hlen := length_fixedDigits 4 n
  unfold appendInt at heq
  dsimp only at heq
  rcases h with hneg | hbig
  · -- a sign stands where the first digit is to be
    rw [if_pos hneg] at heq
    generalize fixedDigits 4 n = ds at *
    cases ds with
    | nil => cases hlen
    | cons d ds =>
      have hsign : '-' = d := (List.cons.inj heq).1
      exact absurd (hdigit d List.mem_cons_self) (hsign ▸ by decide)
  · -- a digit stands where the dash is to be
    rw [if_neg (by omega), List.nil_append] at heq
    have hdigits : ∀ c ∈ Nat.toDigits 10 y.natAbs, c.isDigit = true := fun c hc =>
      isDigit_of_mem_toDigits hc
    have hlong : 4 < (Nat.toDigits 10 y.natAbs).length := by
      by_contra hcon
      have := (Nat.length_toDigits_le_iff (b := 10) (by decide) (by decide)).mp (Nat.not_lt.mp hcon)
      omega
    rw [Nat.sub_eq_zero_of_le (Nat.le_of_lt hlong), List.replicate_zero, List.nil_append] at heq
    have hfifth := congrArg (fun cs : List Char => cs[4]?) heq
    beta_reduce at hfifth
    rw [List.getElem?_append_left hlong, List.getElem?_append_right (Nat.le_of_eq hlen), hlen]
      at hfifth
    have hmem := List.mem_of_getElem? (hfifth.trans (by rfl : _ = some '-'))
    exact absurd (hdigits _ hmem) (by decide)

/-- **Only dates of the four-digit years read back at all.** -/
theorem parseDate_formatDate_iff {n : Int} :
    parseDate (formatDate n) ≠ none ↔ 0 ≤ n ∧ n < endOfYears := by
  constructor
  · intro h
    obtain ⟨k, hk⟩ := Option.ne_none_iff_exists'.mp h
    obtain ⟨y, m, d, -, htext, -⟩ := parseDate_iff.mp hk
    have hyear : ¬ ((dateOfDay n).1 < 0 ∨ 9999 < (dateOfDay n).1) := fun hout =>
      appendInt_out hout htext
    have hspec := yearOfDay_spec (n % daysPerEra).toNat
    have hbounds := daysBeforeYear_bounds (yearOfDay (n % daysPerEra).toNat)
    have hend : endOfYears = 3652425 := by decide
    have hera : (daysPerEra : Int) = 146097 := rfl
    have hday : ((n % daysPerEra).toNat : Int) = n % daysPerEra :=
      Int.toNat_of_nonneg (Int.emod_nonneg n (by decide))
    unfold dateOfDay at hyear
    dsimp only at hyear
    generalize (n % daysPerEra).toNat = day at *
    rw [hera] at hday hyear
    rw [hend]
    omega
  · rintro ⟨hlo, hhi⟩
    rw [parseDate_formatDate hlo hhi]
    exact Option.some_ne_none n

/-! ## Order -/

theorem daysBeforeMonth_mono (leap : Bool) {m m' : Nat} (h : m < m') (h' : m' ≤ 13) :
    daysBeforeMonth leap (m + 1) ≤ daysBeforeMonth leap m' := by
  have hall : ∀ leap : Bool, ∀ m' : Nat, m' < 14 → ∀ m : Nat, m < m' →
      daysBeforeMonth leap (m + 1) ≤ daysBeforeMonth leap m' := by decide
  exact hall leap m' (by omega) m h

theorem daysBeforeYear_mono {y y' : Nat} (h : y ≤ y') : daysBeforeYear y ≤ daysBeforeYear y' := by
  induction h with
  | refl => exact Nat.le_refl _
  | step _ ih =>
    rw [Nat.succ_eq_add_one, daysBeforeYear_succ]
    exact Nat.le_add_right_of_le ih

/-- A later year, month or day of the month makes a later day. -/
theorem dayOfDate_lt {y m d y' m' d' : Nat} (h : IsDate y m d) (h' : IsDate y' m' d')
    (hlt : y < y' ∨ y = y' ∧ (m < m' ∨ m = m' ∧ d < d')) :
    dayOfDate y m d < dayOfDate y' m' d' := by
  have hmonth : dayOfDate y m d < daysBeforeYear y + daysBeforeMonth (isLeap y) (m + 1) := by
    have hday := h.day_le
    have hone := h.day
    unfold daysIn at hday
    unfold dayOfDate
    omega
  rcases hlt with hy | ⟨rfl, hm | ⟨rfl, hd⟩⟩
  · have hyear : daysBeforeMonth (isLeap y) (m + 1) ≤ daysBeforeMonth (isLeap y) 13 :=
      daysBeforeMonth_mono _ (Nat.lt_succ_of_le h.month_le) (Nat.le_refl 13)
    have hyears := daysBeforeYear_mono (Nat.succ_le_of_lt hy)
    rw [Nat.succ_eq_add_one, daysBeforeYear_succ] at hyears
    unfold dayOfDate at hmonth ⊢
    omega
  · have hmonths := daysBeforeMonth_mono (isLeap y) hm (Nat.le_succ_of_le h'.month_le)
    unfold dayOfDate at hmonth ⊢
    omega
  · have hone := h.day
    unfold dayOfDate
    omega

/-- A later day is one of a later year, month or day of the month. -/
theorem date_lt {y m d y' m' d' : Nat} (h : IsDate y m d) (h' : IsDate y' m' d')
    (hlt : dayOfDate y m d < dayOfDate y' m' d') :
    y < y' ∨ y = y' ∧ (m < m' ∨ m = m' ∧ d < d') := by
  by_contra hnot
  have hback : y' < y ∨ y' = y ∧ (m' < m ∨ m' = m ∧ d' < d) ∨ y' = y ∧ m' = m ∧ d' = d := by
    omega
  rcases hback with hy | hm | ⟨rfl, rfl, rfl⟩
  · exact Nat.lt_asymm hlt (dayOfDate_lt h' h (.inl hy))
  · exact Nat.lt_asymm hlt (dayOfDate_lt h' h (.inr hm))
  · exact Nat.lt_irrefl _ hlt

/-- A day is that of one date. -/
theorem dayOfDate_injective {y m d y' m' d' : Nat} (h : IsDate y m d) (h' : IsDate y' m' d')
    (heq : dayOfDate y m d = dayOfDate y' m' d') : y = y' ∧ m = m' ∧ d = d' := by
  have hnot : ∀ {y m d y' m' d'}, IsDate y m d → IsDate y' m' d' →
      dayOfDate y m d = dayOfDate y' m' d' →
      ¬ (y < y' ∨ y = y' ∧ (m < m' ∨ m = m' ∧ d < d')) := fun h h' heq hlt =>
    absurd (dayOfDate_lt h h' hlt) (by omega)
  have := hnot h h' heq
  have := hnot h' h heq.symm
  omega

/-- The order of the texts is that of the dates. -/
theorem writeDate_lt {y m d y' m' d' : Nat} (h : IsDate y m d) (h' : IsDate y' m' d')
    (hlt : dayOfDate y m d < dayOfDate y' m' d') : writeDate y m d < writeDate y' m' d' := by
  have hy' := h'.year
  have hm' := h'.month_le
  have hlen : ∀ k a b, (fixedDigits k a).length = (fixedDigits k b).length := fun k a b => by
    rw [length_fixedDigits, length_fixedDigits]
  unfold writeDate
  rcases date_lt h h' hlt with hy | ⟨rfl, hrest⟩
  · exact lt_append (hlen 4 _ _) (fixedDigits_lt hy (by omega)) _ _
  · refine List.append_left_lt (List.cons_lt_cons_iff.mpr (.inr ⟨rfl, ?_⟩))
    rcases hrest with hm | ⟨rfl, hd⟩
    · exact lt_append (hlen 2 _ _) (fixedDigits_lt hm (by omega)) _ _
    · exact List.append_left_lt
        (List.cons_lt_cons_iff.mpr (.inr ⟨rfl, fixedDigits_lt hd h'.day_lt⟩))

/-- A date has one text. -/
theorem formatDate_parseDate {cs : List Char} {n : Int} (h : parseDate cs = some n) :
    formatDate n = cs ∧ 0 ≤ n ∧ n < endOfYears := by
  obtain ⟨y, m, d, hdate, rfl, rfl⟩ := parseDate_iff.mp h
  have hend : dayOfDate y m d < daysBeforeYear 10000 := by
    have hlast : IsDate 9999 12 31 := ⟨by decide, by decide, by decide, by decide, by decide⟩
    have hlastday : dayOfDate 9999 12 31 + 1 = daysBeforeYear 10000 := by decide
    have hdays := daysIn_le (isLeap y) hdate.month_le
    have hday := hdate.day_le
    have hy := hdate.year
    have hm := hdate.month_le
    by_contra hcon
    have := date_lt hlast hdate (by omega)
    omega
  obtain ⟨y', m', d', htext, hdate', hn⟩ := formatDate_of_date (Int.natCast_nonneg _)
    (Int.ofNat_lt.mpr hend)
  refine ⟨?_, Int.natCast_nonneg _, Int.ofNat_lt.mpr hend⟩
  have hsame := dayOfDate_injective hdate hdate' (Int.ofNat_inj.mp hn)
  rw [htext, hsame.1, hsame.2.1, hsame.2.2]

/-- **Dates are in order when their texts are.** -/
theorem parseDate_le {cs cs' : List Char} {n n' : Int} (h : parseDate cs = some n)
    (h' : parseDate cs' = some n') : n ≤ n' ↔ ¬ cs' < cs := by
  have htext := (formatDate_parseDate h).1
  have htext' := (formatDate_parseDate h').1
  have hlt : ∀ {cs cs' n n'}, parseDate cs = some n → parseDate cs' = some n' → n < n' →
      cs < cs' := by
    intro cs cs' n n' h h' hlt
    obtain ⟨y, m, d, hdate, rfl, rfl⟩ := parseDate_iff.mp h
    obtain ⟨y', m', d', hdate', rfl, rfl⟩ := parseDate_iff.mp h'
    exact writeDate_lt hdate hdate' (Int.ofNat_lt.mp hlt)
  constructor
  · intro hle hback
    rcases Int.lt_or_eq_of_le hle with hforth | rfl
    · exact List.lt_asymm hback (hlt h h' hforth)
    · rw [← htext, ← htext'] at hback
      exact List.lt_irrefl _ hback
  · intro hnot
    by_contra hcon
    exact hnot (hlt h' h (Int.not_le.mp hcon))

end Lib
