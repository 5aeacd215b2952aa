import FusionLocalServer.Lib.Date

/-!
# Instants as YYYYMMDD-hhmmss

An instant is a number of seconds since the start of the year 0, in UTC. `formatStamp` and
`parseStamp` are `Time.Format` and `time.Parse` with the layout `20060102-150405`. In the
four-digit years an instant reads back from its stamp, stamps have one length, and their
order is that of the instants.
-/

namespace Lib

/-- The length of a stamp. -/
def stampLength : Nat := 15

/-- `Format("20060102-150405")` -/
def formatStamp (s : Int) : List Char :=
  let (y, m, d) := dateOfDay (s / secondsPerDay)
  let sec := (s % secondsPerDay).toNat
  appendInt y 4 ++ (appendInt m 2 ++ (appendInt d 2 ++ '-' ::
    (appendInt (sec / 3600 : Nat) 2 ++ (appendInt (sec / 60 % 60 : Nat) 2 ++
      appendInt (sec % 60 : Nat) 2))))

/-- `time.Parse("20060102-150405", s)` -/
def parseStamp (cs : List Char) : Option Int := do
  let (y, cs) ← readUint 4 0 9999 cs
  let (m, cs) ← readUint 2 1 12 cs
  let (d, cs) ← readUint 2 1 (daysIn (isLeap y) m) cs
  let cs ← readChar '-' cs
  let (hour, cs) ← readUint 2 0 23 cs
  let (min, cs) ← readUint 2 0 59 cs
  let (sec, cs) ← readUint 2 0 59 cs
  match cs with
  | [] => some (((daysBeforeYear y + daysBeforeMonth (isLeap y) m + (d - 1)) * secondsPerDay +
      (hour * 3600 + min * 60 + sec) : Nat) : Int)
  | _ => none

/-- The text of a date and a time of the day. -/
def writeStamp (y m d hour min sec : Nat) : List Char :=
  fixedDigits 4 y ++ (fixedDigits 2 m ++ (fixedDigits 2 d ++ '-' ::
    (fixedDigits 2 hour ++ (fixedDigits 2 min ++ fixedDigits 2 sec))))

/-- There is such a time of the day. -/
structure IsTime (hour min sec : Nat) : Prop where
  hour : hour ≤ 23
  min : min ≤ 59
  sec : sec ≤ 59

/-- The second of the day. -/
def secondOfTime (hour min sec : Nat) : Nat := hour * 3600 + min * 60 + sec

/-- The end of the four-digit years. -/
def endOfStamps : Int := endOfYears * secondsPerDay

theorem length_writeStamp (y m d hour min sec : Nat) :
    (writeStamp y m d hour min sec).length = stampLength := by
  unfold writeStamp stampLength
  simp only [List.length_append, List.length_cons, length_fixedDigits]

/-- **What reads as an instant is the stamp of one.** -/
theorem parseStamp_iff {cs : List Char} {s : Int} :
    parseStamp cs = some s ↔ ∃ y m d hour min sec, IsDate y m d ∧ IsTime hour min sec ∧
      cs = writeStamp y m d hour min sec ∧
      s = (dayOfDate y m d * secondsPerDay + secondOfTime hour min sec : Nat) := by
  constructor
  · intro h
    unfold parseStamp at h
    obtain ⟨⟨y, cs₁⟩, hy, h⟩ := Option.bind_eq_some_iff.mp h
    obtain ⟨⟨m, cs₂⟩, hm, h⟩ := Option.bind_eq_some_iff.mp h
    obtain ⟨⟨d, cs₃⟩, hd, h⟩ := Option.bind_eq_some_iff.mp h
    obtain ⟨cs₄, hdash, h⟩ := Option.bind_eq_some_iff.mp h
    obtain ⟨⟨hour, cs₅⟩, hhour, h⟩ := Option.bind_eq_some_iff.mp h
    obtain ⟨⟨min, cs₆⟩, hmin, h⟩ := Option.bind_eq_some_iff.mp h
    obtain ⟨⟨sec, cs₇⟩, hsec, hend⟩ := Option.bind_eq_some_iff.mp h
    obtain ⟨rfl, -, hyear⟩ := readUint_some hy
    obtain ⟨rfl, hm1, hm12⟩ := readUint_some hm
    obtain ⟨rfl, hd1, hdays⟩ := readUint_some hd
    obtain rfl := readChar_some hdash
    obtain ⟨rfl, -, hh⟩ := readUint_some hhour
    obtain ⟨rfl, -, hmi⟩ := readUint_some hmin
    obtain ⟨rfl, -, hs⟩ := readUint_some hsec
    cases cs₇ with
    | nil =>
      cases hend
      refine ⟨y, m, d, hour, min, sec, ⟨hyear, hm1, hm12, hd1, hdays⟩, ⟨hh, hmi, hs⟩, ?_, rfl⟩
      rw [List.append_nil]
      rfl
    | cons _ _ => cases hend
  · rintro ⟨y, m, d, hour, min, sec, hdate, ⟨hh, hmi, hs⟩, rfl, rfl⟩
    have hd := hdate.day_lt
    obtain ⟨hy, hm1, hm12, hd1, hdays⟩ := hdate
    have hsec := readUint_fixedDigits (Nat.zero_le sec) hs (show sec < 10 ^ 2 by omega) []
    rw [List.append_nil] at hsec
    unfold parseStamp writeStamp
    rw [readUint_bind (by omega) hy (by omega)]
    dsimp only
    rw [readUint_bind hm1 hm12 (by omega)]
    dsimp only
    rw [readUint_bind hd1 hdays hd]
    dsimp only
    rw [readChar_bind, readUint_bind (by omega) hh (by omega)]
    dsimp only
    rw [readUint_bind (by omega) hmi (by omega)]
    dsimp only
    rw [hsec]
    rfl

/-- An instant of the four-digit years has a date and a time of the day. -/
theorem formatStamp_of_range {s : Int} (hlo : 0 ≤ s) (hhi : s < endOfStamps) :
    ∃ y m d hour min sec, formatStamp s = writeStamp y m d hour min sec ∧ IsDate y m d ∧
      IsTime hour min sec ∧
      s = (dayOfDate y m d * secondsPerDay + secondOfTime hour min sec : Nat) := by
  have hday : (secondsPerDay : Int) = 86400 := rfl
  have hend : endOfStamps = endOfYears * 86400 := rfl
  obtain ⟨y, m, d, hdate, hok, hn⟩ := dateOfDay_spec (n := s / secondsPerDay)
    (by rw [hday]; omega) (by rw [hday]; omega)
  have hrest : (s % secondsPerDay).toNat < 86400 := by rw [hday]; omega
  have hback : ((s % secondsPerDay).toNat : Int) = s % secondsPerDay :=
    Int.toNat_of_nonneg (Int.emod_nonneg s (by decide))
  have hsplit := Int.ediv_mul_add_emod s secondsPerDay
  unfold formatStamp
  rw [hdate]
  dsimp only
  generalize (s % secondsPerDay).toNat = sec at *
  have hy := hok.year
  have hm := hok.month_le
  refine ⟨y, m, d, sec / 3600, sec / 60 % 60, sec % 60, ?_, hok, ⟨by omega, by omega, by omega⟩, ?_⟩
  · rw [appendInt_of_lt (by decide) (by omega), appendInt_of_lt (by decide) (by omega),
      appendInt_of_lt (by decide) hok.day_lt, appendInt_of_lt (by decide) (by omega),
      appendInt_of_lt (by decide) (by omega), appendInt_of_lt (by decide) (by omega)]
    rfl
  · have htime : secondOfTime (sec / 3600) (sec / 60 % 60) (sec % 60) = sec := by
      unfold secondOfTime
      omega
    rw [htime, ← hsplit, hn]
    push_cast
    rw [hback]

theorem parseStamp_formatStamp {s : Int} (hlo : 0 ≤ s) (hhi : s < endOfStamps) :
    parseStamp (formatStamp s) = some s := by
  obtain ⟨y, m, d, hour, min, sec, htext, hdate, htime, hs⟩ := formatStamp_of_range hlo hhi
  exact parseStamp_iff.mpr ⟨y, m, d, hour, min, sec, hdate, htime, htext, hs⟩

theorem length_formatStamp {s : Int} (hlo : 0 ≤ s) (hhi : s < endOfStamps) :
    (formatStamp s).length = stampLength := by
  obtain ⟨y, m, d, hour, min, sec, htext, -⟩ := formatStamp_of_range hlo hhi
  rw [htext, length_writeStamp]

theorem length_of_parseStamp {cs : List Char} {s : Int} (h : parseStamp cs = some s) :
    cs.length = stampLength := by
  obtain ⟨y, m, d, hour, min, sec, -, -, rfl, -⟩ := parseStamp_iff.mp h
  exact length_writeStamp ..

theorem secondOfTime_lt {hour min sec : Nat} (h : IsTime hour min sec) :
    secondOfTime hour min sec < 86400 := by
  have := h.hour
  have := h.min
  have := h.sec
  unfold secondOfTime
  omega

/-- The order of the stamps is that of the instants. -/
theorem parseStamp_lt {cs cs' : List Char} {s s' : Int} (h : parseStamp cs = some s)
    (h' : parseStamp cs' = some s') (hlt : s < s') : cs < cs' := by
  obtain ⟨y, m, d, hour, min, sec, hdate, htime, rfl, rfl⟩ := parseStamp_iff.mp h
  obtain ⟨y', m', d', hour', min', sec', hdate', htime', rfl, rfl⟩ := parseStamp_iff.mp h'
  have hlen : ∀ k a b, (fixedDigits k a).length = (fixedDigits k b).length := fun k a b => by
    rw [length_fixedDigits, length_fixedDigits]
  have hy' := hdate'.year
  have hm' := hdate'.month_le
  have hh' := htime'.hour
  have hmi' := htime'.min
  have hs' := htime'.sec
  have hlt := Int.ofNat_lt.mp hlt
  have hsec := secondOfTime_lt htime
  have hsec' := secondOfTime_lt htime'
  have hsize : secondsPerDay = 86400 := rfl
  rw [hsize] at hlt
  have hday : y < y' ∨ y = y' ∧ (m < m' ∨ m = m' ∧ (d < d' ∨ d = d' ∧
      secondOfTime hour min sec < secondOfTime hour' min' sec')) := by
    by_cases hd : dayOfDate y m d < dayOfDate y' m' d'
    · have := date_lt hdate hdate' hd
      omega
    · have hsame : dayOfDate y m d = dayOfDate y' m' d' := by omega
      have := dayOfDate_injective hdate hdate' hsame
      omega
  unfold writeStamp
  rcases hday with hy | ⟨rfl, hm | ⟨rfl, hd | ⟨rfl, ht⟩⟩⟩
  · exact lt_append (hlen 4 _ _) (fixedDigits_lt hy (by omega)) _ _
  · exact List.append_left_lt (lt_append (hlen 2 _ _) (fixedDigits_lt hm (by omega)) _ _)
  · exact List.append_left_lt (List.append_left_lt
      (lt_append (hlen 2 _ _) (fixedDigits_lt hd hdate'.day_lt) _ _))
  · refine List.append_left_lt (List.append_left_lt (List.append_left_lt
      (List.cons_lt_cons_iff.mpr (.inr ⟨rfl, ?_⟩))))
    have hmin := htime.min
    have hsec := htime.sec
    unfold secondOfTime at ht
    rcases Nat.lt_trichotomy hour hour' with hh | rfl | hh
    · exact lt_append (hlen 2 _ _) (fixedDigits_lt hh (by omega)) _ _
    · refine List.append_left_lt ?_
      rcases Nat.lt_trichotomy min min' with hmi | rfl | hmi
      · exact lt_append (hlen 2 _ _) (fixedDigits_lt hmi (by omega)) _ _
      · exact List.append_left_lt (fixedDigits_lt (by omega) (by omega))
      · omega
    · omega

theorem parseStamp_injective {cs cs' : List Char} {s : Int} (h : parseStamp cs = some s)
    (h' : parseStamp cs' = some s) : cs = cs' := by
  obtain ⟨y, m, d, hour, min, sec, hdate, htime, rfl, hs⟩ := parseStamp_iff.mp h
  obtain ⟨y', m', d', hour', min', sec', hdate', htime', rfl, hs'⟩ := parseStamp_iff.mp h'
  have hsec := secondOfTime_lt htime
  have hsec' := secondOfTime_lt htime'
  have hsize : secondsPerDay = 86400 := rfl
  have heq := Int.ofNat_inj.mp (hs.symm.trans hs')
  rw [hsize] at heq
  have hday : dayOfDate y m d = dayOfDate y' m' d' := by omega
  obtain ⟨rfl, rfl, rfl⟩ := dayOfDate_injective hdate hdate' hday
  have hmin := htime.min
  have hsec := htime.sec
  have hmin' := htime'.min
  have hsec' := htime'.sec
  unfold secondOfTime at heq
  obtain ⟨rfl, rfl, rfl⟩ : hour = hour' ∧ min = min' ∧ sec = sec' := by omega
  rfl

end Lib
