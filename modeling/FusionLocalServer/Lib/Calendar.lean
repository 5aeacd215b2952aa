import Mathlib.Data.List.DropRight
import FusionLocalServer.Lib.Decimal

/-!
# Instants and their RFC 3339 text

An instant is a number of nanoseconds since the start of the year 0, in the proleptic
Gregorian calendar and in UTC. `formatTime` writes one in a four-digit year as RFC 3339
with the shortest fraction (`time.Time.MarshalJSON`); `parseTime` reads RFC 3339 with any
offset and any number of fractional digits, of which nine count.

The calendar is the count of days before a year and before a month. Going back from a day
to its date takes a year from the mean length of one and corrects it by at most one.
-/

namespace Lib

/-- Nanoseconds since the start of the year 0, UTC. -/
abbrev Time := Int

/-! ## Days and dates -/

def isLeap (y : Nat) : Bool := y % 4 = 0 && (y % 100 ≠ 0 || y % 400 = 0)

/-- The days before a year, from the year 0 on. -/
def daysBeforeYear (y : Nat) : Nat := 365 * y + (y + 3) / 4 - (y + 99) / 100 + (y + 399) / 400

/-- The days of a year before a month; month 13 is the end of the year. -/
def daysBeforeMonth (leap : Bool) (m : Nat) : Nat :=
  [0, 0, 31, 59, 90, 120, 151, 181, 212, 243, 273, 304, 334, 365].getD m 0 +
    if leap && 2 < m then 1 else 0

/-- `daysIn`. -/
def daysIn (leap : Bool) (m : Nat) : Nat := daysBeforeMonth leap (m + 1) - daysBeforeMonth leap m

/-- The year a day falls in. -/
def yearOfDay (n : Nat) : Nat :=
  let y := n * 400 / 146097
  if n < daysBeforeYear y then y - 1 else if daysBeforeYear (y + 1) ≤ n then y + 1 else y

/-- The month a day of the year falls in. -/
def monthOfDay (leap : Bool) (d : Nat) : Nat :=
  ((List.range 12).filter fun m => daysBeforeMonth leap (m + 1) ≤ d).length

/-- The mean year is 146097 days in 400, and no year strays far from it. -/
theorem daysBeforeYear_bounds (y : Nat) :
    146097 * y ≤ 400 * daysBeforeYear y + 396 ∧ 400 * daysBeforeYear y ≤ 146097 * y + 699 := by
  unfold daysBeforeYear
  omega

theorem daysBeforeYear_succ (y : Nat) :
    daysBeforeYear (y + 1) = daysBeforeYear y + daysBeforeMonth (isLeap y) 13 := by
  have h4 : (y + 1 + 3) / 4 = (y + 3) / 4 + if y % 4 = 0 then 1 else 0 := by split <;> omega
  have h100 : (y + 1 + 99) / 100 = (y + 99) / 100 + if y % 100 = 0 then 1 else 0 := by
    split <;> omega
  have h400 : (y + 1 + 399) / 400 = (y + 399) / 400 + if y % 400 = 0 then 1 else 0 := by
    split <;> omega
  have hle : (y + 99) / 100 ≤ 365 * y + (y + 3) / 4 := by omega
  have hyear : daysBeforeMonth (isLeap y) 13 = 365 + if isLeap y then 1 else 0 := by
    cases isLeap y <;> rfl
  have hleap : (if isLeap y then 1 else 0) + (if y % 100 = 0 then 1 else 0) =
      (if y % 4 = 0 then 1 else 0) + if y % 400 = 0 then 1 else 0 := by
    by_cases h4 : y % 4 = 0 <;> by_cases h100 : y % 100 = 0 <;>
      by_cases h400 : y % 400 = 0 <;> first | omega | simp [isLeap, h4, h100, h400]
  have hone : (if y % 100 = 0 then 1 else 0) ≤ 1 := by split <;> omega
  unfold daysBeforeYear
  rw [h4, h100, h400, hyear]
  generalize (if isLeap y then 1 else 0) = i at hleap ⊢
  generalize (if y % 4 = 0 then 1 else 0) = i4 at hleap ⊢
  generalize (if y % 100 = 0 then 1 else 0) = i100 at hleap hone ⊢
  generalize (if y % 400 = 0 then 1 else 0) = i400 at hleap ⊢
  omega

theorem daysIn_le (leap : Bool) {m : Nat} (h : m ≤ 12) : daysIn leap m ≤ 31 := by
  have hall : ∀ leap : Bool, ∀ m : Nat, m < 13 → daysIn leap m ≤ 31 := by decide
  exact hall leap m (by omega)

theorem yearOfDay_spec (n : Nat) :
    daysBeforeYear (yearOfDay n) ≤ n ∧ n < daysBeforeYear (yearOfDay n + 1) := by
  have hlo : 146097 * (n * 400 / 146097) ≤ n * 400 := Nat.mul_div_le ..
  have hhi : n * 400 < 146097 * (n * 400 / 146097 + 1) := by omega
  unfold yearOfDay
  generalize n * 400 / 146097 = y at hlo hhi
  simp only
  split
  · next h =>
    -- the estimate is a year too late
    cases y with
    | zero => exact absurd h (Nat.not_lt_zero n)
    | succ y =>
      have := (daysBeforeYear_bounds y).2
      rw [Nat.add_sub_cancel]
      omega
  · split
    · -- a year too early
      have := (daysBeforeYear_bounds (y + 1 + 1)).1
      omega
    · omega

/-- Every day of a year is in one of its months. -/
theorem monthOfDay_spec (leap : Bool) {d : Nat} (h : d < daysBeforeMonth leap 13) :
    1 ≤ monthOfDay leap d ∧ monthOfDay leap d ≤ 12 ∧
      daysBeforeMonth leap (monthOfDay leap d) ≤ d ∧
      d < daysBeforeMonth leap (monthOfDay leap d + 1) := by
  have hall : ∀ leap : Bool, ∀ d : Nat, d < 366 → d < daysBeforeMonth leap 13 →
      1 ≤ monthOfDay leap d ∧ monthOfDay leap d ≤ 12 ∧
      daysBeforeMonth leap (monthOfDay leap d) ≤ d ∧
      d < daysBeforeMonth leap (monthOfDay leap d + 1) := by decide +kernel
  refine hall leap d (Nat.lt_of_lt_of_le h ?_) h
  cases leap <;> decide

/-! ## RFC 3339 -/

def secondsPerDay : Nat := 86400

def nanosPerSecond : Nat := 1000000000

/-- The fraction of a second, without trailing zeros. -/
def formatFraction (ns : Nat) : List Char :=
  match (fixedDigits 9 ns).rdropWhile (fun c => c = '0') with
  | [] => []
  | c :: ds => '.' :: c :: ds

/-- `appendFormatRFC3339` in UTC, of a day, a second of the day and a nanosecond. -/
def formatDateTime (day sec ns : Nat) : List Char :=
  let y := yearOfDay day
  let d := day - daysBeforeYear y
  let m := monthOfDay (isLeap y) d
  fixedDigits 4 y ++ '-' :: (fixedDigits 2 m ++
    '-' :: (fixedDigits 2 (d - daysBeforeMonth (isLeap y) m + 1) ++
    'T' :: (fixedDigits 2 (sec / 3600) ++ ':' :: (fixedDigits 2 (sec / 60 % 60) ++
    ':' :: (fixedDigits 2 (sec % 60) ++ (formatFraction ns ++ ['Z']))))))

/-- `appendStrictRFC3339`: years beyond four digits are refused. -/
def formatTime (t : Time) : Option (List Char) :=
  let s := t.toNat / nanosPerSecond
  if t < 0 ∨ daysBeforeYear 10000 ≤ s / secondsPerDay then none
  else some (formatDateTime (s / secondsPerDay) (s % secondsPerDay) (t.toNat % nanosPerSecond))

/-- `parseUint` of `parseRFC3339`: a number of fixed width between two bounds, and what
follows it. -/
def readUint (width lo hi : Nat) (cs : List Char) : Option (Nat × List Char) :=
  let ds := cs.take width
  let n := Nat.ofDigitChars 10 ds 0
  if ds.length = width ∧ ds.all Char.isDigit ∧ lo ≤ n ∧ n ≤ hi then some (n, cs.drop width)
  else none

def readChar (c : Char) : List Char → Option (List Char)
  | [] => none
  | d :: rest => if d = c then some rest else none

/-- `parseNanoseconds`, of which nine digits count, when a fraction is there. -/
def readFraction : List Char → Nat × List Char
  | '.' :: c :: rest =>
    if c.isDigit then
      let ds := ((c :: rest).takeWhile Char.isDigit).take 9
      (Nat.ofDigitChars 10 (ds ++ List.replicate (9 - ds.length) '0') 0,
        (c :: rest).dropWhile Char.isDigit)
    else (0, '.' :: c :: rest)
  | cs => (0, cs)

/-- The offset from UTC in seconds, at the end of the text. -/
def readZone : List Char → Option Int
  | ['Z'] => some 0
  | sign :: cs => do
    let (hr, cs) ← readUint 2 0 23 cs
    let cs ← readChar ':' cs
    let (mm, cs) ← readUint 2 0 59 cs
    let offset : Int := (hr * 60 + mm) * 60
    if cs ≠ [] then none
    else if sign = '+' then some offset else if sign = '-' then some (-offset) else none
  | [] => none

/-- `parseRFC3339`. -/
def parseTime (cs : List Char) : Option Time := do
  let (y, cs) ← readUint 4 0 9999 cs
  let cs ← readChar '-' cs
  let (m, cs) ← readUint 2 1 12 cs
  let cs ← readChar '-' cs
  let (d, cs) ← readUint 2 1 (daysIn (isLeap y) m) cs
  let cs ← readChar 'T' cs
  let (hour, cs) ← readUint 2 0 23 cs
  let cs ← readChar ':' cs
  let (min, cs) ← readUint 2 0 59 cs
  let cs ← readChar ':' cs
  let (sec, cs) ← readUint 2 0 59 cs
  let (ns, cs) := readFraction cs
  let offset ← readZone cs
  let day := daysBeforeYear y + daysBeforeMonth (isLeap y) m + (d - 1)
  let s : Int := (day * secondsPerDay + (hour * 3600 + min * 60 + sec) : Nat) - offset
  pure (s * nanosPerSecond + ns)

theorem readUint_fixedDigits {width lo hi n : Nat} (hlo : lo ≤ n) (hhi : n ≤ hi)
    (hw : n < 10 ^ width) (rest : List Char) :
    readUint width lo hi (fixedDigits width n ++ rest) = some (n, rest) := by
  have hlen := length_fixedDigits width n
  have hval : Nat.ofDigitChars 10 (fixedDigits width n) 0 = n := by
    rw [ofDigitChars_fixedDigits, Nat.mod_eq_of_lt hw]
  have hall : (fixedDigits width n).all Char.isDigit = true :=
    List.all_eq_true.mpr (isDigit_of_mem_fixedDigits width n)
  rw [readUint, List.take_left' hlen, List.drop_left' hlen, hval]
  exact if_pos ⟨hlen, hall, hlo, hhi⟩

theorem readChar_cons (c : Char) (rest : List Char) : readChar c (c :: rest) = some rest :=
  if_pos rfl

/-- Reading on behind a number of fixed width. -/
theorem readUint_bind {α : Type} {width lo hi n : Nat} (hlo : lo ≤ n) (hhi : n ≤ hi)
    (hw : n < 10 ^ width) (rest : List Char) (k : Nat × List Char → Option α) :
    (readUint width lo hi (fixedDigits width n ++ rest) >>= k) = k (n, rest) := by
  rw [readUint_fixedDigits hlo hhi hw]
  rfl

/-- Reading on behind a separator. -/
theorem readChar_bind {α : Type} (c : Char) (rest : List Char) (k : List Char → Option α) :
    (readChar c (c :: rest) >>= k) = k rest := by
  rw [readChar_cons]
  rfl

/-- Cutting off trailing zeros and putting them back. -/
theorem rdropWhile_zeros (ds : List Char) :
    ds.rdropWhile (fun c => c = '0') ++
      List.replicate (ds.length - (ds.rdropWhile fun c => c = '0').length) '0' = ds := by
  have hsplit : ds.rdropWhile (fun c => c = '0') ++ ds.rtakeWhile (fun c => c = '0') = ds :=
    List.rdropWhile_append_rtakeWhile
  have hzeros : ds.rtakeWhile (fun c => c = '0') =
      List.replicate (ds.rtakeWhile fun c => c = '0').length '0' :=
    List.eq_replicate_of_mem fun c hc => by simpa using List.mem_rtakeWhile_imp hc
  have hlen := congrArg List.length hsplit
  rw [List.length_append] at hlen
  rw [← hlen, Nat.add_sub_cancel_left, ← hzeros, hsplit]

/-- A fraction reads back to the nanosecond. -/
theorem readFraction_formatFraction {ns : Nat} (h : ns < nanosPerSecond) :
    readFraction (formatFraction ns ++ ['Z']) = (ns, ['Z']) := by
  have hback := rdropWhile_zeros (fixedDigits 9 ns)
  have hval : Nat.ofDigitChars 10 (fixedDigits 9 ns) 0 = ns := by
    rw [ofDigitChars_fixedDigits]
    exact Nat.mod_eq_of_lt h
  have hpre := List.rdropWhile_prefix (fun c : Char => decide (c = '0')) (l := fixedDigits 9 ns)
  have hlen : ((fixedDigits 9 ns).rdropWhile fun c => c = '0').length ≤ 9 :=
    length_fixedDigits 9 ns ▸ hpre.length_le
  have hdig : ∀ c ∈ (fixedDigits 9 ns).rdropWhile (fun c => c = '0'), c.isDigit = true :=
    fun c hc => isDigit_of_mem_fixedDigits 9 ns c (hpre.subset hc)
  rw [length_fixedDigits] at hback
  unfold formatFraction
  cases hL : (fixedDigits 9 ns).rdropWhile (fun c => c = '0') with
  | nil =>
    rw [hL] at hback
    rw [← hback, List.nil_append, Nat.ofDigitChars_replicate_zero, Nat.mul_zero] at hval
    rw [← hval]
    rfl
  | cons c ds =>
    rw [hL] at hback hdig hlen
    have htake : (c :: ds ++ ['Z']).takeWhile Char.isDigit = c :: ds := by
      rw [List.takeWhile_append_of_pos hdig]
      exact List.append_nil _
    have hdrop : (c :: ds ++ ['Z']).dropWhile Char.isDigit = ['Z'] := by
      rw [List.dropWhile_append_of_pos hdig]
      rfl
    show (if c.isDigit then _ else _ : Nat × List Char) = _
    rw [if_pos (hdig c List.mem_cons_self)]
    show (Nat.ofDigitChars 10 (((c :: ds ++ ['Z']).takeWhile Char.isDigit).take 9 ++
      List.replicate (9 - (((c :: ds ++ ['Z']).takeWhile Char.isDigit).take 9).length) '0') 0,
      (c :: ds ++ ['Z']).dropWhile Char.isDigit) = _
    rw [htake, hdrop, List.take_of_length_le hlen, hback, hval]

/-- A day, second and nanosecond read back from their text. -/
theorem parseTime_formatDateTime {day sec ns : Nat} (hday : day < daysBeforeYear 10000)
    (hsec : sec < secondsPerDay) (hns : ns < nanosPerSecond) :
    parseTime (formatDateTime day sec ns) =
      some (((day * secondsPerDay + sec : Nat) : Int) * nanosPerSecond + ns) := by
  obtain ⟨hy, hy'⟩ := yearOfDay_spec day
  rw [daysBeforeYear_succ] at hy'
  have hyear : yearOfDay day ≤ 9999 := by
    have := (daysBeforeYear_bounds (yearOfDay day)).1
    have : daysBeforeYear 10000 = 3652425 := by decide
    omega
  obtain ⟨hm1, hm12, hmlo, hmhi⟩ := monthOfDay_spec (isLeap (yearOfDay day))
    (d := day - daysBeforeYear (yearOfDay day)) (by omega)
  simp only [formatDateTime, parseTime]
  generalize hY : yearOfDay day = y at *
  generalize hD : day - daysBeforeYear y = d at *
  generalize hM : monthOfDay (isLeap y) d = m at *
  have hdays : d - daysBeforeMonth (isLeap y) m + 1 ≤ daysIn (isLeap y) m := by
    rw [daysIn]
    omega
  have hdays' := daysIn_le (isLeap y) hm12
  have hsec' : sec < 86400 := hsec
  have hfrac := readFraction_formatFraction hns
  have hzone : readZone ['Z'] = some 0 := rfl
  have hd31 : d - daysBeforeMonth (isLeap y) m + 1 < 10 ^ 2 := by omega
  rw [readUint_bind (by omega) hyear (by omega)]
  dsimp only
  rw [readChar_bind, readUint_bind hm1 hm12 (by omega)]
  dsimp only
  rw [readChar_bind, readUint_bind (by omega) hdays hd31]
  dsimp only
  rw [readChar_bind, readUint_bind (by omega) (by omega) (by omega)]
  dsimp only
  rw [readChar_bind, readUint_bind (by omega) (by omega) (by omega)]
  dsimp only
  rw [readChar_bind, readUint_bind (by omega) (by omega) (by omega)]
  dsimp only
  rw [hfrac]
  dsimp only
  rw [hzone]
  have hdate : daysBeforeYear y + daysBeforeMonth (isLeap y) m +
      (d - daysBeforeMonth (isLeap y) m + 1 - 1) = day := by omega
  have htime : sec / 3600 * 3600 + sec / 60 % 60 * 60 + sec % 60 = sec := by omega
  rw [hdate, htime]
  show some ((((day * secondsPerDay + sec : Nat) : Int) - 0) * nanosPerSecond + ns) = _
  rw [Int.sub_zero]

/-- **An instant reads back from its text.** -/
theorem parseTime_formatTime {t : Time} {cs : List Char} (h : formatTime t = some cs) :
    parseTime cs = some t := by
  unfold formatTime at h
  simp only at h
  split at h
  · exact nomatch h
  · next hrange =>
    obtain rfl := Option.some.inj h
    obtain ⟨hpos, hyear⟩ := not_or.mp hrange
    rw [parseTime_formatDateTime (Nat.lt_of_not_le hyear) (Nat.mod_lt _ (by decide)) (Nat.mod_lt _ (by decide)),
      Nat.div_add_mod']
    congr 1
    have hsplit := Nat.div_add_mod' t.toNat nanosPerSecond
    have ht : (t.toNat : Int) = t := Int.toNat_of_nonneg (Int.not_lt.mp hpos)
    rw [← ht]
    exact_mod_cast hsplit

/-- The text of an instant is plain: no quote, no backslash, no control character. -/
theorem plain_of_mem_formatTime {t : Time} {cs : List Char} (h : formatTime t = some cs) :
    ∀ c ∈ cs, 0x20 ≤ c.toNat ∧ c ≠ '"' ∧ c ≠ '\\' := by
  have hdigit : ∀ k n, ∀ c ∈ fixedDigits k n, 0x20 ≤ c.toNat ∧ c ≠ '"' ∧ c ≠ '\\' := by
    intro k n c hc
    have hd := isDigit_of_mem_fixedDigits k n c hc
    refine ⟨?_, ?_, ?_⟩
    · have := (Char.isDigit_iff_toNat.mp hd).1
      exact Nat.le_trans (by decide) this
    · rintro rfl
      exact absurd hd (by decide)
    · rintro rfl
      exact absurd hd (by decide)
  have hfrac : ∀ ns, ∀ c ∈ formatFraction ns, 0x20 ≤ c.toNat ∧ c ≠ '"' ∧ c ≠ '\\' := by
    intro ns c hc
    have hpre := List.rdropWhile_prefix (fun c : Char => decide (c = '0')) (l := fixedDigits 9 ns)
    unfold formatFraction at hc
    split at hc
    · exact nomatch hc
    · next heq =>
      rcases List.mem_cons.mp hc with rfl | hc
      · decide
      · exact hdigit 9 ns c (hpre.subset (heq ▸ hc))
  unfold formatTime at h
  simp only at h
  split at h
  · exact nomatch h
  · obtain rfl := Option.some.inj h
    intro c hc
    simp only [formatDateTime, List.mem_append, List.mem_cons, List.not_mem_nil, or_false] at hc
    rcases hc with hc | rfl | hc | rfl | hc | rfl | hc | rfl | hc | rfl | hc | hc | rfl
    all_goals first | decide | exact hdigit _ _ _ hc | exact hfrac _ _ hc

end Lib
