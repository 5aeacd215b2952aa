import FusionLocalServer.Lib.Date

/-!
# The daily schedule (`backup/schedule.go`)

A time of day and the instants at which it comes round, in a zone whose offset from UTC does
not change. `nextRun` is the first such instant behind a given one.
-/

namespace FusionLocalServer.Backup

open Lib

def nanosPerDay : Int := secondsPerDay * nanosPerSecond

/-- `DefaultTime` -/
def defaultTime : String := "03:30"

/-- The numbers of a text that `hhmmRE` matches: two digits up to 23, a colon, two digits up to
59. -/
def matchHHMM : List Char → Option (Nat × Nat)
  | [h, h', ':', m, m'] =>
    if ¬ [h, h', m, m'].all Char.isDigit then none
    else if 24 ≤ Nat.ofDigitChars 10 [h, h'] 0 ∨ 60 ≤ Nat.ofDigitChars 10 [m, m'] 0 then none
    else some (Nat.ofDigitChars 10 [h, h'] 0, Nat.ofDigitChars 10 [m, m'] 0)
  | _ => none

/-- `ValidTime` -/
def validTime (hhmm : String) : Bool := (matchHHMM hhmm.toList).isSome

/-- How long after midnight the time of day is; a text that is none stands for the default. -/
def offsetOf (hhmm : String) : Int :=
  match (matchHHMM hhmm.toList).or (matchHHMM defaultTime.toList) with
  | some (hh, mm) => (hh * 60 + mm : Nat) * (60 * nanosPerSecond)
  | none => 0

/-- `NextRun`, in a zone that is `zone` ahead of UTC. -/
def nextRun (zone now : Int) (hhmm : String) : Int :=
  let midnight := (now + zone) / nanosPerDay * nanosPerDay - zone
  let cand := midnight + offsetOf hhmm
  if now < cand then cand else cand + nanosPerDay

/-- The instants at which the time of day comes round. -/
def Occurs (zone : Int) (hhmm : String) (o : Int) : Prop :=
  (o + zone - offsetOf hhmm) % nanosPerDay = 0

instance (zone : Int) (hhmm : String) (o : Int) : Decidable (Occurs zone hhmm o) :=
  inferInstanceAs (Decidable (_ = _))

variable {zone now o : Int} {hhmm : String}

theorem nanosPerDay_eq : nanosPerDay = 86400000000000 := rfl

theorem Occurs.next (h : Occurs zone hhmm o) : Occurs zone hhmm (o + nanosPerDay) := by
  unfold Occurs at *
  have hshift : o + nanosPerDay + zone - offsetOf hhmm =
      (o + zone - offsetOf hhmm) + nanosPerDay := by omega
  rw [hshift, Int.add_emod_right, h]

/-- The numbers of a time of day are in their range. -/
theorem matchHHMM_bounds {cs : List Char} {hh mm : Nat} (h : matchHHMM cs = some (hh, mm)) :
    hh < 24 ∧ mm < 60 := by
  unfold matchHHMM at h
  split at h
  · split at h
    · cases h
    · split at h
      · cases h
      · next hin =>
        cases h
        omega
  · cases h

/-- A time of day is within the day. -/
theorem offsetOf_bounds (hhmm : String) : 0 ≤ offsetOf hhmm ∧ offsetOf hhmm < nanosPerDay := by
  unfold offsetOf
  rw [nanosPerDay_eq]
  split
  · next hh mm hmatch =>
    have hbounds : hh < 24 ∧ mm < 60 := by
      rcases Option.or_eq_some_iff.mp hmatch with hown | ⟨-, hdefault⟩
      · exact matchHHMM_bounds hown
      · exact matchHHMM_bounds hdefault
    have hnanos : (60 * (nanosPerSecond : Nat) : Int) = 60000000000 := rfl
    rw [hnanos]
    omega
  · omega

/-- **The next run** is the first instant behind the given one at which the time comes round. -/
theorem nextRun_spec (zone now : Int) (hhmm : String) :
    now < nextRun zone now hhmm ∧ Occurs zone hhmm (nextRun zone now hhmm) ∧
      ∀ o, Occurs zone hhmm o → now < o → nextRun zone now hhmm ≤ o := by
  obtain ⟨hpos, hlt⟩ := offsetOf_bounds hhmm
  unfold nextRun Occurs
  dsimp only
  rw [nanosPerDay_eq] at *
  refine ⟨?_, ?_, fun o ho hnow => ?_⟩
  · split <;> omega
  · split <;> omega
  · split <;> omega

end FusionLocalServer.Backup
