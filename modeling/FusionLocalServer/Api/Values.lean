import FusionLocalServer.Lib.Calendar

/-!
# Users and times in the answers of the API

What the answers of the API have in common (`api/details.go`): a user with the name that is shown,
and texts that are read as times. What `time.Parse` makes of a text in a layout is a parameter.
-/

namespace FusionLocalServer.Api

open Lib

/-- The zero `time.Time`, the start of the year 1. -/
def zeroTime : Time := daysBeforeYear 1 * secondsPerDay * nanosPerSecond

/-- `time.Parse`: the layout, the text, and the time it is when it has the layout. -/
abbrev TimeParse := String → String → Option Time

/-- `time.RFC3339`. -/
def rfc3339 : String := "2006-01-02T15:04:05Z07:00"

/-- A text that is no time in either layout is the zero time. -/
def parseTime (parse : TimeParse) (s : String) : Time :=
  if s = "" then zeroTime
  else match parse rfc3339 s with
    | some t => t
    | none => (parse "2006-01-02T15:04:05.000Z" s).getD zeroTime

/-- What `time.Parse` makes of a text that is written as RFC 3339 has it. -/
def strictParse : TimeParse := fun layout s =>
  if layout = rfc3339 then Lib.parseTime s.toList else none

structure ApiUser where
  id : String := ""
  userName : String := ""
  first : String := ""
  last : String := ""
deriving DecidableEq

def ApiUser.fullName (u : ApiUser) : String :=
  let name := if u.last = "" then u.first
    else if u.first = "" then u.last else u.first ++ " " ++ u.last
  if name = "" then u.userName else name

end FusionLocalServer.Api
