import FusionLocalServer.Lib.Calendar

/-!
# What the stores share

The provenance stamp every store file carries (`schemameta`), what an operation of a store
meets with outside of it, and how removing a project's directory can end.
-/

namespace FusionLocalServer.Storage

open Lib (Time)

/-- The zero time, the first instant of the year one. -/
def zeroTime : Time := 366 * 86400 * 1000000000

/-- What an operation meets with. -/
structure Env where
  now : Time
  appver : String := ""
  /-- When the file was last written. -/
  mtime : Time := zeroTime
  readFails : Bool := false
  /-- The project's directory cannot be made, so that no save gets under way. -/
  dirFails : Bool := false
  saveFails : Bool := false
  /-- How many spare cells a new array of the length gets. -/
  grow : Nat → Nat := fun n => n

/-- The provenance stamp of a file. -/
structure Stamp where
  createdAt : Time
  createdByVersion : String
  updatedAt : Time
  updatedByVersion : String
deriving DecidableEq, Inhabited

def newStamp (env : Env) : Stamp :=
  { createdAt := env.now, createdByVersion := env.appver, updatedAt := env.now
    updatedByVersion := env.appver }

/-- The stamp of a file that has none. -/
def backfill (env : Env) : Stamp :=
  { createdAt := env.mtime, createdByVersion := "pre-schema", updatedAt := env.now
    updatedByVersion := env.appver }

/-- The stamp of a save. -/
def Stamp.touch (env : Env) (s : Stamp) : Stamp :=
  { createdAt := if s.createdAt = zeroTime then env.now else s.createdAt
    createdByVersion := if s.createdByVersion = "" then "pre-schema" else s.createdByVersion
    updatedAt := env.now
    updatedByVersion := env.appver }

/-- How removing a directory ends. When it fails, it may have got as far as the file. -/
inductive Removal where
  | done
  | failed (gone : Bool)

/-- The file is gone. -/
def Removal.gone : Removal → Bool
  | .done => true
  | .failed gone => gone

end FusionLocalServer.Storage
