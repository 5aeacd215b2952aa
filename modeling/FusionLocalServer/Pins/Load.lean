import FusionLocalServer.Storage.Migrate

/-!
# Loading pins (`pins/pins.go`)

A hub's pins are read from their file for every request, changed as a list of values, and
written. The oldest files are a bare list; the others go through the migrations, whose one step
is from documents without a version.

What a pin is, and how a document decodes into pins, is a parameter.
-/

namespace FusionLocalServer.Pins

open Lib Lib.Json Storage

def fileVersion : Int := 1

/-- `newRegistry` -/
def registry : Registry where
  target := fileVersion
  steps v :=
    if v = 0 then some fun raw =>
      if (raw.bind fun fields => fields.lookup "pins").isSome then .ok raw
      else setKey raw "pins" (.arr [])
    else none

/-- `isLegacyArray` -/
def isLegacyArray (data : List UInt8) : Bool :=
  (data.dropWhile fun b => b = 32 || b = 9 || b = 10 || b = 13).head? = some 91

inductive Err where
  | io
  | futureVersion
deriving DecidableEq, Repr

/-- What a request meets with. -/
structure Env where
  readFails : Bool := false
  copyFails : Bool := false
  renameFails : Bool := false
  saveFails : Bool := false

section

variable {Pin : Type}

/-- A file as it was found, or as it was saved. -/
inductive Content (Pin : Type) where
  | found (data : List UInt8)
  | saved (ps : List Pin)

/-- A hub's file, if there is one. -/
abbrev Disk (Pin : Type) := Option (Content Pin)

variable (number : List Char → Option (List Char)) (decodeList decodeFile : Json → Option (List Pin))

/-- A file that does not decode is put aside. -/
def putAside (env : Env) (disk : Disk Pin) : Disk Pin := if env.renameFails then disk else none

/-- `Load` -/
def load (env : Env) (disk : Disk Pin) : Except Panic (Disk Pin × Except Err (List Pin)) :=
  match disk with
  | none => .ok (disk, .ok [])
  | some content =>
    if env.readFails then .ok (disk, .error .io)
    else
      match content with
      | .saved ps => .ok (disk, .ok ps)
      | .found data =>
        if isLegacyArray data then
          match (parse (decodeUtf8 data)).bind decodeList with
          | none => .ok (putAside env disk, .ok [])
          | some ps => .ok (disk, .ok ps)
        else
          match registry.decodeFile number decodeFile env.copyFails data with
          | .error (.panic p) => .error p
          | .error .futureVersion => .ok (disk, .error .futureVersion)
          | .error .failed => .ok (putAside env disk, .ok [])
          | .ok ps => .ok (disk, .ok ps)

inductive Request (Pin : Type) where
  | read
  /-- Adds or removes one. -/
  | change (f : List Pin → List Pin)

/-- A request on the pins of a hub, with what it meets with. -/
def handle (disk : Disk Pin) (event : Env × Request Pin) : Except Panic (Disk Pin) :=
  match load number decodeList decodeFile event.1 disk with
  | .error p => .error p
  | .ok (disk, .error _) => .ok disk
  | .ok (disk, .ok ps) =>
    match event.2 with
    | .read => .ok disk
    | .change f => .ok (if event.1.saveFails then disk else some (.saved (f ps)))

/-! ## Which files are loaded -/

variable {number decodeList decodeFile}

/-- The step from version zero fills in a map, but not a nil one. -/
theorem registry_keeps : ∀ v step, registry.steps v = some step → step.Keeps := by
  intro v step hstep fields
  simp only [registry] at hstep
  split at hstep
  · cases hstep
    dsimp only
    split
    · exact .inl ⟨fields, rfl⟩
    · exact .inl ⟨_, rfl⟩
  · cases hstep

/-- A bare list, or a document other than `null`. -/
def Loadable (data : List UInt8) : Prop :=
  isLegacyArray data = true ∨ parse (decodeUtf8 data) ≠ some .null

theorem load_ok {data : List UInt8} (hdata : Loadable data) {disk : Disk Pin}
    (hdisk : ∀ data', disk = some (.found data') → data' = data) (env : Env) :
    ∃ disk' result, load number decodeList decodeFile env disk = .ok (disk', result) ∧
      (disk' = disk ∨ disk' = none) := by
  have haside : putAside env disk = disk ∨ putAside env disk = none := by
    unfold putAside
    split <;> simp
  unfold load
  cases disk with
  | none => exact ⟨_, _, rfl, .inl rfl⟩
  | some content =>
    dsimp only
    split
    · exact ⟨_, _, rfl, .inl rfl⟩
    cases content with
    | saved ps => exact ⟨_, _, rfl, .inl rfl⟩
    | found data' =>
      obtain rfl := hdisk data' rfl
      dsimp only
      split
      · split
        · exact ⟨_, _, rfl, haside⟩
        · exact ⟨_, _, rfl, .inl rfl⟩
      · next hlegacy =>
        have hno : ∀ p, registry.decodeFile number decodeFile env.copyFails data' ≠
            .error (.panic p) :=
          Registry.decodeFile_no_panic registry_keeps env.copyFails fun hnull =>
            absurd hnull (hdata.resolve_left hlegacy)
        split
        · next p hp => exact absurd hp (hno p)
        · exact ⟨_, _, rfl, .inl rfl⟩
        · exact ⟨_, _, rfl, haside⟩
        · exact ⟨_, _, rfl, .inl rfl⟩

/-- A request has no panic, and leaves the file as it was found, or its own. -/
theorem handle_ok {data : List UInt8} (hdata : Loadable data) {disk : Disk Pin}
    (hdisk : ∀ data', disk = some (.found data') → data' = data) (event : Env × Request Pin) :
    ∃ disk', handle number decodeList decodeFile disk event = .ok disk' ∧
      ∀ data', disk' = some (.found data') → data' = data := by
  obtain ⟨loaded, result, hload, hloaded⟩ :
      ∃ disk' result, load number decodeList decodeFile event.1 disk = .ok (disk', result) ∧
        (disk' = disk ∨ disk' = none) := load_ok hdata hdisk event.1
  have hfound : ∀ data', loaded = some (.found data') → data' = data := by
    rcases hloaded with rfl | rfl
    · exact hdisk
    · exact fun _ h => (nomatch h)
  unfold handle
  rw [hload]
  cases result with
  | error err => exact ⟨loaded, rfl, hfound⟩
  | ok ps =>
    cases event.2 with
    | read => exact ⟨loaded, rfl, hfound⟩
    | change f =>
      refine ⟨_, rfl, fun data' h => ?_⟩
      split at h
      · exact hfound data' h
      · cases h

/-- `null` is taken for a document of version zero, and the step writes into its nil map. -/
theorem load_null {data : List UInt8} (hlegacy : isLegacyArray data = false)
    (hnull : parse (decodeUtf8 data) = some .null) :
    load number decodeList decodeFile {} (some (.found data)) = .error .nilMap := by
  have happly : registry.decodeFile number decodeFile false data = .error (.panic .nilMap) := by
    unfold Registry.decodeFile
    simp only [hnull]
    rfl
  simp [load, hlegacy, happly]

/-- The requests on a file have no panic, in any order, if and only if it is loadable. -/
theorem handles_iff (data : List UInt8) :
    (∀ events, ∃ disk, Panic.run (handle number decodeList decodeFile) (some (.found data)) events =
      .ok disk) ↔ Loadable data := by
  constructor
  · intro h
    by_contra hnot
    unfold Loadable at hnot
    push Not at hnot
    have hload : load number decodeList decodeFile {} (some (.found data)) = .error .nilMap :=
      load_null (Bool.eq_false_iff.mpr hnot.1) hnot.2
    have hread : handle number decodeList decodeFile (some (.found data)) ({}, Request.read) =
        .error .nilMap := by simp [handle, hload]
    exact Panic.run_panics hread (h _)
  · intro hdata events
    refine Panic.run_ok (I := fun disk => ∀ data', disk = some (.found data') → data' = data)
      (fun disk event hdisk => handle_ok hdata hdisk event) events fun data' h => ?_
    cases h
    rfl

end

end FusionLocalServer.Pins
