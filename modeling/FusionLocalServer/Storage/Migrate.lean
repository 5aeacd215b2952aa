import FusionLocalServer.Lib.Json.Any
import FusionLocalServer.Lib.Json.Struct
import FusionLocalServer.Lib.Nilable
import FusionLocalServer.Lib.Utf8

/-!
# Migrations (`internal/migrate`)

A document of an older version is decoded into a map, and is taken through one step after the
other. A `null` decodes into a nil map.
-/

namespace FusionLocalServer.Storage

open Lib Lib.Json

/-- How a migration ends that has no document: with an error, of a newer version's document or
another, or not at all. -/
inductive Fault where
  | failed
  | futureVersion
  | panic (p : Panic)
deriving DecidableEq, Repr

/-- `Step` -/
abbrev Step := Option Fields → Except Fault (Option Fields)

/-- `Registry` -/
structure Registry where
  target : Int
  steps : Int → Option Step

/-- The field `Peek` decodes, which is a pointer. -/
def versionField : StructField (Option Int) where
  name := "version"
  set v _ :=
    match v with
    | .null => some none
    | v => (readInt v).map some

/-- `Peek`; there is nothing where the document does not decode. -/
def peek (doc : Json) : Option Int := (decodeStruct [versionField] none doc).map fun v => v.getD 0

/-- `raw[key] = v` -/
def setKey (raw : Option Fields) (key : String) (v : Json) : Except Fault (Option Fields) :=
  match raw with
  | none => .error (.panic .nilMap)
  | some fields => .ok (some (fields.insert key v))

namespace Registry

variable (r : Registry) (number : List Char → Option (List Char))

/-- The loop over the steps, with so many turns left. -/
def upgrade : Nat → Int → Option Fields → Except Fault (Option Fields)
  | 0, _, raw => .ok raw
  | n + 1, cur, raw =>
    match r.steps cur with
    | none => .error .failed
    | some step => do
      let raw ← step raw
      let raw ← setKey raw "version" (intValue (cur + 1))
      upgrade n (cur + 1) raw

/-- `Apply`; the copy it makes ahead may fail to be written. -/
def apply (copyFails : Bool) (doc : Json) : Except Fault Json :=
  match peek doc with
  | none => .error .failed
  | some v =>
    if r.target < v then .error .futureVersion
    else if v = r.target then .ok doc
    else if copyFails then .error .failed
    else
      match readMap number doc with
      | none => .error .failed
      | some raw => (r.upgrade (r.target - v).toNat v raw).map mapValue

/-- What is found in a file: the document as it is decoded after its migration. -/
def decodeFile {α : Type} (decode : Json → Option α) (copyFails : Bool) (data : List UInt8) :
    Except Fault α :=
  match parse (decodeUtf8 data) with
  | none => .error .failed
  | some doc => do
    let doc ← r.apply number copyFails doc
    match decode doc with
    | none => .error .failed
    | some pf => .ok pf

end Registry

/-! ## What comes to no panic -/

theorem setKey_some (fields : Fields) (key : String) (v : Json) :
    setKey (some fields) key v = .ok (some (fields.insert key v)) := rfl

/-- A step that keeps a map a map. -/
def Step.Keeps (step : Step) : Prop :=
  ∀ fields, (∃ fields', step (some fields) = .ok (some fields')) ∨ step (some fields) = .error .failed

theorem keeps_id : Step.Keeps fun raw => .ok raw := fun fields => .inl ⟨fields, rfl⟩

namespace Registry

variable {r : Registry} {number : List Char → Option (List Char)}

theorem upgrade_some (hsteps : ∀ v step, r.steps v = some step → step.Keeps) (n : Nat) :
    ∀ (cur : Int) (fields : Fields), (∃ fields', r.upgrade n cur (some fields) = .ok (some fields')) ∨
      r.upgrade n cur (some fields) = .error .failed := by
  induction n with
  | zero => exact fun _ fields => .inl ⟨fields, rfl⟩
  | succ n ih =>
    intro cur fields
    unfold upgrade
    cases hstep : r.steps cur with
    | none => exact .inr rfl
    | some step =>
      rcases hsteps cur step hstep fields with ⟨fields', hfields⟩ | hfailed
      · simp only [hfields, bind, Except.bind, setKey_some]
        exact ih (cur + 1) _
      · simp only [hfailed, bind, Except.bind]
        exact .inr trivial

/-- A nil map goes no way without a step for version zero. -/
theorem upgrade_null (hnone : r.steps 0 = none) (n : Nat) :
    r.upgrade n 0 none = .ok none ∨ r.upgrade n 0 none = .error .failed := by
  cases n with
  | zero => exact .inl rfl
  | succ n => exact .inr (by simp [upgrade, hnone])

/-- A migration has no panic where `null` is a document it has no step for. -/
theorem apply_no_panic (hsteps : ∀ v step, r.steps v = some step → step.Keeps) {copyFails : Bool}
    {doc : Json} (hnull : doc = .null → r.steps 0 = none) (p : Panic) :
    r.apply number copyFails doc ≠ .error (.panic p) := by
  unfold apply
  cases hpeek : peek doc with
  | none => simp
  | some v =>
    dsimp only
    split
    · simp
    split
    · simp
    split
    · simp
    cases hmap : readMap number doc with
    | none => simp
    | some raw =>
      cases raw with
      | some fields =>
        rcases upgrade_some hsteps (r.target - v).toNat v fields with ⟨fields', h⟩ | h
        · simp [h, Except.map]
        · simp [h, Except.map]
      | none =>
        -- the document is `null`, of version zero
        have hdoc : doc = .null := by
          cases doc with
          | null => rfl
          | obj members => cases hread : readFields number members ∅ <;> simp [readMap, hread] at hmap
          | _ => cases hmap
        subst hdoc
        cases hpeek
        rcases upgrade_null (hnull rfl) r.target.toNat with h | h <;> simp [h, Except.map]

theorem decodeFile_no_panic {α : Type} {decode : Json → Option α}
    (hsteps : ∀ v step, r.steps v = some step → step.Keeps) (copyFails : Bool) {data : List UInt8}
    (hnull : parse (decodeUtf8 data) = some .null → r.steps 0 = none) (p : Panic) :
    r.decodeFile number decode copyFails data ≠ .error (.panic p) := by
  unfold decodeFile
  cases hparse : parse (decodeUtf8 data) with
  | none => simp
  | some doc =>
    have hno : ∀ p, r.apply number copyFails doc ≠ .error (.panic p) :=
      apply_no_panic hsteps fun hdoc => hnull (hparse.trans (congrArg some hdoc))
    cases happly : r.apply number copyFails doc with
    | error f =>
      rw [happly] at hno
      simpa [happly, bind, Except.bind] using hno p
    | ok doc' => cases hdecode : decode doc' <;> simp [happly, hdecode, bind, Except.bind]

/-- What is decoded where the copy fails is decoded where it does not. -/
theorem decodeFile_copied {α : Type} {decode : Json → Option α} {copyFails : Bool}
    {data : List UInt8} {pf : α} (h : r.decodeFile number decode copyFails data = .ok pf) :
    r.decodeFile number decode false data = .ok pf := by
  unfold decodeFile at h ⊢
  cases hparse : parse (decodeUtf8 data) with
  | none => simp [hparse] at h
  | some doc =>
    have happly : ∀ doc', r.apply number copyFails doc = .ok doc' →
        r.apply number false doc = .ok doc' := by
      intro doc' h
      cases copyFails with
      | false => exact h
      | true =>
        unfold apply at h ⊢
        cases hpeek : peek doc with
        | none => simp [hpeek] at h
        | some v =>
          simp only [hpeek] at h ⊢
          split at h
          · cases h
          split at h
          · next hnew hcurrent => rwa [if_neg hnew, if_pos hcurrent]
          · cases h
    cases hdoc : r.apply number copyFails doc with
    | error f => simp [hparse, hdoc, bind, Except.bind] at h
    | ok doc' => simpa [hparse, hdoc, happly doc' hdoc, bind, Except.bind] using h

end Registry

end FusionLocalServer.Storage
