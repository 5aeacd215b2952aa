import Mathlib.Data.List.AList
import Mathlib.Data.List.Sort
import FusionLocalServer.Lib.Json.Syntax

/-!
# Values of any shape

A value read without a type in mind (`any`) keeps what its text denotes and not how it is
written: a string is its characters, an object a map, where of several members with one key
the last stays, and a number a floating-point number. Written again, strings are quoted
anew and the members of an object come in the order of their keys.

What a number is written as is a parameter; for a number out of range there is nothing.
-/

namespace Lib.Json

open Lib

/-- An object that was read into a map (`map[string]any`). -/
abbrev Fields := AList fun _ : String => Json

/-- The members of a map as they are written. -/
def Fields.members (fields : Fields) : List (List Char × Json) :=
  (fields.entries.insertionSort fun a b => a.1 ≤ b.1).map fun field => (quote field.1, field.2)

section Read

variable (number : List Char → Option (List Char))

mutual

/-- A value read into an `any`, as it is written again. -/
def readAny : Json → Option Json
  | .null => some .null
  | .bool b => some (.bool b)
  | .num lit => (number lit).map .num
  | .str lit => some (.str (quote (unquote lit)))
  | .arr items => (readItems items).map .arr
  | .obj members => (readFields members ∅).map fun fields => .obj fields.members

def readItems : List Json → Option (List Json)
  | [] => some []
  | v :: rest => (readAny v).bind fun v => (readItems rest).map (v :: ·)

/-- The members one after the other into a map. -/
def readFields : List (List Char × Json) → Fields → Option Fields
  | [], fields => some fields
  | (key, v) :: rest, fields =>
    (readAny v).bind fun v => readFields rest (fields.insert (unquote key) v)

end

/-- Reading into a `map[string]any`: `null` leaves the map nil. -/
def readMap : Json → Option (Option Fields)
  | .null => some none
  | .obj members => (readFields number members ∅).map some
  | _ => none

mutual

/-- The numbers in a value, as they are written. -/
def literals : Json → List (List Char)
  | .num lit => [lit]
  | .arr items => literalsOf items
  | .obj members => literalsIn members
  | _ => []

def literalsOf : List Json → List (List Char)
  | [] => []
  | v :: rest => literals v ++ literalsOf rest

def literalsIn : List (List Char × Json) → List (List Char)
  | [] => []
  | (_, v) :: rest => literals v ++ literalsIn rest

end

mutual

/-- A value is read when its numbers are. -/
theorem readAny_isSome : (v : Json) →
    ((readAny number v).isSome ↔ ∀ lit ∈ literals v, (number lit).isSome)
  | .null | .bool _ | .str _ => by simp [readAny, literals]
  | .num lit => by simp [readAny, literals]
  | .arr items => by simpa [readAny, literals] using readItems_isSome items
  | .obj members => by simpa [readAny, literals] using readFields_isSome members ∅

theorem readItems_isSome : (items : List Json) →
    ((readItems number items).isSome ↔ ∀ lit ∈ literalsOf items, (number lit).isSome)
  | [] => by simp [readItems, literalsOf]
  | v :: rest => by
    have hv := readAny_isSome v
    have hrest := readItems_isSome rest
    simp only [readItems, literalsOf, List.mem_append, or_imp, forall_and, ← hv, ← hrest]
    cases readAny number v with
    | none => simp
    | some v => simp

theorem readFields_isSome : (members : List (List Char × Json)) → (fields : Fields) →
    ((readFields number members fields).isSome ↔ ∀ lit ∈ literalsIn members, (number lit).isSome)
  | [], fields => by simp [readFields, literalsIn]
  | (key, v) :: rest, fields => by
    have hv := readAny_isSome v
    simp only [readFields, literalsIn, List.mem_append, or_imp, forall_and, ← hv]
    cases readAny number v with
    | none => simp
    | some v => simpa using readFields_isSome rest (fields.insert (unquote key) v)

end

end Read

/-- A map as it is written. -/
def mapValue : Option Fields → Json
  | none => .null
  | some fields => .obj fields.members

end Lib.Json
