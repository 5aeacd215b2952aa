import FusionLocalServer.Pins.Load
import FusionLocalServer.Production.Loading
import FusionLocalServer.Tasks.Loading

/-!
# Which documents the stores load

A document is loaded and worked with, in any order of calls, without a panic, where the lists of
pointers that it decodes into have no nil, and for pins where it is not `null`.
-/

namespace FusionLocalServer.Storage

open Lib Lib.Json

/-- **What is found in a file ends no run of calls in a panic**, for pins, tasks and production,
if and only if it is loadable. -/
theorem loading_panic_free {Pin : Type} (number : List Char → Option (List Char))
    (decodePinList decodePins : Json → Option (List Pin))
    (decodeTasks : Json → Option Tasks.Loading.NilFile)
    (decodeJobs : Json → Option Production.Loading.NilFile)
    (equalFold : String → String → Bool) (projectID : String) (data : List UInt8) :
    ((∀ requests, ∃ disk, Panic.run (Pins.handle number decodePinList decodePins)
        (some (.found data)) requests = .ok disk) ↔ Pins.Loadable data) ∧
    ((∀ calls, ∃ s, Panic.run (Tasks.Loading.handle number decodeTasks projectID)
        { disk := some (.found data) } calls = .ok s) ↔
      Tasks.Loading.Loadable number decodeTasks data) ∧
    ((∀ calls, ∃ s, Panic.run (Production.Loading.handle number decodeJobs equalFold projectID)
        { disk := some (.found data) } calls = .ok s) ↔
      Production.Loading.Loadable number decodeJobs equalFold data) :=
  ⟨Pins.handles_iff data, Tasks.Loading.handles_iff data, Production.Loading.handles_iff data⟩

/-! ## Files with a `null` -/

/-- A list of pointers to records, of which nothing is read. -/
def readPointers {α : Type} (zero : α) : Json → Option (List (Option α))
  | .arr items => items.mapM fun
    | .null => some none
    | .obj _ => some (some zero)
    | _ => none
  | _ => none

/-- The version and the tasks of a document. -/
def decodeTaskPointers : Json → Option Tasks.Loading.NilFile :=
  decodeStruct
    [structField "version" readInt fun v pf => { pf with version := v },
      structField "tasks" (readPointers { toTaskHeader := default, docRefs := [], dependsOn := [] })
        fun tasks pf => { pf with tasks }]
    { toFileHeader := default, tasks := [] }

/-- The version and the jobs of a document. -/
def decodeJobPointers : Json → Option Production.Loading.NilFile :=
  decodeStruct
    [structField "version" readInt fun v pf => { pf with version := v },
      structField "jobs" (readPointers (Production.Loading.wholeJob (Production.newJob default)))
        fun jobs pf => { pf with jobs }]
    { toFileHeader := default, jobs := [] }

def nullPins : List UInt8 := encodeUtf8 "null".toList

def nullTask : List UInt8 :=
  encodeUtf8 "\x7b\"version\":2,\"tasks\":[null]\x7d".toList

def nullJob : List UInt8 :=
  encodeUtf8 "\x7b\"version\":3,\"jobs\":[null]\x7d".toList

/-- A pins file of `null`, a task and a job of `null`, each with the first call that ends in a
panic. -/
theorem loading_panics :
    (Pins.handle some (fun _ => none) (fun _ : Json => (none : Option (List Unit)))
      (some (.found nullPins)) ({}, .read)).map (fun _ => ()) = .error .nilMap ∧
    (Tasks.Loading.handle some decodeTaskPointers "p" { disk := some (.found nullTask) }
      ({ now := 0 }, .list)).map (fun _ => ()) = .error .nilDereference ∧
    (Production.Loading.handle some decodeJobPointers (fun a b => a = b) "p"
      { disk := some (.found nullJob) } ({ now := 0 }, .listJobs)).map (fun _ => ()) =
        .error .nilDereference := by
  decide +kernel

end FusionLocalServer.Storage
