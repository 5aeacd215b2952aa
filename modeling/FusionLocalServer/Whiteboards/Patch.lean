import FusionLocalServer.Lib.Checks
import FusionLocalServer.Lib.Json.Raw
import FusionLocalServer.Lib.Table

/-!
# Patches of a whiteboard (`whiteboards/patch.go`, `whiteboards/types.go`)

A drawing is a map from record ids to records, and a patch of it is a set of records to put
and a list of ids to remove. Records are texts the server does not look into, but for one
thing: a binding names the two records it joins (`bindingTouches`).
-/

namespace FusionLocalServer.Whiteboards

open Lib Std
open Lib.Json (RawMessage byteLen)

/-! ## Limits and errors -/

def MaxBoardsPerProject : Nat := 200
def MaxNameRunes : Nat := 200
/-- The largest document the store takes. -/
def MaxSnapshotBytes : Nat := 24 * 2 ^ 20

def MaxPatchBytes : Nat := 4 * 2 ^ 20
def MaxRecordBytes : Nat := 2 ^ 20
def MaxRecordsPerPatch : Nat := 2000
/-- How many removals a room remembers. -/
def MaxTombstones : Nat := 4096

/-- The sentinel an error wraps; `io` is a file that could not be read or written. -/
inductive ErrKind where
  | futureVersion
  | notFound
  | invalid
  | conflict
  | busy
  | io
  deriving DecidableEq, Repr

/-- An error: its sentinel, the format it is printed with, and the arguments. -/
structure Err where
  kind : ErrKind
  format : String
  args : List String := []
  deriving DecidableEq, Repr

/-- Who did something, as captured when it was done. -/
structure UserRef where
  id : String
  name : String
  email : String
  deriving DecidableEq, Repr, Inhabited

/-! ## Record ids -/

/-- The record kinds of a document, as opposed to those of one viewer's session. -/
def docRecordPrefixes : List String := ["document:", "page:", "shape:", "asset:", "binding:"]

/-- `strings.HasPrefix`. -/
def hasPrefix (s p : String) : Bool := p.toList.isPrefixOf s.toList

def isDocRecord (id : String) : Bool := docRecordPrefixes.any fun p => hasPrefix id p

/-- Pages and the document itself: losing one breaks the whole document. -/
def isStructural (id : String) : Bool := hasPrefix id "page:" || hasPrefix id "document:"

def isShape (id : String) : Bool := 6 < id.utf8ByteSize && hasPrefix id "shape:"

def isBinding (id : String) : Bool := 8 < id.utf8ByteSize && hasPrefix id "binding:"

/-! ## Patches -/

/-- The records of a drawing under their ids. -/
abbrev Records := ExtTreeMap String RawMessage

structure DocPatch where
  put : Records := ∅
  remove : List String := []
  deriving DecidableEq

def DocPatch.empty (p : DocPatch) : Prop := p.put.isEmpty = true ∧ p.remove = []

instance (p : DocPatch) : Decidable p.empty := inferInstanceAs (Decidable (_ ∧ _))

/-- What a client sends: which tab it is, the number it gave the patch, and the revision it
had applied when it made it. -/
structure DocPatchRequest extends DocPatch where
  clientID : String
  seq : Int
  baseRev : Int
  deriving DecidableEq

/-- The answer to an accepted patch. The patch to broadcast can be larger than what was
sent (bindings go with their shapes) or smaller (a put refused by a tombstone). -/
structure Applied where
  rev : Int
  patch : DocPatch := {}
  rejected : List String := []
  deriving DecidableEq

/-- What a record counts for in the size of a board. -/
def recordSize (id : String) (rec : RawMessage) : Int := byteLen rec + id.utf8ByteSize

def checkRecordID (id : String) : Except Err Unit := do
  refuse (id = "") ⟨.invalid, "empty record id", []⟩
  refuse (¬ isDocRecord id = true) ⟨.invalid, "%q is not a document record", [id]⟩

/-- One record of a patch to be put. -/
def checkPut (id : String) (rec : RawMessage) : Except Err Unit := do
  checkRecordID id
  refuse (MaxRecordBytes < byteLen rec)
    ⟨.invalid, "record %q exceeds %d bytes", [id, toString MaxRecordBytes]⟩
  refuse (¬ Json.valid rec = true) ⟨.invalid, "record %q is not valid JSON", [id]⟩

/-- What the patch weighs on the wire. -/
def DocPatch.weight (p : DocPatch) : Int :=
  (p.put.toList.map fun record => recordSize record.1 record.2).sum +
    (p.remove.map fun id => (id.utf8ByteSize : Int)).sum

/-- The checks on a submission before it can touch a room. -/
def DocPatchRequest.validate (r : DocPatchRequest) : Except Err Unit := do
  refuse (r.clientID = "") ⟨.invalid, "clientId is required", []⟩
  refuse (r.baseRev < 0) ⟨.invalid, "baseRev must not be negative", []⟩
  refuse r.toDocPatch.empty ⟨.invalid, "patch is empty", []⟩
  refuse (MaxRecordsPerPatch < r.put.size + r.remove.length)
    ⟨.invalid, "patch touches more than %d records", [toString MaxRecordsPerPatch]⟩
  r.put.toList.forM fun record => checkPut record.1 record.2
  r.remove.forM checkRecordID
  refuse ((MaxPatchBytes : Int) < r.weight)
    ⟨.invalid, "patch exceeds %d bytes", [toString MaxPatchBytes]⟩

/-! ## Bindings -/

/-- The records a binding joins, as far as it names them. -/
structure BindingEnds where
  fromID : String := ""
  toID : String := ""
  deriving DecidableEq, Repr

def BindingEnds.fields : List (Json.StructField BindingEnds) :=
  [Json.structField "fromId" Json.readString fun id ends => { ends with fromID := id },
    Json.structField "toId" Json.readString fun id ends => { ends with toID := id }]

/-- Reading the ends out of a record. -/
def bindingEnds (rec : RawMessage) : Option BindingEnds :=
  (Json.parse rec).bind (Json.decodeStruct BindingEnds.fields {})

/-- The ends a record names. -/
def namedEnds (rec : RawMessage) : List String :=
  match bindingEnds rec with
  | none => []
  | some ends => [ends.fromID, ends.toID].filter (· ≠ "")

/-- The record names one of the shapes as an end of its own. -/
def bindingTouches (rec : RawMessage) (shapeIDs : List String) : Bool :=
  match bindingEnds rec with
  | none => false
  | some ends =>
    (ends.fromID ≠ "" && shapeIDs.contains ends.fromID) ||
      (ends.toID ≠ "" && shapeIDs.contains ends.toID)

theorem bindingTouches_iff {rec : RawMessage} {shapeIDs : List String} :
    bindingTouches rec shapeIDs = true ↔ ∃ id ∈ namedEnds rec, id ∈ shapeIDs := by
  unfold bindingTouches namedEnds
  cases bindingEnds rec with
  | none => simp
  | some ends =>
    simp only [Bool.or_eq_true, Bool.and_eq_true, decide_eq_true_eq, List.contains_iff_mem,
      List.mem_filter, List.mem_cons, List.not_mem_nil, or_false]
    constructor
    · rintro (⟨hne, hmem⟩ | ⟨hne, hmem⟩)
      · exact ⟨_, ⟨.inl rfl, hne⟩, hmem⟩
      · exact ⟨_, ⟨.inr rfl, hne⟩, hmem⟩
    · rintro ⟨id, ⟨rfl | rfl, hne⟩, hmem⟩
      · exact .inl ⟨hne, hmem⟩
      · exact .inr ⟨hne, hmem⟩

end FusionLocalServer.Whiteboards
