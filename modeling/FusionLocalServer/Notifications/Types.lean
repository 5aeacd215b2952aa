import FusionLocalServer.Lib.Checks
import FusionLocalServer.Lib.Decimal
import FusionLocalServer.Lib.Text
import FusionLocalServer.Lib.Utf8
import FusionLocalServer.Storage.Schema

/-!
# The data of the notification store

A user's inbox is one file of notifications, oldest first. A deep link is cut at a number of
bytes, so that it need not be text any more; it is kept as the bytes it is, and what is
written to the file is the text that the bytes decode to.
-/

namespace Notifications

open Lib (Time formatInt encodeUtf8 decodeUtf8 replacementChar)
open FusionLocalServer.Storage

def fileVersion : Int := 1

def MaxPerUser : Nat := 500
def MaxSubjectRunes : Nat := 200
def MaxRefLen : Nat := 2048

def KindMention : String := "mention"
def KindAssigned : String := "assigned"
def KindDueSoon : String := "due_soon"
def KindOverdue : String := "overdue"
def KindProduction : String := "production"
def KindArchive : String := "archive"
def KindArchiveFailed : String := "archive_failed"
def KindFusionFailed : String := "fusion_failed"

def validKind (k : String) : Bool :=
  [KindMention, KindAssigned, KindDueSoon, KindOverdue, KindProduction, KindArchive,
    KindArchiveFailed, KindFusionFailed].contains k

/-- The sentinel an error wraps; `io` is a failed save or load. -/
inductive ErrKind where
  | futureVersion
  | invalid
  | io
deriving DecidableEq, Repr

/-- An error: its sentinel, the format it is printed with, and the quoted arguments. -/
structure Err where
  kind : ErrKind
  format : String
  args : List String := []
deriving DecidableEq, Repr

abbrev Bytes := List UInt8

structure UserRef where
  id : String
  name : String
  email : String
deriving DecidableEq, Repr

structure Notification where
  id : String := ""
  num : Int := 0
  kind : String
  hubID : String := ""
  projectID : String := ""
  projectName : String := ""
  actor : Option UserRef := none
  subject : String := ""
  ref : Bytes := []
  channelID : String := ""
  channelName : String := ""
  messageSeq : Int := 0
  dedupeKey : String := ""
  read : Bool := false
  createdAt : Time := zeroTime
  readAt : Option Time := none
deriving DecidableEq

structure UserFile where
  version : Int
  schema : Stamp
  userKey : String
  nextID : Int
  notifications : List Notification
deriving DecidableEq

/-! ## Cutting -/

def truncateRunes (s : String) (max : Nat) : String :=
  if s.length ≤ max then s else String.ofList (s.toList.take max)

def truncateBytes (s : Bytes) (max : Nat) : Bytes :=
  if s.length ≤ max then s else s.take max

/-- `pruneOldest`. -/
def pruneOldest (max : Nat) (ns : List Notification) : List Notification :=
  if max = 0 ∨ ns.length ≤ max then ns else ns.drop (ns.length - max)

theorem pruneOldest_suffix (max : Nat) (ns : List Notification) : pruneOldest max ns <:+ ns := by
  unfold pruneOldest
  split
  · exact List.suffix_rfl
  · exact List.drop_suffix ..

/-! ## What the file says -/

/-- A byte string that is text. -/
def IsText (s : Bytes) : Prop := encodeUtf8 (decodeUtf8 s) = s

instance (s : Bytes) : Decidable (IsText s) := inferInstanceAs (Decidable (_ = _))

theorem isText_encodeUtf8 (cs : List Char) : IsText (encodeUtf8 cs) := by
  unfold IsText
  rw [Lib.decodeUtf8_encodeUtf8]

theorem isText_iff {s : Bytes} : IsText s ↔ ∃ cs, encodeUtf8 cs = s :=
  ⟨fun h => ⟨_, h⟩, fun ⟨cs, h⟩ => h ▸ isText_encodeUtf8 cs⟩

/-- What a notification reads back as. -/
def Notification.written (n : Notification) : Notification :=
  { n with ref := encodeUtf8 (decodeUtf8 n.ref) }

theorem Notification.written_of_isText {n : Notification} (h : IsText n.ref) : n.written = n := by
  unfold written
  rw [show encodeUtf8 (decodeUtf8 n.ref) = n.ref from h]

/-- What a file reads back as. -/
def UserFile.written (uf : UserFile) : UserFile :=
  { uf with notifications := uf.notifications.map Notification.written }

end Notifications
