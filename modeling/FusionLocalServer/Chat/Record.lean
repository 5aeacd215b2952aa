import FusionLocalServer.Lib.LineLog
import FusionLocalServer.Lib.Text
import FusionLocalServer.Lib.Utf8
import FusionLocalServer.Lib.Json.Time

/-!
# The message log (`chat/jsonl.go`)

A channel's log is an append-only file of JSON records, one a line. `appendRecord` writes
a record in one call, which may fail part way; `replayLog` reads the valid records and
trims whatever follows them.

Texts are Unicode strings: they come out of decoded JSON requests, which hold nothing
else. Sequence numbers and counters are 64-bit and wrap.
-/

namespace FusionLocalServer.Chat

open Lib Lib.Json

/-- `recordVersion`. -/
def recordVersion : Int := 1

def opCreate : String := "create"
def opEdit : String := "edit"
def opDelete : String := "delete"
def opReact : String := "react"
def opUnreact : String := "unreact"

/-- `time.Time{}`: the start of the year 1. -/
def zeroTime : Time := 366 * secondsPerDay * nanosPerSecond

/-- `record`: one line of a channel's log. Each field defaults to its zero value. -/
structure Record where
  v : Int := 0
  op : String := ""
  seq : Int := 0
  target : Int := 0
  threadRoot : Int := 0
  authorID : String := ""
  authorName : String := ""
  clientMsgID : String := ""
  userID : String := ""
  emoji : String := ""
  body : String := ""
  at' : Time := zeroTime
  deriving DecidableEq, Repr

/-- A record whose integers are 64-bit ones. -/
structure Record.Sound (rec : Record) : Prop where
  v : InInt64 rec.v
  seq : InInt64 rec.seq
  target : InInt64 rec.target
  threadRoot : InInt64 rec.threadRoot

/-! ## JSON -/

/-- The fields of `record` with their JSON names. -/
def recordFields : List (StructField Record) :=
  [structField "v" readInt fun b r => { r with v := b },
   structField "op" readString fun b r => { r with op := b },
   structField "seq" readInt fun b r => { r with seq := b },
   structField "target" readInt fun b r => { r with target := b },
   structField "threadRoot" readInt fun b r => { r with threadRoot := b },
   structField "authorId" readString fun b r => { r with authorID := b },
   structField "authorName" readString fun b r => { r with authorName := b },
   structField "clientMsgId" readString fun b r => { r with clientMsgID := b },
   structField "userId" readString fun b r => { r with userID := b },
   structField "emoji" readString fun b r => { r with emoji := b },
   structField "body" readString fun b r => { r with body := b },
   structField "at" readTime fun b r => { r with at' := b }]

/-- The members `json.Marshal` writes for a record, given the text of its time. -/
def Record.members (rec : Record) (time : List Char) : List (List Char × Json) :=
  member "v" (intValue rec.v) ++ (member "op" (stringValue rec.op) ++
  (omitInt "seq" rec.seq ++ (omitInt "target" rec.target ++
  (omitInt "threadRoot" rec.threadRoot ++ (omitString "authorId" rec.authorID ++
  (omitString "authorName" rec.authorName ++ (omitString "clientMsgId" rec.clientMsgID ++
  (omitString "userId" rec.userID ++ (omitString "emoji" rec.emoji ++
  (omitString "body" rec.body ++ member "at" (.str time)))))))))))

/-- `json.Marshal(rec)`; it fails for a time that RFC 3339 cannot write. -/
def Record.marshal (rec : Record) : Option (List Char) :=
  (formatTime rec.at').map fun time => render (.obj (rec.members time))

/-- `json.Unmarshal(line, &rec)`. -/
def unmarshalRecord (line : List UInt8) : Option Record :=
  (parse (decodeUtf8 line)).bind (decodeStruct recordFields {})

/-- Every member goes back into the field it came from. -/
theorem decodeMembers_members {rec : Record} (hs : rec.Sound) {time : List Char}
    (htime : parseTime time = some rec.at') :
    decodeMembers recordFields (rec.members time) {} = some rec := by
  unfold Record.members
  rw [decodeMembers_append_of (decode_int rfl hs.v _),
    decodeMembers_append_of (decode_string rfl rec.op _),
    decodeMembers_append_of (decode_omitInt rfl hs.seq rfl),
    decodeMembers_append_of (decode_omitInt rfl hs.target rfl),
    decodeMembers_append_of (decode_omitInt rfl hs.threadRoot rfl),
    decodeMembers_append_of (decode_omitString rfl rec.authorID rfl),
    decodeMembers_append_of (decode_omitString rfl rec.authorName rfl),
    decodeMembers_append_of (decode_omitString rfl rec.clientMsgID rfl),
    decodeMembers_append_of (decode_omitString rfl rec.userID rfl),
    decodeMembers_append_of (decode_omitString rfl rec.emoji rfl),
    decodeMembers_append_of (decode_omitString rfl rec.body rfl),
    decode_member rfl (by rintro ⟨⟩) htime]

theorem written_members (rec : Record) {time : List Char} (h : StrLit time) :
    WrittenMembers (rec.members time) := by
  unfold Record.members
  refine writtenMembers_append (written_member _ (written_intValue _)) ?_
  refine writtenMembers_append (written_member _ (written_stringValue _)) ?_
  refine writtenMembers_append (written_omitInt _ _) ?_
  refine writtenMembers_append (written_omitInt _ _) ?_
  refine writtenMembers_append (written_omitInt _ _) ?_
  refine writtenMembers_append (written_omitString _ _) ?_
  refine writtenMembers_append (written_omitString _ _) ?_
  refine writtenMembers_append (written_omitString _ _) ?_
  refine writtenMembers_append (written_omitString _ _) ?_
  refine writtenMembers_append (written_omitString _ _) ?_
  exact writtenMembers_append (written_omitString _ _) (written_member _ h)

/-- A record holds no nested value. -/
theorem depth_members (rec : Record) (time : List Char) :
    depth (.obj (rec.members time)) = 1 := by
  have hflat : Flat (rec.members time) := by
    unfold Record.members
    refine flat_append rfl (flat_append rfl ?_)
    refine flat_append (flat_omitInt _ _) (flat_append (flat_omitInt _ _) ?_)
    refine flat_append (flat_omitInt _ _) (flat_append (flat_omitString _ _) ?_)
    refine flat_append (flat_omitString _ _) (flat_append (flat_omitString _ _) ?_)
    refine flat_append (flat_omitString _ _) (flat_append (flat_omitString _ _) ?_)
    exact flat_append (flat_omitString _ _) rfl
  show depthMembers (rec.members time) + 1 = 1
  rw [hflat]

/-! ## The log -/

/-- Why a call fails: the request breaks a rule (`ErrInvalid`), names something unknown
(`ErrNotFound`), meets a log of a newer build (`ErrFutureVersion`), or the file system
refuses. -/
inductive Err where
  | invalid (reason : String)
  | notFound (what : String)
  | futureVersion (v : Int)
  | io (op : String)
  deriving DecidableEq, Repr

/-- How `replayLog` treats a line. `migrateRecord` is the identity at this version. -/
def logReader : LineReader Record where
  blank line := (decodeUtf8 line).all isSpace
  decode := unmarshalRecord
  future rec := recordVersion < rec.v

/-- What the file system does to one `Write`: all of it, or an error after `n` bytes, in
which case the final newline has not been written. -/
inductive WriteOutcome where
  | full
  | torn (n : Nat)
  deriving DecidableEq, Repr

/-- A channel's log file and its `.bak`. -/
structure LogFile where
  bytes : List UInt8
  bak : Option (List UInt8)
  deriving DecidableEq, Repr

/-- `appendRecord`. -/
def appendRecord (f : LogFile) (rec : Record) (w : WriteOutcome) : LogFile × Except Err Unit :=
  match rec.marshal with
  | none => (f, .error (.io "marshal"))
  | some text =>
    match w with
    | .full => ({ f with bytes := f.bytes ++ (encodeUtf8 text ++ [newline]) }, .ok ())
    | .torn n => ({ f with bytes := f.bytes ++ (encodeUtf8 text).take n }, .error (.io "append"))

/-- Where loading a log can fail. -/
inductive LoadFault where
  | read
  | truncate
  | open'
  deriving DecidableEq, Repr

/-- `replayLog`. -/
def replayLog (f : LogFile) (fault : Option LoadFault) : LogFile × Except Err (List Record) :=
  if fault = some .read then (f, .error (.io "read"))
  else
    match logReader.read f.bytes with
    | .error rec => (f, .error (.futureVersion rec.v))
    | .ok s =>
      if s.validEnd < f.bytes.length then
        let f := if s.corrupt then { f with bak := some f.bytes } else f
        if fault = some .truncate then (f, .error (.io "truncate"))
        else ({ f with bytes := f.bytes.take s.validEnd }, .ok s.recs)
      else (f, .ok s.recs)

/-- **A marshalled record reads back**, off a line of its own. -/
theorem line_of_marshal {rec : Record} (hs : rec.Sound) (hv : rec.v = recordVersion)
    {text : List Char} (h : rec.marshal = some text) :
    logReader.Line (encodeUtf8 text) rec := by
  obtain ⟨time, htime, rfl⟩ := Option.map_eq_some_iff.mp h
  have hwritten : Written (.obj (rec.members time)) :=
    written_members rec (strLit_of_formatTime htime)
  refine { oneLine := fun hmem => ?_, notBlank := ?_, decodes := ?_, current := ?_ }
  · have hnl : '\n' ∈ render (.obj (rec.members time)) :=
      mem_of_ascii_mem_encodeUtf8 (by decide) hmem
    exact absurd (printable_render _ hwritten _ hnl) (by decide)
  · show ((decodeUtf8 (encodeUtf8 _)).all isSpace) = false
    rw [decodeUtf8_encodeUtf8]
    rfl
  · show (parse (decodeUtf8 (encodeUtf8 _))).bind _ = _
    rw [decodeUtf8_encodeUtf8, parse_render hwritten (by rw [depth_members]; decide)]
    exact decodeMembers_members hs (parseTime_formatTime htime)
  · show decide (recordVersion < rec.v) = false
    rw [hv]
    rfl

end FusionLocalServer.Chat
