import FusionLocalServer.Lib.FormUrl

/-!
# Reference tokens in the web app

What `encodeDocRef` writes for a document, what the six parsers read, and how `splitRefTokens`
takes a text apart (`components/reftokens.ts`, `doccard/docref.ts` and the siblings of it). A text
is given as its characters.

`URLSearchParams` follows the form-urlencoded standard. In text that is not UTF-8 after decoding
the standard may write one U+FFFD where this reader writes several.
-/

namespace FusionLocalServer.RefTokens

open Lib Lib.FormUrl

/-! ## The query of a token -/

/-- A line of form-urlencoded pairs as text. -/
def ofBytes (bs : List UInt8) : List Char := bs.map fun b => Char.ofNat b.toNat

/-- `URLSearchParams.toString`. -/
def toQuery (ps : List (String × List Char)) : List Char :=
  ofBytes (serialize (ps.map fun p => (encodeUtf8 p.1.toList, encodeUtf8 p.2)))

/-- `new URLSearchParams`. -/
def searchParams (init : List Char) : List (List Char × List Char) :=
  (parse (encodeUtf8 (if init.head? = some '?' then init.drop 1 else init))).map fun p =>
    (decodeUtf8 p.1, decodeUtf8 p.2)

/-- `sp.get(name) ?? ''`. -/
def field (sp : List (List Char × List Char)) (name : String) : List Char :=
  (sp.lookup name.toList).getD []

/-- `sp.get(name) || otherwise`. -/
def fieldOr (sp : List (List Char × List Char)) (name otherwise : String) : List Char :=
  if field sp name = [] then otherwise.toList else field sp name

/-- The query of a url with the prefix. -/
def queryOf (scheme : String) (url : List Char) : Option (List (List Char × List Char)) :=
  if scheme.toList.isPrefixOf url then some (searchParams (url.drop scheme.toList.length)) else none

/-! ## The six kinds -/

structure DocRef where
  hubId : List Char
  itemId : List Char
  name : List Char
  kind : List Char
deriving DecidableEq

structure TaskRef where
  hubId : List Char
  projectId : List Char
  taskId : List Char
  title : List Char
deriving DecidableEq

structure JobRef where
  hubId : List Char
  projectId : List Char
  projectName : List Char
  jobId : List Char
  jobName : List Char
deriving DecidableEq

structure BatchRef extends JobRef where
  batchId : List Char
  batchName : List Char
deriving DecidableEq

structure WhiteboardRef where
  hubId : List Char
  projectId : List Char
  projectName : List Char
  boardId : List Char
  name : List Char
deriving DecidableEq

structure ImgRef where
  dmProjectId : List Char
  itemId : List Char
  name : List Char
deriving DecidableEq

def docRefPrefix : String := "fls:doc?"
def taskRefPrefix : String := "fls:task?"
def jobRefPrefix : String := "fls:job?"
def batchRefPrefix : String := "fls:batch?"
def whiteboardRefPrefix : String := "fls:whiteboard?"
def imgRefPrefix : String := "fls:img?"

def encodeDocRef (ref : DocRef) : List Char :=
  docRefPrefix.toList ++ toQuery
    [("hubId", ref.hubId), ("itemId", ref.itemId), ("name", ref.name), ("kind", ref.kind)]

def parseDocRef (url : List Char) : Option DocRef := do
  let sp ← queryOf docRefPrefix url
  if field sp "hubId" = [] ∨ field sp "itemId" = [] then none
  else some {
    hubId := field sp "hubId", itemId := field sp "itemId"
    name := fieldOr sp "name" "document", kind := fieldOr sp "kind" "unknown" }

def parseTaskRef (url : List Char) : Option TaskRef := do
  let sp ← queryOf taskRefPrefix url
  if field sp "projectId" = [] ∨ field sp "taskId" = [] then none
  else some {
    hubId := field sp "hubId", projectId := field sp "projectId", taskId := field sp "taskId"
    title := fieldOr sp "title" "task" }

def parseJobRef (url : List Char) : Option JobRef := do
  let sp ← queryOf jobRefPrefix url
  if field sp "projectId" = [] ∨ field sp "jobId" = [] then none
  else some {
    hubId := field sp "hubId", projectId := field sp "projectId"
    projectName := fieldOr sp "projectName" "project"
    jobId := field sp "jobId", jobName := fieldOr sp "jobName" "job" }

def parseBatchRef (url : List Char) : Option BatchRef := do
  let sp ← queryOf batchRefPrefix url
  if field sp "projectId" = [] ∨ field sp "jobId" = [] ∨ field sp "batchId" = [] then none
  else some {
    hubId := field sp "hubId", projectId := field sp "projectId"
    projectName := fieldOr sp "projectName" "project"
    jobId := field sp "jobId", jobName := fieldOr sp "jobName" "job"
    batchId := field sp "batchId", batchName := fieldOr sp "batchName" "batch" }

def parseWhiteboardRef (url : List Char) : Option WhiteboardRef := do
  let sp ← queryOf whiteboardRefPrefix url
  if field sp "projectId" = [] ∨ field sp "boardId" = [] then none
  else some {
    hubId := field sp "hubId", projectId := field sp "projectId"
    projectName := field sp "projectName"
    boardId := field sp "boardId", name := fieldOr sp "name" "whiteboard" }

def parseImgRef (url : List Char) : Option ImgRef := do
  let sp ← queryOf imgRefPrefix url
  if field sp "dmProjectId" = [] ∨ field sp "itemId" = [] then none
  else some {
    dmProjectId := field sp "dmProjectId", itemId := field sp "itemId"
    name := fieldOr sp "name" "image" }

/-! ## Splitting a text -/

inductive RefPart where
  | text (text : List Char)
  | doc (ref : DocRef)
  | task (ref : TaskRef)
  | job (ref : JobRef)
  | batch (ref : BatchRef)
  | whiteboard (ref : WhiteboardRef)
  | img (ref : ImgRef)
deriving DecidableEq

/-- The alternatives of `TOKEN_RE`, in its order. -/
def schemes : List String :=
  [docRefPrefix, taskRefPrefix, batchRefPrefix, jobRefPrefix, whiteboardRefPrefix, imgRefPrefix]

/-- The character class of `TOKEN_RE`. -/
def tokenChar (c : Char) : Bool :=
  ('A' ≤ c && c ≤ 'Z') || ('a' ≤ c && c ≤ 'z') || ('0' ≤ c && c ≤ '9') ||
    "*-._%&=+".toList.contains c

/-- `TOKEN_RE` at the beginning of a text: the match, and what comes after it. -/
def tokenAt (s : List Char) : Option (List Char × List Char) :=
  schemes.findSome? fun scheme =>
    let run := (s.drop scheme.toList.length).takeWhile tokenChar
    if scheme.toList.isPrefixOf s ∧ run ≠ [] then
      some (scheme.toList ++ run, s.drop (scheme.toList ++ run).length)
    else none

/-- The parsers, in the order they are tried. -/
def parseToken (m : List Char) : Option RefPart :=
  (parseDocRef m).map .doc <|> (parseTaskRef m).map .task <|> (parseBatchRef m).map .batch <|>
    (parseJobRef m).map .job <|> (parseWhiteboardRef m).map .whiteboard <|> (parseImgRef m).map .img

/-- A run of text, if there is any. -/
def textRun (run : List Char) : List RefPart := if run = [] then [] else [.text run]

/-- The loop over the matches: `run` is the text since the last token that was read. -/
def splitFrom : Nat → List Char → List Char → List RefPart
  | 0, run, _ => textRun run
  | _ + 1, run, [] => textRun run
  | fuel + 1, run, c :: s =>
    match tokenAt (c :: s) with
    | some (m, rest) =>
      match parseToken m with
      | some part => textRun run ++ part :: splitFrom fuel [] rest
      | none => splitFrom fuel (run ++ m) rest
    | none => splitFrom fuel (run ++ [c]) s

def splitRefTokens (text : List Char) : List RefPart :=
  match splitFrom text.length [] text with
  | [] => [.text text]
  | parts => parts

example : splitRefTokens "fls:doc? of fls:doc?projectId=p".toList =
    [.text "fls:doc? of fls:doc?projectId=p".toList] := by
  decide +kernel

/-! ## Reading a token back -/

theorem toNat_ofNat {b : UInt8} : b.toNat < 128 → (Char.ofNat b.toNat).toNat = b.toNat :=
  forall_byte (P := fun b => b.toNat < 128 → (Char.ofNat b.toNat).toNat = b.toNat)
    (by decide +kernel) b

theorem encodeUtf8_ofBytes {bs : List UInt8} (h : ∀ b ∈ bs, b.toNat < 128) :
    encodeUtf8 (ofBytes bs) = bs := by
  induction bs with
  | nil => rfl
  | cons b bs ih =>
    have hb := h b List.mem_cons_self
    have hchar : (Char.ofNat b.toNat).toNat = b.toNat := toNat_ofNat hb
    show encodeUtf8 (Char.ofNat b.toNat :: ofBytes bs) = b :: bs
    rw [encodeUtf8_cons, utf8EncodeChar_ascii (by rw [hchar]; exact hb), hchar, UInt8.ofNat_toNat,
      ih fun b' hb' => h b' (List.mem_cons_of_mem _ hb')]
    rfl

theorem lt_of_inAlphabet {b : UInt8} : inAlphabet b = true → b.toNat < 128 :=
  forall_byte (P := fun b => inAlphabet b = true → b.toNat < 128) (by decide +kernel) b

theorem tokenChar_ofNat {b : UInt8} : inAlphabet b = true →
    tokenChar (Char.ofNat b.toNat) = true ∧ Char.ofNat b.toNat ≠ '?' :=
  forall_byte (P := fun b => inAlphabet b = true →
    tokenChar (Char.ofNat b.toNat) = true ∧ Char.ofNat b.toNat ≠ '?') (by decide +kernel) b

theorem mem_toQuery {ps : List (String × List Char)} {c : Char} (h : c ∈ toQuery ps) :
    tokenChar c = true ∧ c ≠ '?' := by
  obtain ⟨b, hb, rfl⟩ := List.mem_map.mp h
  exact tokenChar_ofNat (mem_serialize hb)

theorem encodeUtf8_toQuery (ps : List (String × List Char)) :
    encodeUtf8 (toQuery ps) =
      serialize (ps.map fun p => (encodeUtf8 p.1.toList, encodeUtf8 p.2)) :=
  encodeUtf8_ofBytes fun _ hb => lt_of_inAlphabet (mem_serialize hb)

theorem searchParams_toQuery (ps : List (String × List Char)) :
    searchParams (toQuery ps) = ps.map fun p => (p.1.toList, p.2) := by
  have hmark : (toQuery ps).head? ≠ some '?' := fun h =>
    (mem_toQuery (List.mem_of_head? h)).2 rfl
  rw [searchParams, if_neg hmark, encodeUtf8_toQuery, parse_serialize, List.map_map]
  refine List.map_congr_left fun p _ => ?_
  simp only [Function.comp, decodeUtf8_encodeUtf8]

/-- No part of the reference is missing. -/
structure DocRef.Full (ref : DocRef) : Prop where
  hubId : ref.hubId ≠ []
  itemId : ref.itemId ≠ []
  name : ref.name ≠ []
  kind : ref.kind ≠ []

theorem parseDocRef_encodeDocRef {ref : DocRef} (h : ref.Full) :
    parseDocRef (encodeDocRef ref) = some ref := by
  obtain ⟨sp, hquery, hhub, hitem, hname, hkind⟩ : ∃ sp,
      queryOf docRefPrefix (encodeDocRef ref) = some sp ∧ field sp "hubId" = ref.hubId ∧
        field sp "itemId" = ref.itemId ∧ field sp "name" = ref.name ∧
        field sp "kind" = ref.kind := by
    refine ⟨[("hubId".toList, ref.hubId), ("itemId".toList, ref.itemId),
      ("name".toList, ref.name), ("kind".toList, ref.kind)], ?_, rfl, rfl, rfl, rfl⟩
    rw [queryOf, encodeDocRef, if_pos (List.isPrefixOf_iff_prefix.mpr (List.prefix_append ..)),
      List.drop_left, searchParams_toQuery]
    rfl
  have hname' : fieldOr sp "name" "document" = ref.name := by
    rw [fieldOr, hname, if_neg h.name]
  have hkind' : fieldOr sp "kind" "unknown" = ref.kind := by
    rw [fieldOr, hkind, if_neg h.kind]
  rw [parseDocRef, hquery]
  show (if field sp "hubId" = [] ∨ field sp "itemId" = [] then none else some _) = _
  rw [if_neg, hhub, hitem, hname', hkind']
  rintro (hempty | hempty)
  · exact h.hubId (hhub ▸ hempty)
  · exact h.itemId (hitem ▸ hempty)

end FusionLocalServer.RefTokens
