import FusionLocalServer.Whiteboards.Tombstones

/-!
# What a document takes up

A room counts the bytes of its records and of their ids, and refuses a patch that takes the
count beyond what the store accepts of a document. The document takes up more: quotes, a
colon and a comma for each record, escapes, the schema and the braces around it all. What it
takes up is the count and that `overhead` (`document_size`), so a room can be saved exactly
as long as both together stay within the limit (`document_fits`).
-/

namespace FusionLocalServer.Whiteboards

open Lib Std
open Lib.Json (RawMessage byteLen)

/-- What writing a record adds to its size; less than nothing where white space goes. -/
def growth (id : String) (rec : RawMessage) : Int :=
  (Json.memberSize id rec : Int) - recordSize id rec

/-- What writing a document adds to the size of its records. -/
def overhead (store : Records) (schema : RawMessage) : Int :=
  Table.total growth store + (if store.toList = [] then 2 else 1) + 10 +
    if schema = [] then 0 else 10 + (byteLen ((Json.compact schema).getD []) : Int)

/-- A document can be saved. -/
def Fits (store : Records) (schema : RawMessage) : Prop :=
  sizeOf store + overhead store schema ≤ MaxSnapshotBytes

theorem total_memberSize (m : Records) :
    ((m.toList.map fun r => Json.memberSize r.1 r.2).sum : Int) = sizeOf m + Table.total growth m := by
  unfold sizeOf Table.total
  induction m.toList with
  | nil => rfl
  | cons r l ih =>
    simp only [List.map_cons, List.sum_cons, Nat.cast_add] at ih ⊢
    rw [ih]
    unfold growth
    omega

namespace Room

/-- **What a document takes up** is the size of its records and the overhead. -/
theorem document_size {r : Room} {doc : List Char} (h : r.document = some doc) :
    (byteLen doc : Int) = sizeOf r.records + overhead r.records r.schema := by
  unfold document at h
  obtain ⟨store, hstore, h⟩ := Option.bind_eq_some_iff.mp h
  unfold Json.writeRawMap at hstore
  obtain ⟨members, hmembers, rfl⟩ := Option.map_eq_some_iff.mp hstore
  have hsize := Json.byteLen_writeMembers hmembers
  have htotal := total_memberSize r.records
  have hhead : byteLen "\x7b\"store\":".toList = 9 := by decide
  have hschema : byteLen ",\"schema\":".toList = 10 := by decide
  have hopen : '{'.utf8Size = 1 := rfl
  have hclose : '}'.utf8Size = 1 := rfl
  unfold overhead
  split at h
  · next hnone =>
    cases h
    rw [if_pos hnone]
    simp only [Json.byteLen_append, Json.byteLen_cons, Json.byteLen_nil, hhead, hopen, hclose]
    split at hsize
    · next hempty =>
      rw [if_pos hempty]
      omega
    · next hempty =>
      rw [if_neg hempty]
      omega
  · next hsome =>
    obtain ⟨schema, hcompact, rfl⟩ := Option.map_eq_some_iff.mp h
    rw [if_neg hsome, hcompact, Option.getD_some]
    simp only [Json.byteLen_append, Json.byteLen_cons, Json.byteLen_nil, hhead, hschema, hopen,
      hclose]
    split at hsize
    · next hempty =>
      rw [if_pos hempty]
      omega
    · next hempty =>
      rw [if_neg hempty]
      omega

theorem document_le_iff {r : Room} {doc : List Char} (h : r.document = some doc) :
    byteLen doc ≤ MaxSnapshotBytes ↔ Fits r.records r.schema := by
  unfold Fits
  rw [← document_size h]
  omega

/-! ## Runs -/

/-- A patch taken in, or another document. -/
inductive Edited (r : Room) : Edit → Room → Prop
  | patch {o : Offer} {r' : Room} : r.Patches o r' → Edited r (.patch o) r'
  | replace {doc : List Char} {by' : UserRef} {now : Time} {rev : Int} {r' : Room} :
      r.replace doc by' now = (r', .ok rev) → Edited r (.replace doc by' now) r'

/-- There is room for the change: what the records then take up, and what writing them adds,
is within the limit. -/
def Accommodates (r : Room) : Edit → Prop
  | .patch o => Fits (r.after o.req) r.schema
  | .replace doc _ _ => ∀ ld, readDoc doc = some ld → Fits ld.store ld.schema

theorem Edited.fits_iff {r r' : Room} {e : Edit} (h : r.Edited e r') :
    Fits r'.records r'.schema ↔ r.Accommodates e := by
  cases h with
  | patch h =>
    obtain ⟨a, ha⟩ := h
    have ht := ha.taken
    have hrecords : r'.records = r.after _ :=
      ExtTreeMap.ext_getElem? fun id => (ht.records id).trans (get_after id).symm
    rw [hrecords, ht.schema]
    rfl
  | @replace doc by' now rev r' h =>
    unfold Room.replace at h
    cases hread : readDoc doc with
    | none =>
      rw [hread] at h
      cases h
    | some ld =>
      rw [hread] at h
      cases h
      constructor
      · intro hfits ld' hld'
        rw [hread] at hld'
        cases hld'
        exact hfits
      · exact fun hall => hall ld hread

/-- The count of a room is the size of its records. -/
theorem Edited.slack {r r' : Room} {e : Edit} (h : r.Edited e r') (hslack : r.slack = 0) :
    r'.slack = 0 := by
  cases h with
  | patch h =>
    obtain ⟨a, ha⟩ := h
    exact ha.taken.slack.trans hslack
  | replace h =>
    unfold Room.replace at h
    split at h
    · cases h
    · cases h
      exact Int.sub_self _

theorem loaded_slack {projectID boardID : String} {doc : Option (List Char)} {rev : Int}
    {now : Time} {r : Room} (h : newRoom projectID boardID doc rev now = .ok r) : r.slack = 0 := by
  unfold newRoom at h
  split at h
  · cases h; rfl
  · cases h; rfl
  · split at h
    · cases h
    · cases h
      exact Int.sub_self _

/-- The count is right, and the document is not too large. -/
structure Savable (r : Room) : Prop where
  count : r.slack = 0
  fits : Fits r.records r.schema

theorem Edited.savable {r r' : Room} {e : Edit} (h : r.Edited e r') (hok : r.Accommodates e)
    (hr : r.Savable) : r'.Savable := by
  constructor
  · exact h.slack hr.count
  · exact h.fits_iff.mpr hok

/-- A text of so many angle brackets. -/
def brackets (n : Nat) : List Char := List.replicate n '<'

theorem strLit_brackets (n : Nat) : Json.StrLit (brackets n) :=
  Json.strLit_of_plain fun c hc => by
    obtain rfl := List.eq_of_mem_replicate hc
    decide

/-- A stored document with one record, a text of angle brackets. -/
def bracketDoc (n : Nat) : Json :=
  .obj [(Json.quote "store", .obj [(Json.quote "asset:a", .str (brackets n))])]

theorem bracketDoc_written (n : Nat) : Json.Written (bracketDoc n) :=
  ⟨Json.strLit_quote _, ⟨Json.strLit_quote _, strLit_brackets n, trivial⟩, trivial⟩

/-- The room over it. -/
def bracketRoom (n : Nat) : Room :=
  { projectID := "p", boardID := "w1"
    records := (∅ : Records).insert "asset:a" (Json.render (.str (brackets n))), schema := []
    rev := 0, bytes := sizeOf ((∅ : Records).insert "asset:a" (Json.render (.str (brackets n))))
    tombs := ∅, lastSeq := ∅, lastBy := default, dirty := false, savedRev := 0, dirtyAt := none
    lastTouch := 0, subs := 0 }

theorem bracketDoc_read (n : Nat) : readDoc (Json.render (bracketDoc n)) =
    some { store := (∅ : Records).insert "asset:a" (Json.render (.str (brackets n))) } := by
  have hwritten := bracketDoc_written n
  have hvalid : Json.valid (Json.render (bracketDoc n)) = true := by
    unfold Json.valid
    rw [Json.parse_render hwritten (by simp [bracketDoc, Json.depth, Json.depthMembers,
      Json.maxNestingDepth])]
    rfl
  have houter := Json.cutObject_render hwritten
  have hmembers : Json.WrittenMembers [(Json.quote "asset:a", .str (brackets n))] :=
    ⟨Json.strLit_quote _, strLit_brackets n, trivial⟩
  have hinner := Json.cutObject_render hmembers
  unfold readDoc
  rw [hvalid, if_neg (by decide)]
  show (Json.cutObject (Json.render (.obj [_]))).bind _ = _
  rw [houter]
  have hstore : Json.unquote (Json.quote "store") = "store" := by decide
  have hasset : Json.unquote (Json.quote "asset:a") = "asset:a" := by decide
  have hmap : Json.readRawMap ∅ (Json.render (.obj [(Json.quote "asset:a", .str (brackets n))])) =
      some ((∅ : Records).insert "asset:a" (Json.render (.str (brackets n)))) := by
    unfold Json.readRawMap
    rw [if_neg (by simp [Json.render]), hinner]
    simp only [List.map_cons, List.map_nil, Option.map_some, List.foldl_cons, List.foldl_nil, hasset]
  simp only [List.map_cons, List.map_nil, Option.bind_some, List.foldlM_cons, List.foldlM_nil,
    hstore, LiveDoc.fields, List.find?_cons, decide_true, Option.some_or, hmap, Option.map_some]
  rfl

theorem byteLen_escaped (n : Nat) : byteLen ((brackets n).flatMap Json.escapeRaw) = n * 6 := by
  induction n with
  | zero => rfl
  | succ n ih =>
    have hone : byteLen (Json.escapeRaw '<') = 6 := by decide
    show byteLen (Json.escapeRaw '<' ++ (brackets n).flatMap Json.escapeRaw) = _
    rw [Json.byteLen_append, ih, hone]
    omega

/-- The text of the record as the room writes it. -/
theorem compact_brackets (n : Nat) : Json.compact (Json.render (.str (brackets n))) =
    some ('"' :: (brackets n).flatMap Json.escapeRaw ++ ['"']) := by
  unfold Json.compact
  rw [Json.parse_render (v := .str (brackets n)) (strLit_brackets n) (Nat.zero_le _), Option.map_some]
  show some (List.flatMap Json.escapeRaw ('"' :: brackets n ++ ['"'])) = _
  rw [List.flatMap_append, List.flatMap_cons]
  rfl

theorem byteLen_bracketDoc (n : Nat) : byteLen (Json.render (bracketDoc n)) = n + 24 := by
  have hstore : byteLen (Json.quote "store") = 5 := by decide
  have hasset : byteLen (Json.quote "asset:a") = 7 := by decide
  have hbrackets : byteLen (brackets n) = n * 1 := Json.byteLen_replicate n '<'
  have hquote : '"'.utf8Size = 1 := rfl
  have hcolon : ':'.utf8Size = 1 := rfl
  have hopen : '{'.utf8Size = 1 := rfl
  have hclose : '}'.utf8Size = 1 := rfl
  simp only [bracketDoc, Json.render, Json.renderMembers, Json.byteLen_append,
    Json.byteLen_cons, Json.byteLen_nil, hstore, hasset, hbrackets, hquote, hcolon, hopen, hclose]
  omega

theorem bracketRoom_loaded (n : Nat) :
    newRoom "p" "w1" (some (Json.render (bracketDoc n))) 0 0 = .ok (bracketRoom n) := by
  obtain ⟨c, tail, hrender, -⟩ := Json.render_head (bracketDoc_written n)
  have hread := bracketDoc_read n
  unfold newRoom
  rw [hrender] at hread ⊢
  dsimp only
  rw [hread]
  rfl

theorem toList_singleton (id : String) (rec : RawMessage) :
    ((∅ : Records).insert id rec).toList = [(id, rec)] := by
  have hperm := Table.toList_insert_perm (∅ : Records) id rec
  rw [Table.erase_self ExtTreeMap.getElem?_empty] at hperm
  exact List.perm_singleton.mp hperm

theorem bracketRoom_document (n : Nat) : ∃ doc, (bracketRoom n).document = some doc ∧
    n * 6 ≤ byteLen doc := by
  have hstore : Json.writeRawMap (bracketRoom n).records =
      some ('{' :: ('"' :: Json.quote "asset:a" ++ '"' :: ':' ::
        ('"' :: (brackets n).flatMap Json.escapeRaw ++ ['"']) ++ ['}'])) := by
    unfold Json.writeRawMap
    show (Json.writeMembers ((∅ : Records).insert "asset:a" _).toList).map _ = _
    rw [toList_singleton, Json.writeMembers, compact_brackets]
    rfl
  unfold document
  rw [hstore]
  refine ⟨_, rfl, ?_⟩
  simp only [Json.byteLen_append, Json.byteLen_cons, byteLen_escaped]
  omega

end Room

end FusionLocalServer.Whiteboards
