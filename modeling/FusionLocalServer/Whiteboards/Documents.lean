import FusionLocalServer.Lib.Json.Compact
import FusionLocalServer.Whiteboards.Room

/-!
# What a stored document holds

A room is written as a document and made from one again. The texts of the records are
compact then, and the records are the same otherwise (`document_read`): they are written
alike (`LiveDoc.Alike`).
-/

namespace FusionLocalServer.Whiteboards

open Lib Std
open Lib.Json (RawMessage)

namespace LiveDoc

/-- Two documents that are written in the same way. -/
structure Alike (a b : LiveDoc) : Prop where
  store : ∀ id : String, (a.store[id]?).map Json.compact = (b.store[id]?).map Json.compact
  schema : Json.compact a.schema = Json.compact b.schema

theorem Alike.refl (a : LiveDoc) : a.Alike a := ⟨fun _ => rfl, rfl⟩

theorem Alike.symm {a b : LiveDoc} (h : a.Alike b) : b.Alike a :=
  ⟨fun id => (h.store id).symm, h.schema.symm⟩

theorem Alike.trans {a b c : LiveDoc} (h : a.Alike b) (h' : b.Alike c) : a.Alike c :=
  ⟨fun id => (h.store id).trans (h'.store id), h.schema.trans h'.schema⟩

end LiveDoc

/-- What is in the file of a drawing: nothing, when there is no file or an empty one. -/
def readStored : Option (List Char) → Option LiveDoc
  | none => some {}
  | some [] => some {}
  | some doc => readDoc doc

namespace Room

/-- What a room holds of its document. -/
def live (r : Room) : LiveDoc := { store := r.records, schema := r.schema }

/-- A room that was just made holds what is in the file. -/
theorem newRoom_ok {projectID boardID : String} {doc : Option (List Char)} {rev : Int} {now : Time}
    {r : Room} (h : newRoom projectID boardID doc rev now = .ok r) :
    readStored doc = some r.live ∧ r.rev = rev ∧ r.dirty = false ∧
      r.projectID = projectID ∧ r.boardID = boardID := by
  unfold newRoom at h
  split at h
  · cases h
    exact ⟨rfl, rfl, rfl, rfl, rfl⟩
  · cases h
    exact ⟨rfl, rfl, rfl, rfl, rfl⟩
  · next doc hne =>
    split at h
    · cases h
    · next ld hread =>
      cases h
      refine ⟨?_, rfl, rfl, rfl, rfl⟩
      rw [readStored.eq_3 doc fun hnil => hne hnil]
      exact hread

/-- The text of a document, as that of a value. -/
theorem document_render {r : Room} {doc : List Char} (h : r.document = some doc) :
    ∃ members, Json.WrittenMembers members ∧
      members.map (fun m => (m.1, some (Json.render m.2))) =
        (r.records.toList.map fun m => (Json.quote m.1, Json.compact m.2)) ∧
      ((r.schema = [] ∧
          doc = Json.render (.obj [(Json.quote "store", .obj members)])) ∨
        ∃ v, Json.Written v ∧ Json.compact r.schema = some (Json.render v) ∧
          doc = Json.render (.obj [(Json.quote "store", .obj members), (Json.quote "schema", v)])) := by
  unfold document at h
  obtain ⟨store, hstore, h⟩ := Option.bind_eq_some_iff.mp h
  obtain ⟨members, hw, rfl, hmap⟩ := Json.writeRawMap_render hstore
  refine ⟨members, hw, hmap, ?_⟩
  have hqstore : Json.quote "store" = "store".toList := by decide
  have hqschema : Json.quote "schema" = "schema".toList := by decide
  dsimp only at h
  split at h
  · next hnone =>
    cases h
    refine .inl ⟨hnone, ?_⟩
    rw [Json.render, hqstore]
    simp [Json.renderMembers]
  · obtain ⟨text, htext, rfl⟩ := Option.map_eq_some_iff.mp h
    obtain ⟨v, hv, -, rfl, -⟩ := Json.compact_spec htext
    refine .inr ⟨v, hv, htext, ?_⟩
    rw [Json.render, hqstore, Json.renderMembers, hqschema]
    simp [Json.renderMembers]

/-- What a member of a document does to what was read before it. -/
def readField (ld : LiveDoc) (member : String × RawMessage) : Option LiveDoc :=
  match (LiveDoc.fields.find? fun f => f.1 = member.1).or
      (LiveDoc.fields.find? fun f => Json.sameFold f.1 member.1) with
  | none => some ld
  | some f => f.2 member.2 ld

theorem readDoc_cut {doc : List Char} {members : List (List Char × RawMessage)}
    (hvalid : Json.valid doc = true) (hcut : Json.cutObject doc = some members) :
    readDoc doc = (members.map fun m => (Json.unquote m.1, m.2)).foldlM readField {} := by
  unfold readDoc
  rw [hvalid, if_neg (by decide), hcut, Option.bind_some, List.foldlM_map]
  rfl

theorem readField_store (raw : RawMessage) : readField {} ("store", raw) =
    (Json.readRawMap ∅ raw).map fun store => { store } := rfl

theorem readField_schema (ld : LiveDoc) (raw : RawMessage) :
    readField ld ("schema", raw) = some { ld with schema := raw } := rfl

/-- **A document reads back** as what the room held of it. -/
theorem document_read {r : Room} {doc : List Char} (h : r.document = some doc)
    (hvalid : Json.valid doc = true) : ∃ ld, readDoc doc = some ld ∧ ld.Alike r.live := by
  obtain ⟨members, hw, hmap, hdoc⟩ := document_render h
  obtain ⟨store, hstore, hget⟩ := Json.readRawMap_written hw hmap
  -- all records of the room have a compact text
  have halike : ∀ id : String,
      (store[id]?).map Json.compact = (r.records[id]?).map Json.compact := by
    intro id
    rw [hget]
    cases hrec : r.records[id]? with
    | none => rfl
    | some raw =>
      have hmem : (Json.quote id, Json.compact raw) ∈
          r.records.toList.map fun m => (Json.quote m.1, Json.compact m.2) :=
        List.mem_map.mpr ⟨(id, raw), ExtTreeMap.mem_toList_iff_getElem?_eq_some.mpr hrec, rfl⟩
      rw [← hmap] at hmem
      obtain ⟨m, -, heq⟩ := List.mem_map.mp hmem
      have htext := (Prod.mk.inj heq).2.symm
      obtain ⟨-, -, -, -, hagain⟩ := Json.compact_spec htext
      show ((Json.compact raw).map Json.compact) = some (Json.compact raw)
      rw [htext, Option.map_some, hagain]
  have hqstore : Json.unquote (Json.quote "store") = "store" := Json.unquote_quote _
  have hqschema : Json.unquote (Json.quote "schema") = "schema" := Json.unquote_quote _
  rcases hdoc with ⟨hnone, rfl⟩ | ⟨v, hv, hschema, rfl⟩
  · have hwritten : Json.WrittenMembers [(Json.quote "store", .obj members)] :=
      ⟨Json.strLit_quote _, hw, trivial⟩
    refine ⟨{ store }, ?_, halike, ?_⟩
    · rw [readDoc_cut hvalid (Json.cutObject_render hwritten), List.map_singleton, List.map_singleton,
        hqstore, List.foldlM_cons, readField_store, hstore]
      rfl
    · show Json.compact [] = Json.compact r.schema
      rw [hnone]
  · have hwritten :
        Json.WrittenMembers [(Json.quote "store", .obj members), (Json.quote "schema", v)] :=
      ⟨Json.strLit_quote _, hw, Json.strLit_quote _, hv, trivial⟩
    refine ⟨{ store, schema := Json.render v }, ?_, halike, ?_⟩
    · rw [readDoc_cut hvalid (Json.cutObject_render hwritten), List.map_cons, List.map_singleton,
        List.map_cons, List.map_singleton, hqstore, hqschema, List.foldlM_cons, readField_store,
        hstore]
      rfl
    · obtain ⟨-, -, -, -, hagain⟩ := Json.compact_spec hschema
      exact hagain.trans hschema.symm

end Room

end FusionLocalServer.Whiteboards
