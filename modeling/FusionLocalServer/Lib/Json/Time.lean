import FusionLocalServer.Lib.Calendar
import FusionLocalServer.Lib.Json.Struct

/-!
# Instants and lists as JSON

An instant is a string in RFC 3339. A slice is an array; an item is read into what the
slice holds in its place, which is how `encoding/json` reads a member that comes twice.
-/

namespace Lib.Json

open Lib

/-- `Time.UnmarshalJSON`, which reads the text between the quotes as it stands. -/
def readTime : Json → Option Time
  | .str lit => parseTime lit
  | _ => none

theorem strLit_of_formatTime {t : Time} {cs : List Char} (h : formatTime t = some cs) :
    StrLit cs where
  printable c hc := (plain_of_mem_formatTime h c hc).1
  scan rest := by
    have hplain := plain_of_mem_formatTime h
    clear h
    induction cs with
    | nil => rfl
    | cons c cs ih =>
      obtain ⟨hp, hq, hb⟩ := hplain c List.mem_cons_self
      rw [List.cons_append, lexString_plain hq hb (by omega),
        ih fun d hd => hplain d (List.mem_cons_of_mem c hd)]
      rfl

/-! ## Slices -/

variable {α β : Type}

/-- `json.Unmarshal` of the items of an array into a slice. -/
def decodeItems (fields : List (StructField α)) (zero : α) : List Json → List α → Option (List α)
  | [], _ => some []
  | v :: rest, old =>
    (decodeStruct fields (old.headD zero) v).bind fun a =>
      (decodeItems fields zero rest old.tail).map fun as => a :: as

/-- A field that is a slice of structs; `null` empties it. -/
def sliceField (name : String) (fields : List (StructField α)) (zero : α) (get : β → List α)
    (put : List α → β → β) : StructField β where
  name := name
  set v acc :=
    match v with
    | .null => some (put [] acc)
    | .arr items => (decodeItems fields zero items (get acc)).map fun as => put as acc
    | _ => none

/-- Structs that read back do so in a list. -/
theorem decodeItems_map {fields : List (StructField α)} {zero : α} {write : α → Json}
    (as : List α) (h : ∀ a ∈ as, decodeStruct fields zero (write a) = some a) :
    decodeItems fields zero (as.map write) [] = some as := by
  induction as with
  | nil => rfl
  | cons a as ih =>
    have hread : decodeStruct fields ([].headD zero) (write a) = some a :=
      h a List.mem_cons_self
    rw [List.map_cons, decodeItems, hread, Option.bind_some, List.tail_nil,
      ih fun b hb => h b (List.mem_cons_of_mem _ hb)]
    rfl

theorem writtenItems_map {write : α → Json} (as : List α) (h : ∀ a ∈ as, Written (write a)) :
    WrittenItems (as.map write) := by
  induction as with
  | nil => trivial
  | cons a as ih =>
    exact ⟨h a List.mem_cons_self, ih fun b hb => h b (List.mem_cons_of_mem _ hb)⟩

theorem depthItems_map_le {write : α → Json} {n : Nat} (as : List α)
    (h : ∀ a ∈ as, depth (write a) ≤ n) : depthItems (as.map write) ≤ n := by
  induction as with
  | nil => exact Nat.zero_le n
  | cons a as ih =>
    exact Nat.max_le.mpr ⟨h a List.mem_cons_self, ih fun b hb => h b (List.mem_cons_of_mem _ hb)⟩

theorem depthMembers_append (ms ns : List (List Char × Json)) :
    depthMembers (ms ++ ns) = max (depthMembers ms) (depthMembers ns) := by
  induction ms with
  | nil => exact (Nat.zero_max _).symm
  | cons m ms ih =>
    obtain ⟨key, v⟩ := m
    show max (depth v) (depthMembers (ms ++ ns)) = max (max (depth v) (depthMembers ms)) _
    rw [ih, Nat.max_assoc]

end Lib.Json
