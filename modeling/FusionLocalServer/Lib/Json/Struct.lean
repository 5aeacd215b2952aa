import FusionLocalServer.Lib.Json.RoundTrip

/-!
# Structs as JSON objects

How `encoding/json` reads an object into a struct and writes one: a member goes to the
field of its name, or else to the first field of the same name up to case folding; a
member of another name is passed over; `null` leaves a field as it was; a value of the
wrong kind is an error. A field that is omitted when empty reads back because the
reader starts from the zero struct.
-/

namespace Lib.Json

open Lib

variable {α : Type}

/-- A struct field: its name, and how a value is put into it. -/
structure StructField (α : Type) where
  name : String
  set : Json → α → Option α

/-- `foldRune`, on the characters that fold to ASCII letters. -/
def foldRune (c : Char) : Char :=
  if 'a' ≤ c ∧ c ≤ 'z' then Char.ofNat (c.toNat - 32)
  else if c = '\u017F' then 'S'
  else if c = '\u212A' then 'K'
  else c

def sameFold (a b : String) : Bool := a.toList.map foldRune = b.toList.map foldRune

/-- The field a member's key addresses. -/
def findField (fields : List (StructField α)) (key : String) : Option (StructField α) :=
  (fields.find? fun f => f.name = key).or (fields.find? fun f => sameFold f.name key)

def decodeMembers (fields : List (StructField α)) : List (List Char × Json) → α → Option α
  | [], acc => some acc
  | (key, v) :: rest, acc =>
    match findField fields (unquote key) with
    | none => decodeMembers fields rest acc
    | some f => (f.set v acc).bind (decodeMembers fields rest)

/-- `json.Unmarshal` into a zero struct. -/
def decodeStruct (fields : List (StructField α)) (zero : α) : Json → Option α
  | .null => some zero
  | .obj members => decodeMembers fields members zero
  | _ => none

/-- A field read by `read`; `null` leaves it alone. -/
def structField {β : Type} (name : String) (read : Json → Option β) (put : β → α → α) :
    StructField α where
  name := name
  set v acc :=
    match v with
    | .null => some acc
    | v => (read v).map fun b => put b acc

def readInt : Json → Option Int
  | .num lit => parseInt64 lit
  | _ => none

def readString : Json → Option String
  | .str lit => some (unquote lit)
  | _ => none

/-! ## Members -/

/-- A member a struct writes. -/
def member (name : String) (v : Json) : List (List Char × Json) := [(quote name, v)]

def intValue (z : Int) : Json := .num (formatInt z)

def stringValue (s : String) : Json := .str (quote s)

/-- `omitempty` on an integer. -/
def omitInt (name : String) (z : Int) : List (List Char × Json) :=
  if z = 0 then [] else member name (intValue z)

/-- `omitempty` on a string. -/
def omitString (name : String) (s : String) : List (List Char × Json) :=
  if s = "" then [] else member name (stringValue s)

theorem readInt_intValue {z : Int} (h : InInt64 z) : readInt (intValue z) = some z :=
  parseInt64_formatInt h

theorem readString_stringValue (s : String) : readString (stringValue s) = some s := by
  rw [stringValue, readString, unquote_quote]

theorem decodeMembers_append (fields : List (StructField α)) (ms ns : List (List Char × Json)) :
    ∀ acc, decodeMembers fields (ms ++ ns) acc =
      (decodeMembers fields ms acc).bind (decodeMembers fields ns) := by
  induction ms with
  | nil => exact fun _ => rfl
  | cons m ms ih =>
    intro acc
    obtain ⟨key, v⟩ := m
    rw [List.cons_append, decodeMembers, decodeMembers]
    cases findField fields (unquote key) with
    | none => exact ih acc
    | some f =>
      cases hset : f.set v acc with
      | none => simp [hset]
      | some acc' => simpa [hset] using ih acc'

/-- Reading one batch of members and going on with the rest. -/
theorem decodeMembers_append_of {fields : List (StructField α)} {ms : List (List Char × Json)}
    {acc acc' : α} (h : decodeMembers fields ms acc = some acc') (ns : List (List Char × Json)) :
    decodeMembers fields (ms ++ ns) acc = decodeMembers fields ns acc' := by
  rw [decodeMembers_append, h, Option.bind_some]

section Members

variable {β : Type} {fields : List (StructField α)} {name : String} {read : Json → Option β}
  {put : β → α → α}

/-- Reading the member a field writes. -/
theorem decode_member (hfield : findField fields name = some (structField name read put)) {v : Json}
    {b : β} (hnull : v ≠ .null) (hread : read v = some b) (acc : α) :
    decodeMembers fields (member name v) acc = some (put b acc) := by
  have hset : (structField name read put).set v acc = some (put b acc) := by
    cases v <;> first | exact absurd rfl hnull | simp [structField, hread]
  rw [member, decodeMembers, unquote_quote, hfield]
  simp [hset, decodeMembers]

theorem decode_int {put : Int → α → α} {z : Int}
    (hfield : findField fields name = some (structField name readInt put)) (hz : InInt64 z) (acc : α) :
    decodeMembers fields (member name (intValue z)) acc = some (put z acc) :=
  decode_member (v := intValue z) hfield (by rintro ⟨⟩) (readInt_intValue hz) acc

theorem decode_string {put : String → α → α}
    (hfield : findField fields name = some (structField name readString put)) (s : String) (acc : α) :
    decodeMembers fields (member name (stringValue s)) acc = some (put s acc) :=
  decode_member (v := stringValue s) hfield (by rintro ⟨⟩) (readString_stringValue s) acc

theorem decode_omitInt {put : Int → α → α} {z : Int}
    (hfield : findField fields name = some (structField name readInt put)) (hz : InInt64 z) {acc : α}
    (hzero : put 0 acc = acc) :
    decodeMembers fields (omitInt name z) acc = some (put z acc) := by
  unfold omitInt
  split
  · next h => rw [h, hzero]; rfl
  · exact decode_int hfield hz acc

theorem decode_omitString {put : String → α → α}
    (hfield : findField fields name = some (structField name readString put)) (s : String) {acc : α}
    (hzero : put "" acc = acc) :
    decodeMembers fields (omitString name s) acc = some (put s acc) := by
  unfold omitString
  split
  · next h => rw [h, hzero]; rfl
  · exact decode_string hfield s acc

end Members

/-! ## What a struct writes is written -/

theorem written_intValue (z : Int) : Written (intValue z) := numLit_formatInt z

theorem written_stringValue (s : String) : Written (stringValue s) := strLit_quote s

theorem writtenMembers_append {ms ns : List (List Char × Json)} (hm : WrittenMembers ms)
    (hn : WrittenMembers ns) : WrittenMembers (ms ++ ns) := by
  induction ms with
  | nil => exact hn
  | cons m ms ih =>
    obtain ⟨key, v⟩ := m
    exact ⟨hm.1, hm.2.1, ih hm.2.2⟩

theorem written_member (name : String) {v : Json} (hv : Written v) :
    WrittenMembers (member name v) :=
  ⟨strLit_quote name, hv, trivial⟩

theorem written_omitInt (name : String) (z : Int) : WrittenMembers (omitInt name z) := by
  unfold omitInt
  split
  · trivial
  · exact written_member name (written_intValue z)

theorem written_omitString (name s : String) : WrittenMembers (omitString name s) := by
  unfold omitString
  split
  · trivial
  · exact written_member name (written_stringValue s)

/-! ## Depth -/

/-- Members that nest nothing. -/
def Flat (ms : List (List Char × Json)) : Prop := depthMembers ms = 0

theorem flat_append {ms ns : List (List Char × Json)} (hm : Flat ms) (hn : Flat ns) :
    Flat (ms ++ ns) := by
  induction ms with
  | nil => exact hn
  | cons m ms ih =>
    obtain ⟨key, v⟩ := m
    have h : max (depth v) (depthMembers ms) = 0 := hm
    obtain ⟨hv, hms⟩ : depth v = 0 ∧ depthMembers ms = 0 := by omega
    show max (depth v) (depthMembers (ms ++ ns)) = 0
    rw [hv, ih hms]
    rfl

theorem flat_omitInt (name : String) (z : Int) : Flat (omitInt name z) := by
  unfold omitInt
  split <;> rfl

theorem flat_omitString (name s : String) : Flat (omitString name s) := by
  unfold omitString
  split <;> rfl

end Lib.Json
