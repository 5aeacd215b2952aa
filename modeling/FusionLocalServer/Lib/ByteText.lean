import Mathlib.Data.List.DropRight
import FusionLocalServer.Lib.UriComponent

/-!
# Byte strings

The functions on strings of Go where the bytes need not be UTF-8: white space is the encodings of the
characters that are white space, at either end, and anything else stays.

`entries` is what the lines of a header that is a list have between their commas. Another line, or
another entry behind a comma, is another entry (`entries_line`, `entries_joined`, `entries_merged`).
-/

namespace Lib.ByteText

abbrev Bytes := List UInt8

/-- The encodings of the characters that are white space. -/
def spaces : List Bytes :=
  [[0x09], [0x0a], [0x0b], [0x0c], [0x0d], [0x20], [0xc2, 0x85], [0xc2, 0xa0], [0xe1, 0x9a, 0x80],
    [0xe2, 0x80, 0x80], [0xe2, 0x80, 0x81], [0xe2, 0x80, 0x82], [0xe2, 0x80, 0x83],
    [0xe2, 0x80, 0x84], [0xe2, 0x80, 0x85], [0xe2, 0x80, 0x86], [0xe2, 0x80, 0x87],
    [0xe2, 0x80, 0x88], [0xe2, 0x80, 0x89], [0xe2, 0x80, 0x8a], [0xe2, 0x80, 0xa8],
    [0xe2, 0x80, 0xa9], [0xe2, 0x80, 0xaf], [0xe2, 0x81, 0x9f], [0xe3, 0x80, 0x80]]

/-- A text without some number of the prefixes at its start. -/
def dropPrefixes (prefixes : List Bytes) : Nat → Bytes → Bytes
  | 0, bs => bs
  | n + 1, bs =>
    match prefixes.find? (·.isPrefixOf bs) with
    | some p => dropPrefixes prefixes n (bs.drop p.length)
    | none => bs

def trimLeft (bs : Bytes) : Bytes := dropPrefixes spaces bs.length bs

def trimRight (bs : Bytes) : Bytes :=
  (dropPrefixes (spaces.map List.reverse) bs.length bs.reverse).reverse

/-- `strings.TrimSpace` -/
def trimSpace (bs : Bytes) : Bytes := trimRight (trimLeft bs)

/-- `strings.Trim` -/
def trim (bs : Bytes) (cutset : Bytes) : Bytes :=
  (bs.dropWhile (· ∈ cutset)).rdropWhile (· ∈ cutset)

def comma : UInt8 := 0x2c

def space : UInt8 := 0x20

@[simp] theorem trimSpace_space (bs : Bytes) : trimSpace (space :: bs) = trimSpace bs := rfl

/-- The texts between the commas of the lines, without the white space around them. -/
def entries (lines : List Bytes) : List Bytes :=
  lines.flatMap fun line => (line.splitOn comma).map trimSpace

/-- A text without a comma is one entry. -/
theorem entries_line {lines : List Bytes} {text : Bytes} (h : comma ∉ text) :
    entries (lines ++ [text]) = entries lines ++ [trimSpace text] := by
  unfold entries
  rw [List.flatMap_append, List.flatMap_singleton, List.splitOn_eq_singleton h]
  rfl

theorem map_trimSpace_space (bs : Bytes) :
    ((space :: bs).splitOn comma).map trimSpace = (bs.splitOn comma).map trimSpace := by
  have hsplit := UriComponent.splitOn_append (show comma ∉ [space] by decide) bs
  rw [List.singleton_append] at hsplit
  rw [hsplit]
  cases bs.splitOn comma with
  | nil => rfl
  | cons part parts => rfl

/-- A comma, and white space or none. -/
def IsSep (sep : Bytes) : Prop := sep = [comma] ∨ sep = [comma, space]

theorem map_trimSpace_sep {sep : Bytes} (hsep : IsSep sep) (l m : Bytes) :
    ((l ++ sep ++ m).splitOn comma).map trimSpace =
      (l.splitOn comma).map trimSpace ++ (m.splitOn comma).map trimSpace := by
  rcases hsep with rfl | rfl
  · rw [List.append_assoc, List.singleton_append, List.splitOn_append_cons_self, List.map_append]
  · rw [List.append_assoc, List.cons_append, List.singleton_append, List.splitOn_append_cons_self,
      List.map_append, map_trimSpace_space]

theorem entries_joined {lines : List Bytes} {last text sep : Bytes} (hsep : IsSep sep)
    (h : comma ∉ text) :
    entries (lines ++ [last ++ sep ++ text]) = entries (lines ++ [last]) ++ [trimSpace text] := by
  unfold entries
  rw [List.flatMap_append, List.flatMap_append, List.flatMap_singleton, List.flatMap_singleton,
    map_trimSpace_sep hsep, List.splitOn_eq_singleton h, List.append_assoc]
  rfl

theorem map_trimSpace_intercalate {sep : Bytes} (hsep : IsSep sep) {lines : List Bytes}
    (hne : lines ≠ []) :
    ((sep.intercalate lines).splitOn comma).map trimSpace = entries lines := by
  induction lines with
  | nil => exact absurd rfl hne
  | cons line lines ih =>
    cases lines with
    | nil => simp [entries]
    | cons next lines =>
      rw [List.intercalate_cons_cons, map_trimSpace_sep hsep,
        ih (List.cons_ne_nil _ _)]
      rfl

theorem entries_merged {lines : List Bytes} {text sep : Bytes} (hsep : IsSep sep)
    (hne : lines ≠ []) (h : comma ∉ text) :
    entries [sep.intercalate lines ++ sep ++ text] = entries lines ++ [trimSpace text] := by
  have hjoined : entries ([] ++ [sep.intercalate lines ++ sep ++ text]) =
      entries ([] ++ [sep.intercalate lines]) ++ [trimSpace text] := entries_joined hsep h
  rw [List.nil_append, List.nil_append] at hjoined
  rw [hjoined, ← map_trimSpace_intercalate hsep hne, entries, List.flatMap_singleton]

end Lib.ByteText
