import Mathlib.Data.List.TakeWhile
import FusionLocalServer.Lib.FormUrl

/-!
# Percent-encoded parts of a URI

A text as one part of a URI: a letter, a digit or one of `- _ . ! ~ * ' ( )` stands for itself, and
every other character is its UTF-8 bytes, a percent sign with two hexadecimal digits for each. The
reader refuses a percent sign that no two digits follow, and bytes that are not UTF-8.
-/

namespace Lib.UriComponent

open Lib.FormUrl

/-- The characters that stand for themselves. -/
def plain (c : Char) : Bool :=
  c.isAlphanum || "-_.!~*'()".toList.contains c

def hexChar (n : Nat) : Char := Char.ofNat (hexDigit n).toNat

def hexOf (c : Char) : Option Nat := if c.toNat < 128 then hexValue (byte c) else none

def percent (b : UInt8) : List Char := ['%', hexChar (b.toNat / 16), hexChar (b.toNat % 16)]

def encodeChar (c : Char) : List Char :=
  if plain c then [c] else (String.utf8EncodeChar c).flatMap percent

def encode (text : List Char) : List Char := text.flatMap encodeChar

/-- The bytes that a part stands for, or nothing where an escape is not complete. -/
def octets : List Char → Option (List UInt8)
  | [] => some []
  | c :: rest =>
    if c = '%' then
      match rest with
      | a :: b :: rest =>
        match hexOf a, hexOf b with
        | some x, some y => (octets rest).map (UInt8.ofNat (16 * x + y) :: ·)
        | _, _ => none
      | _ => none
    else (octets rest).map (String.utf8EncodeChar c ++ ·)

/-- The text of bytes that are UTF-8. -/
def strictUtf8 (bs : List UInt8) : Option (List Char) :=
  if encodeUtf8 (decodeUtf8 bs) = bs then some (decodeUtf8 bs) else none

def decode (part : List Char) : Option (List Char) := (octets part).bind strictUtf8

/-! ## Reading back -/

theorem hexOf_hexChar {n : Nat} (h : n < 16) : hexOf (hexChar n) = some n := by
  have : ∀ n < 16, hexOf (hexChar n) = some n := by decide
  exact this n h

theorem octets_percent (b : UInt8) (rest : List Char) :
    octets (percent b ++ rest) = (octets rest).map (b :: ·) := by
  have hlt : b.toNat < 256 := UInt8.toNat_lt b
  have hb : UInt8.ofNat (16 * (b.toNat / 16) + b.toNat % 16) = b := by
    rw [Nat.div_add_mod, UInt8.ofNat_toNat]
  simp only [percent, List.cons_append, List.nil_append]
  rw [octets, if_pos rfl]
  simp only [hexOf_hexChar (show b.toNat / 16 < 16 by omega),
    hexOf_hexChar (show b.toNat % 16 < 16 by omega), hb]

theorem octets_percents (bs : List UInt8) (rest : List Char) :
    octets (bs.flatMap percent ++ rest) = (octets rest).map (bs ++ ·) := by
  induction bs with
  | nil => simp
  | cons b bs ih =>
    rw [List.flatMap_cons, List.append_assoc, octets_percent, ih, Option.map_map]
    rfl

theorem octets_of_ne {c : Char} (h : c ≠ '%') (rest : List Char) :
    octets (c :: rest) = (octets rest).map (String.utf8EncodeChar c ++ ·) := by
  rw [octets.eq_def]
  exact if_neg h

theorem ne_percent_of_plain {c : Char} (h : plain c = true) : c ≠ '%' := by
  rintro rfl
  revert h
  decide

theorem octets_encodeChar (c : Char) (rest : List Char) :
    octets (encodeChar c ++ rest) = (octets rest).map (String.utf8EncodeChar c ++ ·) := by
  unfold encodeChar
  split
  · next h => exact octets_of_ne (ne_percent_of_plain h) rest
  · exact octets_percents _ rest

theorem octets_encode (text rest : List Char) :
    octets (encode text ++ rest) = (octets rest).map (encodeUtf8 text ++ ·) := by
  induction text with
  | nil => simp [encode, encodeUtf8]
  | cons c text ih =>
    have hsplit : encode (c :: text) ++ rest = encodeChar c ++ (encode text ++ rest) := by
      simp [encode]
    rw [hsplit, octets_encodeChar, ih, Option.map_map]
    simp [encodeUtf8, Function.comp_def]

theorem decode_encode (text : List Char) : decode (encode text) = some text := by
  have h := octets_encode text []
  rw [List.append_nil] at h
  rw [decode, h]
  simp [octets, strictUtf8, decodeUtf8_encodeUtf8]

/-! ## Joining with a mark that stands for itself -/

theorem splitOn_append {α : Type} [BEq α] [LawfulBEq α] {a : α} {xs : List α} (h : a ∉ xs)
    (ys : List α) : (xs ++ ys).splitOn a = (ys.splitOn a).modifyHead (xs ++ ·) := by
  induction xs with
  | nil =>
    rw [List.nil_append]
    cases ys.splitOn a <;> rfl
  | cons x xs ih =>
    rw [List.mem_cons, not_or] at h
    have hx : (x == a) = false := beq_false_of_ne fun heq => h.1 heq.symm
    rw [List.cons_append, List.splitOn_cons_eq_if_modifyHead, ih h.2, hx]
    cases ys.splitOn a <;> rfl

/-- Splitting what is joined splits each of the parts. -/
theorem splitOn_intercalate_eq {α : Type} [BEq α] [LawfulBEq α] (a : α) {parts : List (List α)}
    (hne : parts ≠ []) : ([a].intercalate parts).splitOn a = parts.flatMap (·.splitOn a) := by
  induction parts with
  | nil => exact absurd rfl hne
  | cons part parts ih =>
    cases parts with
    | nil => simp
    | cons next parts =>
      rw [List.intercalate_cons_cons, List.append_assoc, List.singleton_append,
        List.splitOn_append_cons_self, ih (List.cons_ne_nil _ _)]
      simp

theorem hexChar_ne {n : Nat} (h : n < 16) {a : Char} (ha : plain a = true)
    (hmark : a.isAlphanum = false) : hexChar n ≠ a := by
  have hdigits : ∀ n < 16, (hexChar n).isAlphanum = true := by decide
  rintro rfl
  rw [hdigits n h] at hmark
  cases hmark

/-- A mark is written for itself only. -/
theorem not_mem_encodeChar {a c : Char} (ha : plain a = true) (hmark : a.isAlphanum = false)
    (hc : c ≠ a) : a ∉ encodeChar c := by
  unfold encodeChar
  split
  · exact fun h => hc (List.mem_singleton.mp h).symm
  · intro h
    obtain ⟨b, -, hb⟩ := List.mem_flatMap.mp h
    have hlt : b.toNat < 256 := UInt8.toNat_lt b
    simp only [percent, List.mem_cons, List.not_mem_nil, or_false] at hb
    rcases hb with hb | hb | hb
    · exact ne_percent_of_plain ha hb
    · exact hexChar_ne (by omega) ha hmark hb.symm
    · exact hexChar_ne (by omega) ha hmark hb.symm

theorem splitOn_encode {a : Char} (ha : plain a = true) (hmark : a.isAlphanum = false)
    (text : List Char) : (encode text).splitOn a = (text.splitOn a).map encode := by
  induction text with
  | nil => rfl
  | cons c text ih =>
    have hcons : encode (c :: text) = encodeChar c ++ encode text := by simp [encode]
    rw [hcons, List.splitOn_cons_eq_if_modifyHead]
    by_cases hc : c = a
    · subst hc
      have hself : encodeChar c = [c] := if_pos ha
      rw [hself, List.singleton_append, List.splitOn_cons_eq_if_modifyHead, ih]
      simp [encode]
    · rw [splitOn_append (not_mem_encodeChar ha hmark hc), ih, if_neg (by simpa using hc)]
      cases text.splitOn a <;> simp [encode]

/-- A text ends at its first mark, and is whole when the mark is not in it. -/
theorem takeWhile_ne_eq_iff {a : Char} {text : List Char} :
    text.takeWhile (· ≠ a) = text ↔ a ∉ text := by
  rw [List.takeWhile_eq_self_iff]
  constructor
  · intro h hmem
    simpa using h a hmem
  · exact fun h c hc => decide_eq_true fun heq => h (heq ▸ hc)

theorem head?_splitOn {a : Char} (text : List Char) :
    (text.splitOn a).head? = some (text.takeWhile (· ≠ a)) := by
  by_cases h : a ∈ text
  · obtain ⟨before, later, rfl, hbefore⟩ := List.eq_append_cons_of_mem h
    have hall : ∀ c ∈ before, decide (c ≠ a) = true := fun c hc =>
      decide_eq_true fun heq => hbefore (heq ▸ hc)
    rw [List.splitOn_append_cons_self_of_not_mem hbefore, List.takeWhile_append_of_pos hall,
      List.takeWhile_cons_of_neg (by simp), List.append_nil]
    rfl
  · rw [List.splitOn_eq_singleton h, takeWhile_ne_eq_iff.mpr h]
    rfl

end Lib.UriComponent
