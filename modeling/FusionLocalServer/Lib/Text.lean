import Mathlib.Data.List.DropRight

/-!
# Text

White space as `unicode.IsSpace` has it and `strings.TrimSpace`. The length of a string in
runes is its number of characters.
-/

namespace Lib

/-- `unicode.IsSpace`. -/
def isSpace (c : Char) : Bool :=
  ('\t' ≤ c && c ≤ '\r') || c = ' ' || c = '\u0085' || c = '\u00A0' || c = '\u1680' ||
    ('\u2000' ≤ c && c ≤ '\u200A') || c = '\u2028' || c = '\u2029' || c = '\u202F' ||
    c = '\u205F' || c = '\u3000'

def trimChars (cs : List Char) : List Char := (cs.dropWhile isSpace).rdropWhile isSpace

/-- `strings.TrimSpace`. -/
def trimSpace (s : String) : String := String.ofList (trimChars s.toList)

/-- A text that ends at the first of a separator. -/
theorem append_sep_inj {sep : Char} {a a' b b' : List Char} (ha : sep ∉ a) (ha' : sep ∉ a')
    (h : a ++ sep :: b = a' ++ sep :: b') : a = a' ∧ b = b' := by
  induction a generalizing a' with
  | nil =>
    cases a' with
    | nil => exact ⟨rfl, (List.cons.inj h).2⟩
    | cons c cs => exact absurd (List.cons.inj h).1 (List.ne_of_not_mem_cons ha')
  | cons c cs ih =>
    cases a' with
    | nil => exact absurd (List.cons.inj h).1.symm (List.ne_of_not_mem_cons ha)
    | cons c' cs' =>
      obtain ⟨rfl, hrest⟩ := List.cons.inj h
      obtain ⟨rfl, rfl⟩ := ih (List.not_mem_of_not_mem_cons ha) (List.not_mem_of_not_mem_cons ha') hrest
      exact ⟨rfl, rfl⟩

/-- What ends with something else than white space stays when white space is cut off a text
behind it. -/
theorem prefix_rdropWhile {p : List Char} (hne : p ≠ [])
    (hlast : isSpace (p.getLast hne) = false) (rest : List Char) :
    p <+: (p ++ rest).rdropWhile isSpace := by
  induction rest using List.reverseRecOn with
  | nil =>
    have hself : p.rdropWhile isSpace = p :=
      List.rdropWhile_eq_self_iff.mpr fun _ => Bool.eq_false_iff.mp hlast
    have hall : (p ++ []).rdropWhile isSpace = p := (List.append_nil p).symm ▸ hself
    exact ⟨[], (List.append_nil p).trans hall.symm⟩
  | append_singleton rest c ih =>
    rw [← List.append_assoc, List.rdropWhile_concat]
    split
    · exact ih
    · rw [List.append_assoc]
      exact List.prefix_append ..

theorem prefix_trimChars {p cs : List Char} (h : p <+: cs) (hne : p ≠ [])
    (hhead : isSpace (p.head hne) = false) (hlast : isSpace (p.getLast hne) = false) :
    p <+: trimChars cs := by
  obtain ⟨rest, rfl⟩ := h
  have hdrop : (p ++ rest).dropWhile isSpace = p ++ rest := by
    cases p with
    | nil => exact absurd rfl hne
    | cons c p => exact List.dropWhile_cons_of_neg (Bool.eq_false_iff.mp hhead)
  unfold trimChars
  rw [hdrop]
  exact prefix_rdropWhile hne hlast rest

theorem utf8ByteSize_trimSpace_le (s : String) : (trimSpace s).utf8ByteSize ≤ s.utf8ByteSize := by
  have hinfix : trimChars s.toList <:+: s.toList :=
    (List.rdropWhile_prefix _ _).isInfix.trans (List.dropWhile_suffix _).isInfix
  obtain ⟨a, b, hsplit⟩ := hinfix
  have hsize := congrArg (fun cs => (String.ofList cs).utf8ByteSize) hsplit
  simp only [String.ofList_append, String.utf8ByteSize_append, String.ofList_toList] at hsize
  unfold trimSpace
  omega

end Lib
