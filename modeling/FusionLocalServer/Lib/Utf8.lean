import Mathlib.Data.List.Basic

/-!
# UTF-8 text in byte strings

`encodeUtf8` is the byte string of a text. `decodeUtf8` reads any byte string: a valid
encoding gives its character, and a byte that starts none gives U+FFFD and is passed over
alone. A text therefore survives the way to bytes and back, and an ASCII byte occurs in an
encoding only as the character it stands for, so a byte search for a newline finds the
newlines of the text and nothing else.
-/

namespace Lib

/-- The bytes of a text. -/
def encodeUtf8 (cs : List Char) : List UInt8 := cs.flatMap String.utf8EncodeChar

/-- U+FFFD, which stands for a byte that is not text. -/
def replacementChar : Char := '\uFFFD'

/-- `decodeUtf8` with its recursion bounded. -/
def decodeUtf8Aux : Nat → List UInt8 → List Char
  | 0, _ => []
  | _ + 1, [] => []
  | fuel + 1, b :: bs =>
    match ((b :: bs).take 4).toByteArray.utf8DecodeChar? 0 with
    | some c => c :: decodeUtf8Aux fuel ((b :: bs).drop c.utf8Size)
    | none => replacementChar :: decodeUtf8Aux fuel bs

/-- The text of a byte string. -/
def decodeUtf8 (bs : List UInt8) : List Char := decodeUtf8Aux bs.length bs

@[simp] theorem encodeUtf8_nil : encodeUtf8 [] = [] := rfl

@[simp] theorem encodeUtf8_cons (c : Char) (cs : List Char) :
    encodeUtf8 (c :: cs) = String.utf8EncodeChar c ++ encodeUtf8 cs := rfl

@[simp] theorem encodeUtf8_append (cs ds : List Char) :
    encodeUtf8 (cs ++ ds) = encodeUtf8 cs ++ encodeUtf8 ds :=
  List.flatMap_append

theorem decodeUtf8Aux_encodeUtf8 (cs : List Char) :
    ∀ fuel, (encodeUtf8 cs).length ≤ fuel → decodeUtf8Aux fuel (encodeUtf8 cs) = cs := by
  induction cs with
  | nil =>
    intro fuel _
    cases fuel <;> rfl
  | cons c cs ih =>
    intro fuel hfuel
    -- no encoding is longer than the four bytes looked at
    have hdec : ((encodeUtf8 (c :: cs)).take 4).toByteArray.utf8DecodeChar? 0 = some c := by
      have hlen : (String.utf8EncodeChar c).length ≤ 4 := by
        rw [String.length_utf8EncodeChar]
        exact c.utf8Size_le_four
      rw [encodeUtf8_cons, List.take_append, List.take_of_length_le hlen, List.toByteArray_append]
      exact ByteArray.utf8DecodeChar?_utf8EncodeChar_append
    have hdrop : (encodeUtf8 (c :: cs)).drop c.utf8Size = encodeUtf8 cs := by
      rw [encodeUtf8_cons, List.drop_left' (String.length_utf8EncodeChar c)]
    rw [encodeUtf8_cons, List.length_append, String.length_utf8EncodeChar] at hfuel
    have hpos := c.utf8Size_pos
    cases fuel with
    | zero => omega
    | succ fuel =>
      cases hbytes : encodeUtf8 (c :: cs) with
      | nil =>
        rw [encodeUtf8_cons] at hbytes
        exact absurd (List.append_eq_nil_iff.mp hbytes).1 String.utf8EncodeChar_ne_nil
      | cons b bs =>
        rw [hbytes] at hdec hdrop
        rw [decodeUtf8Aux, hdec]
        simp only [hdrop, ih fuel (by omega)]

/-- A text reads back from its bytes. -/
@[simp] theorem decodeUtf8_encodeUtf8 (cs : List Char) : decodeUtf8 (encodeUtf8 cs) = cs :=
  decodeUtf8Aux_encodeUtf8 cs _ (Nat.le_refl _)

/-- The encoding of a character outside ASCII has no ASCII byte. -/
theorem ge_of_mem_utf8EncodeChar {c : Char} {b : UInt8} (hc : 0x7f < c.toNat)
    (h : b ∈ String.utf8EncodeChar c) : 128 ≤ b.toNat := by
  have hlead : ∀ n k o, 128 ≤ o → o < 256 - k → b = UInt8.ofNat (n % k + o) → 0 < k →
      128 ≤ b.toNat := by
    rintro n k o hlo hhi rfl hk
    have := Nat.mod_lt n hk
    have : (UInt8.ofNat (n % k + o)).toNat = n % k + o :=
      UInt8.toNat_ofNat_of_lt (show n % k + o < 256 by omega)
    omega
  have hn : c.val.toNat = c.toNat := rfl
  unfold String.utf8EncodeChar at h
  simp only [hn] at h
  rw [if_neg (by omega)] at h
  split at h
  · simp only [List.mem_cons, List.not_mem_nil, or_false] at h
    rcases h with h | h
    · exact hlead _ _ 0xc0 (by omega) (by omega) h (by omega)
    · exact hlead _ _ 0x80 (by omega) (by omega) h (by omega)
  split at h
  · simp only [List.mem_cons, List.not_mem_nil, or_false] at h
    rcases h with h | h | h
    · exact hlead _ _ 0xe0 (by omega) (by omega) h (by omega)
    · exact hlead _ _ 0x80 (by omega) (by omega) h (by omega)
    · exact hlead _ _ 0x80 (by omega) (by omega) h (by omega)
  · simp only [List.mem_cons, List.not_mem_nil, or_false] at h
    rcases h with h | h | h | h
    · exact hlead _ _ 0xf0 (by omega) (by omega) h (by omega)
    · exact hlead _ _ 0x80 (by omega) (by omega) h (by omega)
    · exact hlead _ _ 0x80 (by omega) (by omega) h (by omega)
    · exact hlead _ _ 0x80 (by omega) (by omega) h (by omega)

/-- An ASCII character is its own byte. -/
theorem utf8EncodeChar_ascii {c : Char} (hc : c.toNat < 128) :
    String.utf8EncodeChar c = [UInt8.ofNat c.toNat] := by
  have hn : c.val.toNat = c.toNat := rfl
  unfold String.utf8EncodeChar
  simp only [hn]
  rw [if_pos (by omega)]

/-- The byte of an ASCII character occurs only where the character does. -/
theorem mem_of_ascii_mem_encodeUtf8 {a : Char} (ha : a.toNat < 128) {cs : List Char}
    (h : UInt8.ofNat a.toNat ∈ encodeUtf8 cs) : a ∈ cs := by
  obtain ⟨c, hc, hb⟩ := List.mem_flatMap.mp h
  have hbyte : (UInt8.ofNat a.toNat).toNat = a.toNat :=
    UInt8.toNat_ofNat_of_lt (show a.toNat < 256 by omega)
  by_cases hascii : c.toNat < 128
  · rw [utf8EncodeChar_ascii hascii, List.mem_singleton] at hb
    have hbyte' : (UInt8.ofNat c.toNat).toNat = c.toNat :=
      UInt8.toNat_ofNat_of_lt (show c.toNat < 256 by omega)
    have heq : a.toNat = c.toNat := by rw [← hbyte, hb, hbyte']
    exact Char.toNat_inj.mp heq ▸ hc
  · have := ge_of_mem_utf8EncodeChar (by omega) hb
    omega

/-! ## ASCII text in a text -/

theorem toNat_ofNat_ascii {c : Char} (hc : c.toNat < 128) :
    (UInt8.ofNat c.toNat).toNat = c.toNat :=
  UInt8.toNat_ofNat_of_lt (show c.toNat < 256 by omega)

/-- An ASCII byte is where a character begins. -/
theorem drop_encodeUtf8 (cs : List Char) :
    ∀ (k : Nat) (b : UInt8), ((encodeUtf8 cs).drop k).head? = some b → b.toNat < 128 →
      ∃ u, u <:+ cs ∧ (encodeUtf8 cs).drop k = encodeUtf8 u := by
  induction cs with
  | nil =>
    intro k b hb
    rw [encodeUtf8_nil, List.drop_nil] at hb
    exact nomatch hb
  | cons c cs ih =>
    intro k b hb hlt
    rw [encodeUtf8_cons] at hb ⊢
    by_cases hk : k < (String.utf8EncodeChar c).length
    · by_cases hascii : c.toNat < 128
      · rw [utf8EncodeChar_ascii hascii] at hk
        obtain rfl : k = 0 := by simpa using hk
        exact ⟨c :: cs, List.suffix_rfl, rfl⟩
      · -- inside the encoding of another character
        rw [List.drop_append_of_le_length (Nat.le_of_lt hk)] at hb
        have hmem : b ∈ String.utf8EncodeChar c := by
          rw [List.drop_eq_getElem_cons hk] at hb
          exact Option.some.inj hb ▸ List.getElem_mem hk
        have := ge_of_mem_utf8EncodeChar (by omega) hmem
        omega
    · obtain ⟨k, rfl⟩ := Nat.exists_eq_add_of_le (Nat.le_of_not_lt hk)
      rw [← List.drop_drop, List.drop_left] at hb ⊢
      obtain ⟨u, hu, heq⟩ := ih k b hb hlt
      exact ⟨u, hu.trans (List.suffix_cons c cs), heq⟩

theorem prefix_of_encodeUtf8 {p cs : List Char} (hp : ∀ c ∈ p, c.toNat < 128)
    (h : encodeUtf8 p <+: encodeUtf8 cs) : p <+: cs := by
  induction p generalizing cs with
  | nil => exact List.nil_prefix
  | cons a p ih =>
    have ha := hp a List.mem_cons_self
    rw [encodeUtf8_cons, utf8EncodeChar_ascii ha] at h
    cases cs with
    | nil => exact absurd h.length_le (by simp)
    | cons c cs =>
      rw [encodeUtf8_cons] at h
      by_cases hascii : c.toNat < 128
      · rw [utf8EncodeChar_ascii hascii] at h
        obtain ⟨hbyte, hrest⟩ := List.cons_prefix_cons.mp h
        have hnat := congrArg UInt8.toNat hbyte
        rw [toNat_ofNat_ascii ha, toNat_ofNat_ascii hascii] at hnat
        rw [Char.toNat_inj.mp hnat]
        exact List.cons_prefix_cons.mpr
          ⟨rfl, ih (fun c hc => hp c (List.mem_cons_of_mem _ hc)) hrest⟩
      · -- the first byte of the other character is no ASCII byte
        obtain ⟨b, bs, hbs⟩ := List.exists_cons_of_ne_nil (String.utf8EncodeChar_ne_nil (c := c))
        have hge := ge_of_mem_utf8EncodeChar (by omega) (hbs ▸ List.mem_cons_self : b ∈ _)
        rw [hbs] at h
        have hbyte := congrArg UInt8.toNat (List.cons_prefix_cons.mp h).1
        rw [toNat_ofNat_ascii ha] at hbyte
        omega

theorem infix_of_encodeUtf8 {p cs : List Char} (hne : p ≠ []) (hp : ∀ c ∈ p, c.toNat < 128)
    (h : encodeUtf8 p <:+: encodeUtf8 cs) : p <:+: cs := by
  obtain ⟨l, r, heq⟩ := h
  have hdrop : (encodeUtf8 cs).drop l.length = encodeUtf8 p ++ r := by
    rw [← heq, List.append_assoc, List.drop_left]
  obtain ⟨a, p, rfl⟩ := List.exists_cons_of_ne_nil hne
  have ha := hp a List.mem_cons_self
  obtain ⟨u, hu, hbytes⟩ := drop_encodeUtf8 cs l.length (UInt8.ofNat a.toNat)
    (by rw [hdrop, encodeUtf8_cons, utf8EncodeChar_ascii ha]; rfl)
    (by rw [toNat_ofNat_ascii ha]; exact ha)
  have hpre : encodeUtf8 (a :: p) <+: encodeUtf8 u := ⟨r, by rw [← hbytes, hdrop]⟩
  exact (prefix_of_encodeUtf8 hp hpre).isInfix.trans hu.isInfix

theorem suffix_of_encodeUtf8 {p cs : List Char} (hp : ∀ c ∈ p, c.toNat < 128)
    (h : encodeUtf8 p <:+ encodeUtf8 cs) : p <:+ cs := by
  cases p with
  | nil => exact List.nil_suffix
  | cons a p =>
    obtain ⟨l, heq⟩ := h
    have hdrop : (encodeUtf8 cs).drop l.length = encodeUtf8 (a :: p) := by
      rw [← heq, List.drop_left]
    have ha := hp a List.mem_cons_self
    obtain ⟨u, hu, hbytes⟩ := drop_encodeUtf8 cs l.length (UInt8.ofNat a.toNat)
      (by rw [hdrop, encodeUtf8_cons, utf8EncodeChar_ascii ha]; rfl)
      (by rw [toNat_ofNat_ascii ha]; exact ha)
    have hsame := congrArg decodeUtf8 (hbytes.symm.trans hdrop)
    rw [decodeUtf8_encodeUtf8, decodeUtf8_encodeUtf8] at hsame
    exact hsame ▸ hu

end Lib
