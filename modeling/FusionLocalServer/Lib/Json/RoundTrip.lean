import FusionLocalServer.Lib.Decimal
import FusionLocalServer.Lib.Json.Syntax

/-!
# Reading back what was written

`parse (render v) = some v` for every value whose literals are literals (`Written`) and
that nests no deeper than the reader allows. The statement the induction carries is about
a value in context: whatever follows it may not continue a number, and is left over
untouched. String contents read back as well: `unquote (quote s) = s`.
-/

namespace Lib.Json

open Lib

/-! ## String literals -/

/-- Checking a concrete text character by character. -/
theorem printable_of_all {cs : List Char} (h : (cs.all fun c => 0x20 ≤ c.toNat) = true) :
    ∀ c ∈ cs, 0x20 ≤ c.toNat :=
  fun c hc => of_decide_eq_true (List.all_eq_true.mp h c hc)

/-- A string literal as the scanner takes it, up to the closing quote. -/
structure StrLit (lit : List Char) : Prop where
  printable : ∀ c ∈ lit, 0x20 ≤ c.toNat
  scan : ∀ rest, lexString (lit ++ '"' :: rest) = some (lit, rest)

theorem hexVal_hexDigit {n : Nat} (h : n < 16) : hexVal (hexDigit n) = some n := by
  revert n
  decide

theorem isHex_hexDigit {n : Nat} (h : n < 16) : isHex (hexDigit n) = true := by
  rw [isHex, hexVal_hexDigit h]
  rfl

/-- Four digits of a code unit spell it. -/
theorem hex4_hexDigit {n : Nat} (h : n < 0x10000) :
    hex4 (hexDigit (n / 4096)) (hexDigit (n / 256 % 16)) (hexDigit (n / 16 % 16))
      (hexDigit (n % 16)) = n := by
  rw [hex4, hexVal_hexDigit (by omega), hexVal_hexDigit (by omega), hexVal_hexDigit (by omega),
    hexVal_hexDigit (by omega)]
  simp only [Option.getD_some]
  omega

/-- A character the scanner takes as it is. -/
theorem lexString_plain {c : Char} (hq : c ≠ '"') (hb : c ≠ '\\') (hc : ¬ c.toNat < 0x20)
    (rest : List Char) :
    lexString (c :: rest) = (lexString rest).map fun p => (c :: p.1, p.2) := by
  rw [lexString.eq_def]
  split
  · next h => exact nomatch h
  · next h => exact absurd (List.cons.inj h).1 hq
  · next h => exact absurd (List.cons.inj h).1 hb
  · next h => exact absurd (List.cons.inj h).1 hb
  · next h =>
    obtain ⟨rfl, rfl⟩ := List.cons.inj h
    exact if_neg hc

/-- What is escaped as a `\u` sequence is a single code unit below the surrogates. -/
theorem toNat_lt_of_escaped {c : Char}
    (h : c.toNat < 0x20 || c = '<' || c = '>' || c = '&' || c = '\u2028' || c = '\u2029') :
    c.toNat < 0xD800 := by
  simp only [Bool.or_eq_true, decide_eq_true_eq] at h
  rcases h with ((((h | rfl) | rfl) | rfl) | rfl) | rfl
  · omega
  all_goals decide

theorem lexString_quoteChar (c : Char) (rest : List Char) :
    lexString (quoteChar c ++ rest) =
      (lexString rest).map fun p => (quoteChar c ++ p.1, p.2) := by
  by_cases hq : c = '"'
  · subst hq; rfl
  by_cases hb : c = '\\'
  · subst hb; rfl
  by_cases h1 : c = '\x08'
  · subst h1; rfl
  by_cases h2 : c = '\x0c'
  · subst h2; rfl
  by_cases h3 : c = '\n'
  · subst h3; rfl
  by_cases h4 : c = '\r'
  · subst h4; rfl
  by_cases h5 : c = '\t'
  · subst h5; rfl
  unfold quoteChar
  rw [if_neg hq, if_neg hb, if_neg h1, if_neg h2, if_neg h3, if_neg h4, if_neg h5]
  split
  · next h =>
    have hlt := toNat_lt_of_escaped h
    show lexString ('\\' :: 'u' :: _ :: _ :: _ :: _ :: rest) = _
    rw [lexString, isHex_hexDigit (by omega), isHex_hexDigit (by omega),
      isHex_hexDigit (by omega), isHex_hexDigit (by omega)]
    rfl
  · next h =>
    simp only [Bool.or_eq_true, decide_eq_true_eq, not_or] at h
    exact lexString_plain hq hb (by omega) rest

/-- A `\u` escape below the surrogates stands for itself, whatever follows. -/
theorem unquoteChars_unit {a b c d : Char} (h : hex4 a b c d < 0xD800) (rest : List Char) :
    unquoteChars ('\\' :: 'u' :: a :: b :: c :: d :: rest) =
      Char.ofNat (hex4 a b c d) :: unquoteChars rest := by
  have hunit : ofCodeUnit (hex4 a b c d) = Char.ofNat (hex4 a b c d) := by
    rw [ofCodeUnit, if_neg (by omega)]
  have hpair : ∀ lo, isPair (hex4 a b c d) lo = false := by
    intro lo
    simp only [isPair, Bool.and_eq_false_iff, decide_eq_false_iff_not]
    omega
  rw [unquoteChars.eq_def]
  split
  · next h => exact nomatch h
  · next h =>
    simp only [List.cons.injEq, true_and] at h
    obtain ⟨rfl, rfl, rfl, rfl, rfl⟩ := h
    rw [hpair, hunit]
    rfl
  · next h =>
    simp only [List.cons.injEq, true_and] at h
    obtain ⟨rfl, rfl, rfl, rfl, rfl⟩ := h
    rw [hunit]
  · next hno h =>
    obtain ⟨rfl, rfl⟩ := List.cons.inj (List.cons.inj h).2
    exact absurd rfl (hno a b c d rest rfl)
  · next hno h =>
    obtain ⟨rfl, rfl⟩ := List.cons.inj h
    exact absurd rfl (hno _ _ rfl)

theorem unquoteChars_plain {c : Char} (hb : c ≠ '\\') (rest : List Char) :
    unquoteChars (c :: rest) = c :: unquoteChars rest := by
  rw [unquoteChars.eq_def]
  split <;> simp_all

theorem unquoteChars_quoteChar (c : Char) (rest : List Char) :
    unquoteChars (quoteChar c ++ rest) = c :: unquoteChars rest := by
  by_cases hq : c = '"'
  · subst hq; rfl
  by_cases hb : c = '\\'
  · subst hb; rfl
  by_cases h1 : c = '\x08'
  · subst h1; rfl
  by_cases h2 : c = '\x0c'
  · subst h2; rfl
  by_cases h3 : c = '\n'
  · subst h3; rfl
  by_cases h4 : c = '\r'
  · subst h4; rfl
  by_cases h5 : c = '\t'
  · subst h5; rfl
  unfold quoteChar
  rw [if_neg hq, if_neg hb, if_neg h1, if_neg h2, if_neg h3, if_neg h4, if_neg h5]
  split
  · next h =>
    have hlt := toNat_lt_of_escaped h
    have hhex := hex4_hexDigit (n := c.toNat) (by omega)
    show unquoteChars ('\\' :: 'u' :: _ :: _ :: _ :: _ :: rest) = _
    rw [unquoteChars_unit (by rw [hhex]; exact hlt), hhex, Char.ofNat_toNat]
  · exact unquoteChars_plain hb rest

/-- A string reads back from the literal made of it. -/
@[simp] theorem unquote_quote (s : String) : unquote (quote s) = s := by
  have hchars : ∀ cs : List Char, unquoteChars (cs.flatMap quoteChar) = cs := by
    intro cs
    induction cs with
    | nil => rfl
    | cons c cs ih => rw [List.flatMap_cons, unquoteChars_quoteChar, ih]
  rw [unquote, quote, hchars, String.ofList_toList]

theorem hexDigit_printable {n : Nat} (h : n < 16) : 0x20 ≤ (hexDigit n).toNat := by
  revert n
  decide

/-- The writer leaves no control character in a literal. -/
theorem printable_of_mem_quoteChar {c x : Char} (h : x ∈ quoteChar c) : 0x20 ≤ x.toNat := by
  have htwo : ∀ e : Char, 0x20 ≤ e.toNat → x ∈ ['\\', e] → 0x20 ≤ x.toNat := by
    intro e he hx
    rcases List.mem_cons.mp hx with rfl | hx
    · decide
    · exact List.mem_singleton.mp hx ▸ he
  unfold quoteChar at h
  split at h; · exact htwo _ (by decide) h
  split at h; · exact htwo _ (by decide) h
  split at h; · exact htwo _ (by decide) h
  split at h; · exact htwo _ (by decide) h
  split at h; · exact htwo _ (by decide) h
  split at h; · exact htwo _ (by decide) h
  split at h; · exact htwo _ (by decide) h
  split at h
  · next hesc =>
    have hlt := toNat_lt_of_escaped hesc
    simp only [List.mem_cons, List.not_mem_nil, or_false] at h
    rcases h with rfl | rfl | rfl | rfl | rfl | rfl
    · decide
    · decide
    all_goals exact hexDigit_printable (by omega)
  · next hesc =>
    simp only [Bool.or_eq_true, decide_eq_true_eq, not_or] at hesc
    rw [List.mem_singleton.mp h]
    omega

theorem lexString_quoted (cs rest : List Char) :
    lexString (cs.flatMap quoteChar ++ '"' :: rest) = some (cs.flatMap quoteChar, rest) := by
  induction cs with
  | nil => rfl
  | cons c cs ih =>
    rw [List.flatMap_cons, List.append_assoc, lexString_quoteChar, ih]
    rfl

/-- What the writer makes of a string is a literal. -/
theorem strLit_quote (s : String) : StrLit (quote s) where
  printable x hx := by
    obtain ⟨c, -, hc⟩ := List.mem_flatMap.mp hx
    exact printable_of_mem_quoteChar hc
  scan := lexString_quoted s.toList

/-! ## Number literals -/

/-- What may follow a value inside another, or after the last one: a comma, the end of the
line or what closes. -/
def Follow (rest : List Char) : Prop :=
  rest = [] ∨ ∃ c tail, rest = c :: tail ∧ (c = ',' ∨ c = ']' ∨ c = '}' ∨ c = '\n')

/-- A number literal as the scanner takes it. -/
structure NumLit (lit : List Char) : Prop where
  start : ∃ c rest, lit = c :: rest ∧ (c = '-' ∨ c.isDigit = true)
  printable : ∀ c ∈ lit, 0x20 ≤ c.toNat
  scan : ∀ rest, Follow rest → lexNumber (lit ++ rest) = some (lit, rest)

/-- No digit follows a value. -/
theorem Follow.takeWhile_digits {rest : List Char} (h : Follow rest) :
    rest.takeWhile Char.isDigit = [] ∧ rest.dropWhile Char.isDigit = rest := by
  rcases h with rfl | ⟨c, tail, rfl, rfl | rfl | rfl | rfl⟩ <;> exact ⟨rfl, rfl⟩

theorem Follow.lexFrac {rest : List Char} (h : Follow rest) : lexFrac rest = some ([], rest) := by
  rcases h with rfl | ⟨c, tail, rfl, rfl | rfl | rfl | rfl⟩ <;> rfl

theorem Follow.lexExp {rest : List Char} (h : Follow rest) : lexExp rest = some ([], rest) := by
  rcases h with rfl | ⟨c, tail, rfl, rfl | rfl | rfl | rfl⟩ <;> rfl

theorem lexDigits_append {lead ds rest : List Char} (hne : ds ≠ [])
    (hds : ∀ c ∈ ds, c.isDigit = true) (h : Follow rest) :
    lexDigits lead (ds ++ rest) = some (lead ++ ds, rest) := by
  obtain ⟨htake, hdrop⟩ := h.takeWhile_digits
  rw [lexDigits, List.takeWhile_append_of_pos hds, htake, List.append_nil,
    List.dropWhile_append_of_pos hds, hdrop, if_neg hne]

/-- A number literal without fraction and exponent, from its integer part. -/
theorem lexNumber_of_lexInt {lit rest : List Char} (h : Follow rest)
    (hint : lexInt (lit ++ rest) = some (lit, rest)) :
    lexNumber (lit ++ rest) = some (lit, rest) := by
  simp [lexNumber, hint, h.lexFrac, h.lexExp]

/-- A positive number is not rendered with a leading zero. -/
theorem toDigits_head {n : Nat} (hn : 0 < n) :
    ∃ d ds, Nat.toDigits 10 n = d :: ds ∧ d ≠ '0' := by
  induction n using Nat.strongRecOn with
  | ind n ih =>
    rw [Nat.toDigits_eq_if (by decide)]
    split
    · next hlt =>
      have hall : ∀ m, m < 10 → 0 < m → Nat.digitChar m ≠ '0' := by decide
      exact ⟨Nat.digitChar n, [], rfl, hall n hlt hn⟩
    · obtain ⟨d, ds, heq, hd⟩ := ih (n / 10) (by omega) (by omega)
      exact ⟨d, ds ++ [Nat.digitChar (n % 10)], by rw [heq]; rfl, hd⟩

/-- Digits that do not begin with `0` are an integer part. -/
theorem lexInt_digits {d : Char} {ds rest : List Char} (hd : d ≠ '0')
    (hds : ∀ c ∈ d :: ds, c.isDigit = true) (h : Follow rest) :
    lexInt (d :: ds ++ rest) = some (d :: ds, rest) := by
  have hm : d ≠ '-' := by
    rintro rfl
    exact absurd (hds _ List.mem_cons_self) (by decide)
  rw [List.cons_append, lexInt.eq_def]
  split
  · next heq => exact absurd (List.cons.inj heq).1 hm
  · next heq => exact absurd (List.cons.inj heq).1 hm
  · next heq => exact absurd (List.cons.inj heq).1 hd
  · exact lexDigits_append (List.cons_ne_nil d ds) hds h

/-- The same after a minus sign. -/
theorem lexInt_minus_digits {d : Char} {ds rest : List Char} (hd : d ≠ '0')
    (hds : ∀ c ∈ d :: ds, c.isDigit = true) (h : Follow rest) :
    lexInt ('-' :: d :: ds ++ rest) = some ('-' :: d :: ds, rest) := by
  rw [List.cons_append, List.cons_append, lexInt.eq_def]
  split
  · next heq => exact absurd (List.cons.inj (List.cons.inj heq).2).1 hd
  · next heq =>
    obtain ⟨-, rfl⟩ := List.cons.inj heq
    exact lexDigits_append (List.cons_ne_nil d ds) hds h
  · next heq => exact absurd (List.cons.inj heq).1 (by decide)
  · next hno _ => exact absurd rfl (hno (d :: (ds ++ rest)))

theorem printable_of_isDigit {c : Char} (h : c.isDigit = true) : 0x20 ≤ c.toNat := by
  have : 48 ≤ c.toNat := by
    have := Char.isDigit_iff_toNat.mp h
    exact this.1
  omega

theorem numLit_formatInt (z : Int) : NumLit (formatInt z) := by
  have hdigits : ∀ n : Nat, ∀ c ∈ Nat.toDigits 10 n, c.isDigit = true :=
    fun n c hc => isDigit_of_mem_toDigits hc
  unfold formatInt
  split
  · next hz =>
    rcases Nat.eq_zero_or_pos z.toNat with h0 | hpos
    · rw [h0]
      exact { start := ⟨'0', [], rfl, .inr rfl⟩, printable := printable_of_all rfl,
              scan := fun rest hrest => lexNumber_of_lexInt hrest rfl }
    · obtain ⟨d, ds, heq, hd⟩ := toDigits_head hpos
      have hds := hdigits z.toNat
      rw [heq] at hds ⊢
      exact { start := ⟨d, ds, rfl, .inr (hds d List.mem_cons_self)⟩,
              printable := fun c hc => printable_of_isDigit (hds c hc),
              scan := fun rest hrest => lexNumber_of_lexInt hrest (lexInt_digits hd hds hrest) }
  · next hz =>
    obtain ⟨d, ds, heq, hd⟩ := toDigits_head (n := (-z).toNat) (by omega)
    have hds := hdigits (-z).toNat
    rw [heq] at hds ⊢
    refine { start := ⟨'-', d :: ds, rfl, .inl rfl⟩, printable := fun c hc => ?_,
             scan := fun rest hrest =>
               lexNumber_of_lexInt hrest (lexInt_minus_digits hd hds hrest) }
    rcases List.mem_cons.mp hc with rfl | hc
    · decide
    · exact printable_of_isDigit (hds c hc)

/-! ## Values -/

mutual

/-- A value whose literals are literals. -/
def Written : Json → Prop
  | .num lit => NumLit lit
  | .str lit => StrLit lit
  | .arr items => WrittenItems items
  | .obj members => WrittenMembers members
  | _ => True

def WrittenItems : List Json → Prop
  | [] => True
  | v :: rest => Written v ∧ WrittenItems rest

def WrittenMembers : List (List Char × Json) → Prop
  | [] => True
  | (key, v) :: rest => StrLit key ∧ Written v ∧ WrittenMembers rest

end

mutual

/-- The calls that reading a value takes. -/
def cost : Json → Nat
  | .arr items => costItems items + 1
  | .obj members => costMembers members + 1
  | _ => 1

def costItems : List Json → Nat
  | [] => 0
  | v :: rest => cost v + costItems rest + 1

def costMembers : List (List Char × Json) → Nat
  | [] => 0
  | (_, v) :: rest => cost v + costMembers rest + 1

end

theorem skipWs_cons {c : Char} (h : isWs c = false) (rest : List Char) :
    skipWs (c :: rest) = c :: rest := by
  rw [skipWs, List.dropWhile_cons_of_neg (by rw [h]; decide)]

theorem renderItems_follow (items : List Json) (rest : List Char) :
    Follow (renderItems items ++ rest) := by
  cases items with
  | nil => exact .inr ⟨']', rest, rfl, .inr (.inl rfl)⟩
  | cons v items => exact .inr ⟨',', _, rfl, .inl rfl⟩

theorem renderMembers_follow (members : List (List Char × Json)) (rest : List Char) :
    Follow (renderMembers members ++ rest) := by
  cases members with
  | nil => exact .inr ⟨'}', rest, rfl, .inr (.inr (.inl rfl))⟩
  | cons m members => exact .inr ⟨',', _, rfl, .inl rfl⟩

/-- A character that begins a number begins no other value and is no white space. -/
theorem numStart_ne {c : Char} (hc : c = '-' ∨ c.isDigit = true) :
    isWs c = false ∧ c ∉ ['{', '[', '"', 'n', 't', 'f', ']', '}'] := by
  have hne : ∀ x : Char, x ≠ '-' → x.isDigit = false → c ≠ x := by
    rintro x hx hd rfl
    rcases hc with rfl | hc
    · exact hx rfl
    · exact absurd (hc.symm.trans hd) (by decide)
  constructor
  · simp only [isWs, Bool.or_eq_false_iff, decide_eq_false_iff_not]
    exact ⟨⟨⟨hne _ (by decide) rfl, hne _ (by decide) rfl⟩, hne _ (by decide) rfl⟩,
      hne _ (by decide) rfl⟩
  · intro hmem
    simp only [List.mem_cons, List.not_mem_nil, or_false] at hmem
    rcases hmem with h | h | h | h | h | h | h | h <;> exact hne _ (by decide) rfl h

/-- A value's text begins with a character that is no white space and closes nothing. -/
theorem render_head {v : Json} (h : Written v) :
    ∃ c tail, render v = c :: tail ∧ isWs c = false ∧ c ≠ ']' ∧ c ≠ '}' := by
  cases v with
  | null => exact ⟨'n', _, rfl, by decide⟩
  | bool b => cases b with
    | true => exact ⟨'t', _, rfl, by decide⟩
    | false => exact ⟨'f', _, rfl, by decide⟩
  | num lit =>
    obtain ⟨c, tail, rfl, hc⟩ := NumLit.start h
    obtain ⟨hws, hnot⟩ := numStart_ne hc
    exact ⟨c, tail, rfl, hws, fun h => hnot (by simp [h]), fun h => hnot (by simp [h])⟩
  | str lit => exact ⟨'"', _, rfl, by decide⟩
  | arr items => cases items with
    | nil => exact ⟨'[', _, rfl, by decide⟩
    | cons v items => exact ⟨'[', _, rfl, by decide⟩
  | obj members => cases members with
    | nil => exact ⟨'{', _, rfl, by decide⟩
    | cons m members => exact ⟨'{', _, rfl, by decide⟩

theorem parseValue_num {lit rest : List Char} (h : NumLit lit) (hrest : Follow rest)
    (fuel : Nat) : parseValue (fuel + 1) (lit ++ rest) = some (.num lit, rest) := by
  obtain ⟨⟨c, tail, rfl, hc⟩, -, hlex⟩ := h
  obtain ⟨hws, hnot⟩ := numStart_ne hc
  have hne : ∀ {x : Char} {cs : List Char}, x ∈ ['{', '[', '"', 'n', 't', 'f', ']', '}'] →
      c :: (tail ++ rest) ≠ x :: cs := fun hx h => hnot ((List.cons.inj h).1 ▸ hx)
  have hlex' : lexNumber (c :: (tail ++ rest)) = some (c :: tail, rest) := hlex rest hrest
  rw [List.cons_append, parseValue, skipWs_cons hws]
  split
  · next heq => exact absurd heq (hne (by decide))
  · next heq => exact absurd heq (hne (by decide))
  · next heq => exact absurd heq (hne (by decide))
  · next heq => exact absurd heq (hne (by decide))
  · next heq => exact absurd heq (hne (by decide))
  · next heq => exact absurd heq (hne (by decide))
  · rw [hlex']
    rfl

/-- An opened, non-empty array is its items. -/
theorem parseValue_bracket {v : Json} (hw : Written v) (fuel : Nat) (tail : List Char) :
    parseValue (fuel + 1) ('[' :: (render v ++ tail)) =
      (parseItems fuel (render v ++ tail)).map fun p => (.arr p.1, p.2) := by
  obtain ⟨c, cs, hv, hws, hc, -⟩ := render_head hw
  rw [parseValue, skipWs_cons (by decide)]
  simp only [hv, List.cons_append, skipWs_cons hws]
  split
  · next heq => exact absurd (List.cons.inj heq).1 hc
  · rfl

mutual

theorem parseValue_render (v : Json) (fuel : Nat) (rest : List Char) (hw : Written v)
    (hfuel : cost v ≤ fuel) (hrest : Follow rest) :
    parseValue fuel (render v ++ rest) = some (v, rest) := by
  match v, fuel with
  | .null, fuel + 1 => rfl
  | .bool true, fuel + 1 => rfl
  | .bool false, fuel + 1 => rfl
  | .num lit, fuel + 1 => exact parseValue_num hw hrest fuel
  | .str lit, fuel + 1 =>
    have hlit : StrLit lit := hw
    show (lexString (lit ++ ['"'] ++ rest)).map _ = _
    rw [List.append_assoc]
    show (lexString (lit ++ '"' :: rest)).map _ = _
    rw [hlit.scan rest]
    rfl
  | .arr [], fuel + 1 => rfl
  | .obj [], fuel + 1 => rfl
  | .arr (v :: items), fuel + 1 =>
    have hw' : Written v ∧ WrittenItems items := hw
    have hcost : cost v + costItems items + 1 + 1 ≤ fuel + 1 := hfuel
    rw [render, List.cons_append, List.cons_append, List.append_assoc,
      parseValue_bracket hw'.1, parseItems_render v items fuel rest hw'.1 hw'.2 (by omega)]
    rfl
  | .obj ((key, v) :: members), fuel + 1 =>
    have hw' : StrLit key ∧ Written v ∧ WrittenMembers members := hw
    have hcost : cost v + costMembers members + 1 + 1 ≤ fuel + 1 := hfuel
    show (parseMembers fuel ('"' :: (key ++ '"' :: ':' :: render v ++ renderMembers members ++
      rest))).map _ = _
    rw [parseMembers_render key v members fuel rest hw'.1 hw'.2.1 hw'.2.2 (by omega)]
    rfl
  | .null, 0 | .bool _, 0 | .num _, 0 | .str _, 0 => exact absurd hfuel (by simp [cost])
  | .arr _, 0 | .obj _, 0 => exact absurd hfuel (by simp [cost])

theorem parseItems_render (v : Json) (items : List Json) (fuel : Nat) (rest : List Char)
    (hv : Written v) (hw : WrittenItems items) (hfuel : cost v + costItems items + 1 ≤ fuel) :
    parseItems fuel (render v ++ (renderItems items ++ rest)) = some (v :: items, rest) := by
  match fuel with
  | 0 => omega
  | fuel + 1 =>
    rw [parseItems, parseValue_render v fuel _ hv (by omega) (renderItems_follow items rest)]
    match items with
    | [] => rfl
    | w :: items =>
      have hw' : Written w ∧ WrittenItems items := hw
      have hcost : cost v + (cost w + costItems items + 1) + 1 ≤ fuel + 1 := hfuel
      show (parseItems fuel (render w ++ renderItems items ++ rest)).map _ = _
      rw [List.append_assoc, parseItems_render w items fuel rest hw'.1 hw'.2 (by omega)]
      rfl

theorem parseMembers_render (key : List Char) (v : Json) (members : List (List Char × Json))
    (fuel : Nat) (rest : List Char) (hkey : StrLit key) (hv : Written v)
    (hw : WrittenMembers members) (hfuel : cost v + costMembers members + 1 ≤ fuel) :
    parseMembers fuel ('"' :: (key ++ '"' :: ':' :: render v ++ renderMembers members ++ rest)) =
      some ((key, v) :: members, rest) := by
  match fuel with
  | 0 => omega
  | fuel + 1 =>
    have hlex := hkey.scan (':' :: (render v ++ (renderMembers members ++ rest)))
    have happ : key ++ '"' :: ':' :: render v ++ renderMembers members ++ rest =
        key ++ '"' :: ':' :: (render v ++ (renderMembers members ++ rest)) := by simp
    rw [happ, parseMembers, skipWs_cons (by decide)]
    show (lexString _).bind _ = _
    rw [hlex]
    show (parseValue fuel _).bind _ = _
    rw [parseValue_render v fuel _ hv (by omega) (renderMembers_follow members rest)]
    match members with
    | [] => rfl
    | (key', w) :: members =>
      have hw' : StrLit key' ∧ Written w ∧ WrittenMembers members := hw
      have hcost : cost v + (cost w + costMembers members + 1) + 1 ≤ fuel + 1 := hfuel
      show (parseMembers fuel ('"' :: (key' ++ '"' :: ':' :: render w ++
        renderMembers members ++ rest))).map _ = _
      rw [parseMembers_render key' w members fuel rest hw'.1 hw'.2.1 hw'.2.2 (by omega)]
      rfl

end

mutual

/-- The parser's bound covers every text it is given. -/
theorem cost_le (v : Json) (hw : Written v) : cost v ≤ 2 * (render v).length := by
  match v with
  | .null | .bool true | .bool false => simp [cost, render]
  | .num lit =>
    obtain ⟨c, tail, rfl, -⟩ := NumLit.start hw
    simp only [cost, render, List.length_cons]
    omega
  | .str lit =>
    simp only [cost, render, List.length_append, List.length_cons]
    omega
  | .arr [] | .obj [] => simp [cost, costItems, costMembers, render]
  | .arr (v :: items) =>
    have hw' : Written v ∧ WrittenItems items := hw
    have := cost_le v hw'.1
    have := costItems_le items hw'.2
    simp only [cost, costItems, render, List.length_append, List.length_cons]
    omega
  | .obj ((key, v) :: members) =>
    have hw' : StrLit key ∧ Written v ∧ WrittenMembers members := hw
    have := cost_le v hw'.2.1
    have := costMembers_le members hw'.2.2
    simp only [cost, costMembers, render, List.length_append, List.length_cons]
    omega

theorem costItems_le (items : List Json) (hw : WrittenItems items) :
    costItems items ≤ 2 * (renderItems items).length := by
  match items with
  | [] => exact Nat.zero_le _
  | v :: items =>
    have hw' : Written v ∧ WrittenItems items := hw
    have := cost_le v hw'.1
    have := costItems_le items hw'.2
    simp only [costItems, renderItems, List.length_append, List.length_cons]
    omega

theorem costMembers_le (members : List (List Char × Json)) (hw : WrittenMembers members) :
    costMembers members ≤ 2 * (renderMembers members).length := by
  match members with
  | [] => exact Nat.zero_le _
  | (key, v) :: members =>
    have hw' : StrLit key ∧ Written v ∧ WrittenMembers members := hw
    have := cost_le v hw'.2.1
    have := costMembers_le members hw'.2.2
    simp only [costMembers, renderMembers, List.length_append, List.length_cons]
    omega

end

mutual

/-- A written value has no control character in its text, so it is one line. -/
theorem printable_render (v : Json) (hw : Written v) : ∀ c ∈ render v, 0x20 ≤ c.toNat := by
  match v with
  | .null | .bool true | .bool false => exact printable_of_all rfl
  | .num lit => exact NumLit.printable hw
  | .str lit =>
    intro c hc
    simp only [render, List.mem_append, List.mem_cons, List.not_mem_nil, or_false] at hc
    rcases hc with (rfl | hc) | rfl
    · decide
    · exact StrLit.printable hw c hc
    · decide
  | .arr [] | .obj [] => exact printable_of_all rfl
  | .arr (v :: items) =>
    have hw' : Written v ∧ WrittenItems items := hw
    intro c hc
    simp only [render, List.mem_append, List.mem_cons] at hc
    rcases hc with (rfl | hc) | hc
    · decide
    · exact printable_render v hw'.1 c hc
    · exact printable_renderItems items hw'.2 c hc
  | .obj ((key, v) :: members) =>
    have hw' : StrLit key ∧ Written v ∧ WrittenMembers members := hw
    intro c hc
    simp only [render, List.mem_append, List.mem_cons] at hc
    rcases hc with ((rfl | rfl | hc) | rfl | rfl | hc) | hc
    · decide
    · decide
    · exact hw'.1.printable c hc
    · decide
    · decide
    · exact printable_render v hw'.2.1 c hc
    · exact printable_renderMembers members hw'.2.2 c hc

theorem printable_renderItems (items : List Json) (hw : WrittenItems items) :
    ∀ c ∈ renderItems items, 0x20 ≤ c.toNat := by
  match items with
  | [] => exact printable_of_all rfl
  | v :: items =>
    have hw' : Written v ∧ WrittenItems items := hw
    intro c hc
    simp only [renderItems, List.mem_append, List.mem_cons] at hc
    rcases hc with (rfl | hc) | hc
    · decide
    · exact printable_render v hw'.1 c hc
    · exact printable_renderItems items hw'.2 c hc

theorem printable_renderMembers (members : List (List Char × Json)) (hw : WrittenMembers members) :
    ∀ c ∈ renderMembers members, 0x20 ≤ c.toNat := by
  match members with
  | [] => exact printable_of_all rfl
  | (key, v) :: members =>
    have hw' : StrLit key ∧ Written v ∧ WrittenMembers members := hw
    intro c hc
    simp only [renderMembers, List.mem_append, List.mem_cons] at hc
    rcases hc with ((rfl | rfl | hc) | rfl | rfl | hc) | hc
    · decide
    · decide
    · exact hw'.1.printable c hc
    · decide
    · decide
    · exact printable_render v hw'.2.1 c hc
    · exact printable_renderMembers members hw'.2.2 c hc

end

/-- **A written value reads back.** -/
theorem parse_render {v : Json} (hw : Written v) (hdepth : v.depth ≤ maxNestingDepth) :
    parse (render v) = some v := by
  have hcost := cost_le v hw
  have := parseValue_render v (2 * (render v).length + 2) [] hw (by omega) (.inl rfl)
  rw [List.append_nil] at this
  rw [parse, this]
  exact if_pos ⟨rfl, hdepth⟩

end Lib.Json
