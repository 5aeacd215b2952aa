import FusionLocalServer.Lib.Json.Raw

/-!
# The literals of a value that was read

What the scanner takes as a string or as a number it takes again, wherever it stands, so a
value that was read can be written and read back (`parse_written`).
-/

namespace Lib.Json

/-! ## Strings -/

/-- A string literal, piece by piece. -/
inductive Lit : List Char → Prop
  | nil : Lit []
  | unit {a b c d : Char} {rest : List Char} : isHex a = true → isHex b = true →
      isHex c = true → isHex d = true → Lit rest → Lit ('\\' :: 'u' :: a :: b :: c :: d :: rest)
  | escape {e : Char} {rest : List Char} : isEscape e = true → Lit rest → Lit ('\\' :: e :: rest)
  | plain {c : Char} {rest : List Char} : c ≠ '"' → c ≠ '\\' → ¬ c.toNat < 0x20 → Lit rest →
      Lit (c :: rest)

/-- The characters that may follow a backslash alone. -/
theorem isEscape_cases {e : Char} (h : isEscape e = true) :
    e = '"' ∨ e = '\\' ∨ e = '/' ∨ e = 'b' ∨ e = 'f' ∨ e = 'n' ∨ e = 'r' ∨ e = 't' := by
  unfold isEscape at h
  simpa only [Bool.or_eq_true, decide_eq_true_eq, or_assoc] using h

theorem printable_of_isHex {c : Char} (h : isHex c = true) : 0x20 ≤ c.toNat := by
  unfold isHex hexVal at h
  have hzero : '0'.toNat = 48 := rfl
  have ha : 'a'.toNat = 97 := rfl
  have hA : 'A'.toNat = 65 := rfl
  split at h
  · next hle =>
    have : '0'.toNat ≤ c.toNat := hle.1
    omega
  · split at h
    · next hle =>
      have : 'a'.toNat ≤ c.toNat := hle.1
      omega
    · split at h
      · next hle =>
        have : 'A'.toNat ≤ c.toNat := hle.1
        omega
      · cases h

theorem Lit.printable {lit : List Char} (h : Lit lit) : ∀ c ∈ lit, 0x20 ≤ c.toNat := by
  induction h with
  | nil => exact fun _ hc => (nomatch hc)
  | unit ha hb hc hd _ ih =>
    intro x hx
    simp only [List.mem_cons] at hx
    rcases hx with rfl | rfl | rfl | rfl | rfl | rfl | hx
    · decide
    · decide
    · exact printable_of_isHex ha
    · exact printable_of_isHex hb
    · exact printable_of_isHex hc
    · exact printable_of_isHex hd
    · exact ih x hx
  | escape he _ ih =>
    intro x hx
    simp only [List.mem_cons] at hx
    rcases hx with rfl | rfl | hx
    · decide
    · rcases isEscape_cases he with rfl | rfl | rfl | rfl | rfl | rfl | rfl | rfl <;> decide
    · exact ih x hx
  | plain _ _ hc _ ih =>
    intro x hx
    rcases List.mem_cons.mp hx with rfl | hx
    · exact Nat.not_lt.mp hc
    · exact ih x hx

theorem lexString_unit {a b c d : Char} (ha : isHex a = true) (hb : isHex b = true)
    (hc : isHex c = true) (hd : isHex d = true) (rest : List Char) :
    lexString ('\\' :: 'u' :: a :: b :: c :: d :: rest) =
      (lexString rest).map fun p => ('\\' :: 'u' :: a :: b :: c :: d :: p.1, p.2) := by
  rw [lexString, ha, hb, hc, hd]
  rfl

theorem lexString_escape {e : Char} (h : isEscape e = true) (rest : List Char) :
    lexString ('\\' :: e :: rest) = (lexString rest).map fun p => ('\\' :: e :: p.1, p.2) := by
  rcases isEscape_cases h with rfl | rfl | rfl | rfl | rfl | rfl | rfl | rfl <;> rfl

theorem Lit.strLit {lit : List Char} (h : Lit lit) : StrLit lit where
  printable := h.printable
  scan rest := by
    induction h with
    | nil => rfl
    | unit ha hb hc hd _ ih =>
      simp only [List.cons_append]
      rw [lexString_unit ha hb hc hd, ih]
      rfl
    | escape he _ ih =>
      simp only [List.cons_append]
      rw [lexString_escape he, ih]
      rfl
    | plain hq hb hc _ ih =>
      rw [List.cons_append, lexString_plain hq hb hc, ih]
      rfl

theorem lit_of_lexString (cs : List Char) :
    ∀ {lit rest : List Char}, lexString cs = some (lit, rest) → Lit lit := by
  fun_induction lexString cs with
  | case1 => exact fun h => (nomatch h)
  | case2 rest =>
    rintro _ _ ⟨⟩
    exact .nil
  | case3 a b c d rest hhex ih =>
    intro lit rest' h
    obtain ⟨p, hp, heq⟩ := Option.map_eq_some_iff.mp h
    cases heq
    simp only [Bool.and_eq_true] at hhex
    exact .unit hhex.1.1.1 hhex.1.1.2 hhex.1.2 hhex.2 (ih hp)
  | case4 => exact fun h => (nomatch h)
  | case5 e rest _ hesc ih =>
    intro lit rest' h
    obtain ⟨p, hp, heq⟩ := Option.map_eq_some_iff.mp h
    cases heq
    exact .escape hesc (ih hp)
  | case6 => exact fun h => (nomatch h)
  | case7 => exact fun h => (nomatch h)
  | case8 c rest hq _ hb hc ih =>
    intro lit rest' h
    obtain ⟨p, hp, heq⟩ := Option.map_eq_some_iff.mp h
    cases heq
    have hslash : c ≠ '\\' := by
      rintro rfl
      cases rest with
      | nil => cases hp
      | cons e rest => exact hb e rest rfl rfl
    exact .plain hq hslash hc (ih hp)

theorem StrLit.lit {lit : List Char} (h : StrLit lit) : Lit lit := lit_of_lexString _ (h.scan [])

/-! ## Numbers -/

/-- No digit comes next. -/
def Stop (cs : List Char) : Prop := ∀ c rest, cs = c :: rest → c.isDigit = false

theorem Follow.stop {rest : List Char} (h : Follow rest) : Stop rest := by
  rintro c tail rfl
  rcases h with h | ⟨c', tail', heq, hc⟩
  · cases h
  · cases heq
    rcases hc with rfl | rfl | rfl | rfl <;> rfl

/-- One or more digits. -/
structure Digits (ds : List Char) : Prop where
  ne_nil : ds ≠ []
  all : ∀ c ∈ ds, c.isDigit = true

theorem Digits.head {ds : List Char} (h : Digits ds) :
    ∃ c rest, ds = c :: rest ∧ c.isDigit = true := by
  obtain ⟨c, rest, rfl⟩ := List.exists_cons_of_ne_nil h.ne_nil
  exact ⟨c, rest, rfl, h.all c List.mem_cons_self⟩

theorem Digits.lex {lead ds rest : List Char} (h : Digits ds) (hstop : Stop rest) :
    lexDigits lead (ds ++ rest) = some (lead ++ ds, rest) := by
  have hnone : rest.takeWhile Char.isDigit = [] ∧ rest.dropWhile Char.isDigit = rest := by
    cases rest with
    | nil => exact ⟨rfl, rfl⟩
    | cons c tail =>
      have hc := hstop c tail rfl
      exact ⟨List.takeWhile_cons_of_neg (Bool.eq_false_iff.mp hc),
        List.dropWhile_cons_of_neg (Bool.eq_false_iff.mp hc)⟩
  rw [lexDigits, List.takeWhile_append_of_pos h.all, hnone.1, List.append_nil,
    List.dropWhile_append_of_pos h.all, hnone.2, if_neg h.ne_nil]

theorem digits_of_lexDigits {lead cs lit rest : List Char}
    (h : lexDigits lead cs = some (lit, rest)) :
    ∃ ds, Digits ds ∧ lit = lead ++ ds ∧ cs = ds ++ rest := by
  unfold lexDigits at h
  dsimp only at h
  split at h
  · cases h
  · next hne =>
    cases h
    refine ⟨_, ⟨hne, fun c hc => ?_⟩, rfl, List.takeWhile_append_dropWhile.symm⟩
    exact List.all_eq_true.mp List.all_takeWhile c hc

/-- The integer part is scanned again before whatever is not a digit. -/
theorem lexInt_again {cs lit rest : List Char} (h : lexInt cs = some (lit, rest)) :
    (∃ c tail, lit = c :: tail ∧ (c = '-' ∨ c.isDigit = true)) ∧
      (∀ c ∈ lit, c = '-' ∨ c.isDigit = true) ∧
      ∀ rest', Stop rest' → lexInt (lit ++ rest') = some (lit, rest') := by
  unfold lexInt at h
  split at h
  · cases h
    refine ⟨⟨'-', ['0'], rfl, .inl rfl⟩, ?_, fun _ _ => rfl⟩
    exact List.forall_mem_cons.mpr ⟨.inl rfl, List.forall_mem_singleton.mpr (.inr rfl)⟩
  · next tail hzero =>
    obtain ⟨ds, hds, rfl, rfl⟩ := digits_of_lexDigits h
    refine ⟨⟨'-', ds, rfl, .inl rfl⟩, fun c hc => ?_, fun rest' hstop => ?_⟩
    · rcases List.mem_cons.mp hc with rfl | hc
      · exact .inl rfl
      · exact .inr (hds.all c hc)
    · obtain ⟨d, tail, rfl, hd⟩ := hds.head
      have hne : d ≠ '0' := fun hd0 => hzero (tail ++ rest) (by rw [hd0]; rfl)
      rw [List.singleton_append, List.cons_append, List.cons_append, lexInt.eq_def]
      split
      · next heq => exact absurd (List.cons.inj (List.cons.inj heq).2).1 hne
      · next heq =>
        obtain ⟨-, rfl⟩ := List.cons.inj heq
        exact hds.lex hstop
      · next heq => exact absurd (List.cons.inj heq).1 (by decide)
      · next hno _ => exact absurd rfl (hno _)
  · cases h
    exact ⟨⟨'0', [], rfl, .inr rfl⟩, List.forall_mem_singleton.mpr (.inr rfl), fun _ _ => rfl⟩
  · next hzero =>
    obtain ⟨ds, hds, rfl, rfl⟩ := digits_of_lexDigits h
    obtain ⟨d, tail, rfl, hd⟩ := hds.head
    refine ⟨⟨d, tail, rfl, .inr hd⟩, fun c hc => .inr (hds.all c hc), fun rest' hstop => ?_⟩
    have hm : d ≠ '-' := by
      rintro rfl
      exact absurd hd (by decide)
    have hz : d ≠ '0' := by
      rintro rfl
      exact hzero _ rfl
    rw [List.cons_append, lexInt.eq_def]
    split
    · next heq => exact absurd (List.cons.inj heq).1 hm
    · next heq => exact absurd (List.cons.inj heq).1 hm
    · next heq => exact absurd (List.cons.inj heq).1 hz
    · exact hds.lex hstop

/-- What a number literal is made of. -/
def isNumChar (c : Char) : Bool :=
  c.isDigit || c = '-' || c = '+' || c = '.' || c = 'e' || c = 'E'

theorem isNumChar_cases {c : Char} (h : isNumChar c = true) :
    c.isDigit = true ∨ c = '-' ∨ c = '+' ∨ c = '.' ∨ c = 'e' ∨ c = 'E' := by
  unfold isNumChar at h
  simpa only [Bool.or_eq_true, decide_eq_true_eq, or_assoc] using h

theorem printable_of_isNumChar {c : Char} (h : isNumChar c = true) : 0x20 ≤ c.toNat := by
  rcases isNumChar_cases h with h | rfl | rfl | rfl | rfl | rfl
  · exact printable_of_isDigit h
  all_goals decide

/-- The fraction is scanned again before whatever is no digit, and no point either. -/
theorem lexFrac_again {cs lit rest : List Char} (h : lexFrac cs = some (lit, rest)) :
    (∀ c ∈ lit, isNumChar c = true) ∧ (lit = [] ∨ ∃ ds, lit = '.' :: ds) ∧
      ∀ rest', Stop rest' → (∀ tail, rest' ≠ '.' :: tail) →
        lexFrac (lit ++ rest') = some (lit, rest') := by
  unfold lexFrac at h
  split at h
  · obtain ⟨ds, hds, rfl, rfl⟩ := digits_of_lexDigits h
    refine ⟨fun c hc => ?_, .inr ⟨ds, rfl⟩, fun rest' hstop _ => hds.lex hstop⟩
    rcases List.mem_cons.mp hc with rfl | hc
    · rfl
    · simp [isNumChar, hds.all c hc]
  · cases h
    refine ⟨fun _ hc => (nomatch hc), .inl rfl, fun rest' _ hpoint => ?_⟩
    rw [List.nil_append, lexFrac.eq_def]
    split
    · exact absurd rfl (hpoint _)
    · rfl

/-- The exponent is scanned again before what may follow a value. -/
theorem lexExp_again {cs lit rest : List Char} (h : lexExp cs = some (lit, rest)) :
    (∀ c ∈ lit, isNumChar c = true) ∧
      (lit = [] ∨ ∃ e ds, lit = e :: ds ∧ (e = 'e' ∨ e = 'E')) ∧
      ∀ rest', Follow rest' → lexExp (lit ++ rest') = some (lit, rest') := by
  have hchar : ∀ e, (e = 'e' || e = 'E') = true → isNumChar e = true := fun e he => by
    simp only [Bool.or_eq_true, decide_eq_true_eq] at he
    rcases he with rfl | rfl <;> rfl
  have hdigit : ∀ {ds : List Char}, Digits ds → ∀ c ∈ ds, isNumChar c = true :=
    fun hds c hc => by simp [isNumChar, hds.all c hc]
  cases cs with
  | nil =>
    cases h
    exact ⟨fun _ hc => (nomatch hc), .inl rfl, fun _ hrest => hrest.lexExp⟩
  | cons e tail =>
    unfold lexExp at h
    dsimp only at h
    split at h
    · next he =>
      have he' : e = 'e' ∨ e = 'E' := by simpa using he
      split at h
      · obtain ⟨ds, hds, rfl, rfl⟩ := digits_of_lexDigits h
        refine ⟨?_, .inr ⟨e, '+' :: ds, rfl, he'⟩, fun rest' hrest => ?_⟩
        · simp only [List.cons_append, List.nil_append, List.forall_mem_cons]
          exact ⟨hchar e he, rfl, hdigit hds⟩
        · show lexExp (e :: '+' :: (ds ++ rest')) = _
          rw [lexExp, if_pos he]
          exact hds.lex hrest.stop
      · obtain ⟨ds, hds, rfl, rfl⟩ := digits_of_lexDigits h
        refine ⟨?_, .inr ⟨e, '-' :: ds, rfl, he'⟩, fun rest' hrest => ?_⟩
        · simp only [List.cons_append, List.nil_append, List.forall_mem_cons]
          exact ⟨hchar e he, rfl, hdigit hds⟩
        · show lexExp (e :: '-' :: (ds ++ rest')) = _
          rw [lexExp, if_pos he]
          exact hds.lex hrest.stop
      · obtain ⟨ds, hds, rfl, rfl⟩ := digits_of_lexDigits h
        refine ⟨?_, .inr ⟨e, ds, rfl, he'⟩, fun rest' hrest => ?_⟩
        · simp only [List.cons_append, List.nil_append, List.forall_mem_cons]
          exact ⟨hchar e he, hdigit hds⟩
        · -- a sign is no digit
          obtain ⟨d, tail, rfl, hd⟩ := hds.head
          show lexExp (e :: (d :: tail ++ rest')) = _
          unfold lexExp
          dsimp only
          rw [if_pos he]
          split
          · next heq =>
            rw [(List.cons.inj heq).1] at hd
            exact absurd hd (by decide)
          · next heq =>
            rw [(List.cons.inj heq).1] at hd
            exact absurd hd (by decide)
          · exact hds.lex hrest.stop
    · cases h
      exact ⟨fun _ hc => (nomatch hc), .inl rfl, fun _ hrest => hrest.lexExp⟩

/-- What is scanned as a number is scanned again, and is made of the characters of numbers. -/
theorem numLit_of_lexNumber {cs lit rest : List Char} (h : lexNumber cs = some (lit, rest)) :
    NumLit lit ∧ ∀ c ∈ lit, isNumChar c = true := by
  unfold lexNumber at h
  obtain ⟨⟨int, cs₁⟩, hint, h⟩ := Option.bind_eq_some_iff.mp h
  obtain ⟨⟨frac, cs₂⟩, hfrac, h⟩ := Option.bind_eq_some_iff.mp h
  obtain ⟨⟨exp, cs₃⟩, hexp, h⟩ := Option.bind_eq_some_iff.mp h
  cases h
  obtain ⟨⟨c, tail, rfl, hc⟩, hichars, hiscan⟩ := lexInt_again hint
  obtain ⟨hfchars, hfhead, hfscan⟩ := lexFrac_again hfrac
  obtain ⟨hechars, hehead, hescan⟩ := lexExp_again hexp
  have hichars' : ∀ x ∈ c :: tail, isNumChar x = true := fun x hx => by
    rcases hichars x hx with rfl | hx
    · rfl
    · simp [isNumChar, hx]
  have hchars : ∀ x ∈ c :: tail ++ frac ++ exp, isNumChar x = true := by
    intro x hx
    rcases List.mem_append.mp hx with hx | hx
    · rcases List.mem_append.mp hx with hx | hx
      · exact hichars' x hx
      · exact hfchars x hx
    · exact hechars x hx
  refine ⟨⟨⟨c, tail ++ frac ++ exp, by simp, hc⟩, fun x hx => ?_, fun rest' hrest => ?_⟩, hchars⟩
  · exact printable_of_isNumChar (hchars x hx)
  · have hafter : Stop (exp ++ rest') ∧ ∀ tail, exp ++ rest' ≠ '.' :: tail := by
      rcases hehead with rfl | ⟨e, ds, rfl, he⟩
      · refine ⟨hrest.stop, fun tail heq => ?_⟩
        rcases hrest with rfl | ⟨c', tail', rfl, hc'⟩
        · cases heq
        · cases heq
          revert hc'
          decide
      · refine ⟨?_, fun tail heq => ?_⟩
        · rintro _ _ ⟨⟩
          rcases he with rfl | rfl <;> rfl
        · cases heq
          revert he
          decide
    have hstop : Stop (frac ++ (exp ++ rest')) := by
      rcases hfhead with rfl | ⟨ds, rfl⟩
      · exact hafter.1
      · rintro _ _ ⟨⟩
        rfl
    unfold lexNumber
    rw [List.append_assoc, List.append_assoc, hiscan _ hstop, Option.bind_eq_bind,
      Option.bind_some]
    dsimp only
    rw [hfscan _ hafter.1 hafter.2, Option.bind_some]
    dsimp only
    rw [hescan _ hrest]
    rfl

theorem NumLit.chars {lit : List Char} (h : NumLit lit) : ∀ c ∈ lit, isNumChar c = true := by
  have hscan := h.scan [] (.inl rfl)
  rw [List.append_nil] at hscan
  exact (numLit_of_lexNumber hscan).2

/-! ## Values -/

/-- What is read is made of literals, by the bound of the parser. -/
theorem written_of_parse (fuel : Nat) :
    (∀ {cs v rest}, parseValue fuel cs = some (v, rest) → Written v) ∧
    (∀ {cs members rest}, parseMembers fuel cs = some (members, rest) → WrittenMembers members) ∧
    ∀ {cs items rest}, parseItems fuel cs = some (items, rest) → WrittenItems items := by
  induction fuel with
  | zero => exact ⟨fun h => (nomatch h), fun h => (nomatch h), fun h => (nomatch h)⟩
  | succ fuel ih =>
    obtain ⟨ihv, ihm, ihi⟩ := ih
    refine ⟨fun {cs v rest} h => ?_, fun {cs members rest} h => ?_, fun {cs items rest} h => ?_⟩
    · rw [parseValue.eq_def] at h
      dsimp only at h
      split at h
      · split at h
        · cases h
          trivial
        · obtain ⟨p, hp, heq⟩ := Option.map_eq_some_iff.mp h
          cases heq
          exact ihm hp
      · split at h
        · cases h
          trivial
        · obtain ⟨p, hp, heq⟩ := Option.map_eq_some_iff.mp h
          cases heq
          exact ihi hp
      · obtain ⟨p, hp, heq⟩ := Option.map_eq_some_iff.mp h
        cases heq
        exact (lit_of_lexString _ hp).strLit
      · cases h
        trivial
      · cases h
        trivial
      · cases h
        trivial
      · obtain ⟨p, hp, heq⟩ := Option.map_eq_some_iff.mp h
        cases heq
        exact (numLit_of_lexNumber hp).1
    · rw [parseMembers.eq_def] at h
      dsimp only at h
      split at h
      · obtain ⟨⟨key, rest₁⟩, hkey, h⟩ := Option.bind_eq_some_iff.mp h
        dsimp only at h
        split at h
        · obtain ⟨⟨v, rest₂⟩, hv, h⟩ := Option.bind_eq_some_iff.mp h
          have hfirst : StrLit key ∧ Written v := ⟨(lit_of_lexString _ hkey).strLit, ihv hv⟩
          dsimp only at h
          split at h
          · obtain ⟨p, hp, heq⟩ := Option.map_eq_some_iff.mp h
            cases heq
            exact ⟨hfirst.1, hfirst.2, ihm hp⟩
          · cases h
            exact ⟨hfirst.1, hfirst.2, trivial⟩
          · cases h
        · cases h
      · cases h
    · rw [parseItems.eq_def] at h
      dsimp only at h
      obtain ⟨⟨v, rest₁⟩, hv, h⟩ := Option.bind_eq_some_iff.mp h
      dsimp only at h
      split at h
      · obtain ⟨p, hp, heq⟩ := Option.map_eq_some_iff.mp h
        cases heq
        exact ⟨ihv hv, ihi hp⟩
      · cases h
        exact ⟨ihv hv, trivial⟩
      · cases h

/-- **What is read can be written**: its literals are literals, and it nests no deeper than
the reader allows. -/
theorem parse_written {cs : List Char} {v : Json} (h : parse cs = some v) :
    Written v ∧ v.depth ≤ maxNestingDepth := by
  unfold parse at h
  split at h
  · next w rest hvalue =>
    split at h
    · next hend =>
      cases h
      exact ⟨(written_of_parse _).1 hvalue, hend.2⟩
    · cases h
  · cases h

end Lib.Json
