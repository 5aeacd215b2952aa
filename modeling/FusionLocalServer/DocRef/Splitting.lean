import FusionLocalServer.DocRef.Tokens

/-!
# A body of texts and document tokens, taken apart

Where no text has a token prefix in it, and no token is followed by a character that could belong
to it, `splitRefTokens` finds the tokens where they were put and gives the texts back. A prefix
that began in a text could only end in the token after it, whose first letter no prefix has again.
-/

namespace FusionLocalServer.RefTokens

open Lib Lib.FormUrl

/-! ## Bodies -/

/-- Tokens, each with the text after it. -/
def tokensOf (items : List (DocRef × List Char)) : List Char :=
  items.flatMap fun p => encodeDocRef p.1 ++ p.2

/-- There is no token prefix in a text. -/
def Plain (text : List Char) : Prop := ∀ scheme ∈ schemes, ¬ scheme.toList <:+: text

/-- A token ends here: at the end, or before a character that is not one of a token's. -/
def Ends (rest : List Char) : Prop := ∀ c, rest.head? = some c → tokenChar c = false

def WellFormed : List (DocRef × List Char) → Prop
  | [] => True
  | (ref, text) :: items =>
    ref.Full ∧ Plain text ∧ Ends (text ++ tokensOf items) ∧ WellFormed items

/-- The parts that were put together: no part for an empty text, but for an empty body. -/
def partsOf (text : List Char) (items : List (DocRef × List Char)) : List RefPart :=
  match textRun text ++ items.flatMap fun p => .doc p.1 :: textRun p.2 with
  | [] => [.text []]
  | parts => parts

/-! ## Where a prefix can begin -/

/-- A pattern with its first element only once does not go over from one part into another that
begins with that element. -/
theorem prefix_of_first {α : Type} {p u v : List α} {a : α} (hhead : p.head? = some a)
    (honce : a ∉ p.tail) (hp : p <+: u ++ v) (hu : u ≠ []) (hv : ∀ b, v.head? = some b → b = a) :
    p <+: u := by
  rcases Nat.le_total p.length u.length with hle | hle
  · exact List.prefix_of_prefix_length_le hp (List.prefix_append u v) hle
  obtain ⟨w, rfl⟩ := List.prefix_of_prefix_length_le (List.prefix_append u v) hp hle
  cases w with
  | nil => simp
  | cons b w =>
    -- the pattern would have its first element again where the second part begins
    have hb : b = a := by
      obtain ⟨more, hmore⟩ := (List.prefix_append_right_inj u).mp hp
      exact hv b (by rw [← hmore]; rfl)
    obtain ⟨x, u, rfl⟩ := List.exists_cons_of_ne_nil hu
    exact absurd (hb ▸ List.mem_append_right u List.mem_cons_self) honce

theorem head_tokensOf {items : List (DocRef × List Char)} {c : Char}
    (h : (tokensOf items).head? = some c) : c = 'f' := by
  cases items with
  | nil => exact nomatch h
  | cons item items => exact (Option.some.inj h).symm

/-- No token begins in a text. -/
theorem tokenAt_text {text u : List Char} (hplain : Plain text) (hsuffix : u <:+ text) (hu : u ≠ [])
    {items : List (DocRef × List Char)} : tokenAt (u ++ tokensOf items) = none := by
  rw [tokenAt, List.findSome?_eq_none_iff]
  intro scheme hscheme
  have hletters : ∀ scheme ∈ schemes,
      scheme.toList.head? = some 'f' ∧ 'f' ∉ scheme.toList.tail := by decide
  obtain ⟨hhead, honce⟩ := hletters scheme hscheme
  refine if_neg fun ⟨hpre, _⟩ => hplain scheme hscheme ?_
  have := prefix_of_first hhead honce (List.isPrefixOf_iff_prefix.mp hpre) hu
    fun _ => head_tokensOf
  exact this.isInfix.trans hsuffix.isInfix

/-! ## Where a token ends -/

theorem takeWhile_query {ps : List (String × List Char)} {rest : List Char} (h : Ends rest) :
    (toQuery ps ++ rest).takeWhile tokenChar = toQuery ps := by
  rw [List.takeWhile_append_of_pos fun c hc => (mem_toQuery hc).1]
  cases rest with
  | nil => exact List.append_nil _
  | cons c rest => rw [List.takeWhile_cons_of_neg (by simp [h c rfl]), List.append_nil]

theorem toQuery_ne_nil {p : String × List Char} {ps : List (String × List Char)} :
    toQuery (p :: ps) ≠ [] := by
  intro h
  have hread := searchParams_toQuery (p :: ps)
  rw [h] at hread
  exact nomatch hread

theorem tokenAt_encodeDocRef (ref : DocRef) {rest : List Char} (h : Ends rest) :
    tokenAt (encodeDocRef ref ++ rest) = some (encodeDocRef ref, rest) := by
  have hpre : docRefPrefix.toList.isPrefixOf (encodeDocRef ref ++ rest) = true :=
    List.isPrefixOf_iff_prefix.mpr ((List.prefix_append ..).trans (List.prefix_append ..))
  have hrun : ((encodeDocRef ref ++ rest).drop docRefPrefix.toList.length).takeWhile tokenChar =
      toQuery [("hubId", ref.hubId), ("itemId", ref.itemId), ("name", ref.name),
        ("kind", ref.kind)] := by
    rw [encodeDocRef, List.append_assoc, List.drop_left, takeWhile_query h]
  rw [tokenAt, schemes, List.findSome?_cons, hrun, if_pos ⟨hpre, toQuery_ne_nil⟩]
  show some (encodeDocRef ref, (encodeDocRef ref ++ rest).drop (encodeDocRef ref).length) = _
  rw [List.drop_left]

/-! ## The loop -/

theorem splitFrom_text {text : List Char} (hplain : Plain text)
    {items : List (DocRef × List Char)} (fuel : Nat) :
    ∀ (u run : List Char), u <:+ text →
      splitFrom (u.length + fuel) run (u ++ tokensOf items) =
        splitFrom fuel (run ++ u) (tokensOf items) := by
  intro u
  induction u with
  | nil => simp
  | cons c u ih =>
    intro run hsuffix
    have hnone : tokenAt (c :: u ++ tokensOf items) = none :=
      tokenAt_text hplain hsuffix (List.cons_ne_nil c u)
    rw [List.length_cons, Nat.add_right_comm, List.cons_append, splitFrom]
    rw [List.cons_append] at hnone
    simp only [hnone]
    rw [ih _ ((List.suffix_cons c u).trans hsuffix), List.append_assoc]
    rfl

theorem splitFrom_body {items : List (DocRef × List Char)} :
    ∀ {text : List Char} (run : List Char), Plain text → WellFormed items → ∀ fuel,
      (text ++ tokensOf items).length ≤ fuel →
      splitFrom fuel run (text ++ tokensOf items) =
        textRun (run ++ text) ++ items.flatMap fun p => .doc p.1 :: textRun p.2 := by
  induction items with
  | nil =>
    intro text run hplain _ fuel hfuel
    rw [List.length_append] at hfuel
    obtain ⟨fuel, rfl⟩ := Nat.exists_eq_add_of_le (Nat.le_of_add_right_le hfuel)
    rw [splitFrom_text hplain fuel text run List.suffix_rfl]
    cases fuel <;> exact (List.append_nil _).symm
  | cons item items ih =>
    obtain ⟨ref, after⟩ := item
    rintro text run hplain ⟨hfull, hafter, hends, hrest⟩ fuel hfuel
    rw [List.length_append] at hfuel
    obtain ⟨fuel, rfl⟩ := Nat.exists_eq_add_of_le (Nat.le_of_add_right_le hfuel)
    have hsplit : tokensOf ((ref, after) :: items) =
        encodeDocRef ref ++ (after ++ tokensOf items) := List.append_assoc ..
    rw [splitFrom_text hplain fuel text run List.suffix_rfl, hsplit]
    have htoken := tokenAt_encodeDocRef ref hends
    have hpart : parseToken (encodeDocRef ref) = some (.doc ref) := by
      rw [parseToken, parseDocRef_encodeDocRef hfull]
      rfl
    -- the step of the loop that reads the token
    have hlen : (encodeDocRef ref).length = ((encodeDocRef ref).length - 1) + 1 := rfl
    rw [hsplit, List.length_append] at hfuel
    obtain ⟨c, s, hcs⟩ : ∃ c s, encodeDocRef ref ++ (after ++ tokensOf items) = c :: s := ⟨_, _, rfl⟩
    cases fuel with
    | zero => omega
    | succ fuel =>
      rw [hcs] at htoken
      rw [hcs, splitFrom]
      simp only [htoken, hpart]
      rw [ih [] hafter hrest fuel (by omega), List.nil_append, List.flatMap_cons]
      rfl

/-- The parts of a body are what it was put together from. -/
theorem splitRefTokens_body {text : List Char} {items : List (DocRef × List Char)}
    (hplain : Plain text) (hitems : WellFormed items) :
    splitRefTokens (text ++ tokensOf items) = partsOf text items := by
  rw [splitRefTokens, splitFrom_body [] hplain hitems _ (Nat.le_refl _), List.nil_append, partsOf]
  cases hparts : textRun text ++ items.flatMap fun p => .doc p.1 :: textRun p.2 with
  | cons part parts => rfl
  | nil =>
    -- nothing but an empty body has no parts
    obtain ⟨htext, htokens⟩ := List.append_eq_nil_iff.mp hparts
    have hempty : text = [] := by
      by_contra hne
      exact absurd htext (by simp [textRun, hne])
    cases items with
    | nil => rw [hempty]; rfl
    | cons item items => exact nomatch htokens

end FusionLocalServer.RefTokens
