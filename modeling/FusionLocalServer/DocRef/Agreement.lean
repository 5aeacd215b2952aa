import FusionLocalServer.DocRef.Scan
import FusionLocalServer.DocRef.Splitting

/-!
# What the two readers make of a body

The web app goes on behind a token it has read, and the server behind the prefix. So the server
also sees a prefix that begins with the last letters of a token, `fls`, and ends in the text after
it, `:doc?`, and takes it for one more token. Else the two agree.
-/

namespace FusionLocalServer.RefTokens

open Lib Lib.FormUrl
open FusionLocalServer.DocRef (count sites refersAt tokenItemID isTokenByte)

/-! ## The bytes of a body -/

def letters : List UInt8 := "fls".toList.map byte

def mark : List UInt8 := ":doc?".toList.map byte

theorem docRefPrefix_eq : DocRef.docRefPrefix = letters ++ mark := by decide

/-- The query of a token as bytes. -/
def queryBytes (ref : DocRef) : List UInt8 :=
  serialize [(encodeUtf8 "hubId".toList, encodeUtf8 ref.hubId),
    (encodeUtf8 "itemId".toList, encodeUtf8 ref.itemId),
    (encodeUtf8 "name".toList, encodeUtf8 ref.name), (encodeUtf8 "kind".toList, encodeUtf8 ref.kind)]

theorem encodeUtf8_encodeDocRef (ref : DocRef) :
    encodeUtf8 (encodeDocRef ref) = DocRef.docRefPrefix ++ queryBytes ref := by
  rw [encodeDocRef, encodeUtf8_append, encodeUtf8_toQuery]
  rfl

theorem isTokenByte_of_mem {ref : DocRef} {b : UInt8} (h : b ∈ queryBytes ref) :
    isTokenByte b = true :=
  DocRef.isTokenByte_eq b ▸ mem_serialize h

theorem tokenItemID_queryBytes (ref : DocRef) :
    tokenItemID (queryBytes ref) = encodeUtf8 ref.itemId := by
  rw [tokenItemID, queryBytes, parseStrict_serialize]
  rfl

example : tokenItemID (encodeUtf8 "projectId=p&itemId=urn%3Ai".toList) =
    encodeUtf8 "urn:i".toList := by
  decide +kernel

/-- Behind a token there is no byte of a token. -/
def EndsBytes (rest : List UInt8) : Prop := ∀ b, rest.head? = some b → isTokenByte b = false

theorem isTokenByte_ascii {c : Char} (hc : c.toNat < 128) :
    isTokenByte (UInt8.ofNat c.toNat) = tokenChar c := by
  have hall : ∀ n : Fin 128, isTokenByte (UInt8.ofNat n.val) = tokenChar (Char.ofNat n.val) := by
    decide +kernel
  have := hall ⟨c.toNat, hc⟩
  rwa [Char.ofNat_toNat] at this

theorem Ends.bytes {rest : List Char} (h : Ends rest) : EndsBytes (encodeUtf8 rest) := by
  intro b hb
  cases rest with
  | nil => exact nomatch hb
  | cons c rest =>
    rw [encodeUtf8_cons] at hb
    by_cases hascii : c.toNat < 128
    · rw [utf8EncodeChar_ascii hascii] at hb
      rw [← Option.some.inj hb, isTokenByte_ascii hascii]
      exact h c rfl
    · obtain ⟨b', bs, hbs⟩ := List.exists_cons_of_ne_nil (String.utf8EncodeChar_ne_nil (c := c))
      have hge := ge_of_mem_utf8EncodeChar (by omega) (hbs ▸ List.mem_cons_self : b' ∈ _)
      rw [hbs] at hb
      obtain rfl : b' = b := Option.some.inj hb
      have hhigh : ∀ b : UInt8, 128 ≤ b.toNat → isTokenByte b = false :=
        forall_byte (by decide +kernel)
      exact hhigh b' hge

/-! ## Behind a token -/

/-- A prefix that begins in the query of a token is made of its last three letters and of what
comes after. -/
theorem prefix_in_query {q rest : List UInt8} (hq : ∀ b ∈ q, isTokenByte b = true)
    (hrest : EndsBytes rest) (h : DocRef.docRefPrefix <+: q ++ rest) : q = letters ∧ mark <+: rest := by
  have hends : ∀ rest : List UInt8, EndsBytes rest → rest.takeWhile isTokenByte = [] := by
    intro rest hrest
    cases rest with
    | nil => rfl
    | cons b rest => rw [List.takeWhile_cons_of_neg (by simp [hrest b rfl])]
  obtain ⟨more, hmore⟩ := h
  rw [docRefPrefix_eq, List.append_assoc] at hmore
  -- the run of token bytes is the query on one side and the three letters on the other
  have hrun := congrArg (List.takeWhile isTokenByte) hmore
  rw [List.takeWhile_append_of_pos (by decide +kernel), List.takeWhile_append_of_pos hq, hends rest hrest,
    hends (mark ++ more), List.append_nil, List.append_nil] at hrun
  · exact ⟨hrun.symm, more, List.append_cancel_left (hrun ▸ hmore)⟩
  · intro b hb
    obtain rfl : byte ':' = b := Option.some.inj hb
    decide

/-- What `Count` reads as an item id behind a token: nothing, but where the token ends with the
three letters and the text goes on with the rest of a prefix. -/
def overlapBytes (q rest : List UInt8) : List UInt8 :=
  if letters <:+ q ∧ mark <+: rest then tokenItemID ((rest.drop 5).takeWhile isTokenByte) else []

theorem sites_query {itemID : List UInt8} (hid : itemID ≠ []) {rest : List UInt8}
    (hrest : EndsBytes rest) (q : List UInt8) (hq : ∀ b ∈ q, isTokenByte b = true) :
    sites itemID (q ++ rest) =
      (if overlapBytes q rest = itemID then 1 else 0) + sites itemID rest := by
  induction q with
  | nil =>
    have hnone : ¬ (letters <:+ ([] : List UInt8) ∧ mark <+: rest) := fun h =>
      absurd (List.suffix_nil.mp h.1) (by decide)
    rw [overlapBytes, if_neg hnone, if_neg (Ne.symm hid), List.nil_append, Nat.zero_add]
  | cons b q ih =>
    rw [List.cons_append, sites, ih fun b hb => hq b (List.mem_cons_of_mem _ hb), ← Nat.add_assoc]
    congr 1
    by_cases hat : b :: q = letters ∧ mark <+: rest
    · -- the whole of what is left is the three letters
      obtain ⟨hletters, hmark⟩ := hat
      have hshort : ¬ (letters <:+ q ∧ mark <+: rest) := fun h => by
        have := h.1.length_le
        rw [← hletters] at this
        exact absurd this (Nat.not_succ_le_self _)
      have hrefers : refersAt itemID (b :: (q ++ rest)) =
          decide (tokenItemID ((rest.drop 5).takeWhile isTokenByte) = itemID) := by
        obtain ⟨more, rfl⟩ := hmark
        rw [← List.cons_append, hletters, refersAt, docRefPrefix_eq, ← List.append_assoc]
        rw [List.isPrefixOf_iff_prefix.mpr (List.prefix_append ..), Bool.true_and, List.drop_left]
        rfl
      have hone : overlapBytes (b :: q) rest = tokenItemID ((rest.drop 5).takeWhile isTokenByte) :=
        if_pos ⟨hletters ▸ List.suffix_rfl, hmark⟩
      have hnone : overlapBytes q rest = [] := if_neg hshort
      rw [hrefers, hone, hnone, if_neg (Ne.symm hid), Nat.add_zero]
      by_cases heq : tokenItemID ((rest.drop 5).takeWhile isTokenByte) = itemID <;> simp [heq]
    · have hnone : refersAt itemID (b :: (q ++ rest)) = false :=
        DocRef.refersAt_of_not_prefix fun h => hat (prefix_in_query hq hrest h)
      have hsame : overlapBytes (b :: q) rest = overlapBytes q rest := by
        rw [overlapBytes, overlapBytes]
        refine if_congr ⟨?_, ?_⟩ rfl rfl
        · rintro ⟨hl, hm⟩
          rcases List.suffix_cons_iff.mp hl with heq | hl
          · exact absurd ⟨heq.symm, hm⟩ hat
          · exact ⟨hl, hm⟩
        · rintro ⟨hl, hm⟩
          exact ⟨hl.trans (List.suffix_cons b q), hm⟩
      rw [hnone, hsame]
      exact Nat.zero_add _

/-- A token counts for its own item id, and the overlap behind it for the id that it reads as. -/
theorem sites_token {itemID : List UInt8} (hid : itemID ≠ []) (ref : DocRef) {rest : List UInt8}
    (hrest : EndsBytes rest) :
    sites itemID (DocRef.docRefPrefix ++ queryBytes ref ++ rest) =
      (if encodeUtf8 ref.itemId = itemID then 1 else 0) +
        ((if overlapBytes (queryBytes ref) rest = itemID then 1 else 0) + sites itemID rest) := by
  have hpre : DocRef.docRefPrefix <+: DocRef.docRefPrefix ++ (queryBytes ref ++ rest) :=
    List.prefix_append ..
  have hrun : (queryBytes ref ++ rest).takeWhile isTokenByte = queryBytes ref := by
    rw [List.takeWhile_append_of_pos fun b hb => isTokenByte_of_mem hb]
    cases rest with
    | nil => exact List.append_nil _
    | cons b rest => rw [List.takeWhile_cons_of_neg (by simp [hrest b rfl]), List.append_nil]
  rw [List.append_assoc, DocRef.sites_of_prefix hpre, List.drop_left,
    sites_query hid hrest _ fun b hb => isTokenByte_of_mem hb, refersAt,
    List.isPrefixOf_iff_prefix.mpr hpre, Bool.true_and, List.drop_left, hrun,
    tokenItemID_queryBytes]
  congr 1
  by_cases heq : encodeUtf8 ref.itemId = itemID <;> simp [heq]

/-- A text has no reference of its own. -/
theorem sites_text {itemID t follow : List UInt8} (ht : ¬ DocRef.docRefPrefix <:+: t)
    (hfollow : ∀ b, follow.head? = some b → b = byte 'f') :
    sites itemID (t ++ follow) = sites itemID follow := by
  rw [DocRef.sites_drop t.length, List.drop_left]
  intro k hk hpre
  rw [List.drop_append_of_le_length (Nat.le_of_lt hk)] at hpre
  have hne : t.drop k ≠ [] := fun hnil => by
    rw [List.drop_eq_nil_iff] at hnil
    omega
  have := prefix_of_first (a := byte 'f') (by decide) (by decide) hpre hne hfollow
  exact ht (this.isInfix.trans (List.drop_suffix k t).isInfix)

/-! ## Ends in characters and in bytes -/

theorem ascii_letters : ∀ c ∈ "fls".toList, c.toNat < 128 := forall_of_all (by decide +kernel)

theorem ascii_mark : ∀ c ∈ ":doc?".toList, c.toNat < 128 := forall_of_all (by decide +kernel)

theorem encodeUtf8_ascii {cs : List Char} (h : ∀ c ∈ cs, c.toNat < 128) :
    encodeUtf8 cs = cs.map byte := by
  induction cs with
  | nil => rfl
  | cons c cs ih =>
    rw [encodeUtf8_cons, utf8EncodeChar_ascii (h c List.mem_cons_self),
      ih fun c' hc' => h c' (List.mem_cons_of_mem _ hc')]
    rfl

theorem mark_prefix_iff {rest : List Char} :
    mark <+: encodeUtf8 rest ↔ ":doc?".toList <+: rest := by
  have hmark : encodeUtf8 ":doc?".toList = mark := encodeUtf8_ascii ascii_mark
  constructor
  · intro h
    exact prefix_of_encodeUtf8 ascii_mark (hmark ▸ h)
  · rintro ⟨more, rfl⟩
    rw [encodeUtf8_append, hmark]
    exact List.prefix_append ..

example : overlapBytes (encodeUtf8 "itemId=fls".toList) (encodeUtf8 ":doc?itemId=i, done".toList) =
    encodeUtf8 "i".toList := by
  decide +kernel

/-- A letter at the end of an escaped byte string is one that was at the end of it. -/
theorem escape_ends {x : UInt8} (hx : between 'g' 'z' x = true ∨ x = byte 'f')
    {bs l : List UInt8} (h : escape bs = l ++ [x]) : ∃ bs', bs = bs' ++ [x] ∧ escape bs' = l := by
  have hall : ∀ b, (escapeByte b).getLast?.all (fun x => decide
      ((between 'g' 'z' x = true ∨ x = byte 'f') → escapeByte b = [x] ∧ b = x)) = true :=
    forall_byte (by decide +kernel)
  rcases List.eq_nil_or_concat bs with rfl | ⟨bs, b, rfl⟩
  · exact absurd h (by simp [escape])
  rw [List.concat_eq_append] at h ⊢
  have hsplit : escape (bs ++ [b]) = escape bs ++ escapeByte b := by simp [escape]
  rw [hsplit] at h
  have hlast : (escapeByte b).getLast? = some x := by
    have hne : escapeByte b ≠ [] := by
      unfold escapeByte
      split
      · simp
      · split <;> simp
    have := congrArg List.getLast? h
    rwa [List.getLast?_append_of_ne_nil _ hne, List.getLast?_concat] at this
  obtain ⟨hone, rfl⟩ :=
    of_decide_eq_true ((Option.all_eq_true _ _).mp (hall b) x hlast) hx
  rw [hone] at h
  exact ⟨bs, rfl, (List.append_inj' h rfl).1⟩

/-- A token ends with the three letters when its kind does. -/
theorem letters_suffix_iff (ref : DocRef) : letters <:+ queryBytes ref ↔ "fls".toList <:+ ref.kind := by
  have hletters : encodeUtf8 "fls".toList = letters := encodeUtf8_ascii ascii_letters
  obtain ⟨l, hl⟩ : ∃ l, queryBytes ref = l ++ byte '=' :: escape (encodeUtf8 ref.kind) := by
    refine ⟨writePair (encodeUtf8 "hubId".toList, encodeUtf8 ref.hubId) ++ [byte '&'] ++
      (writePair (encodeUtf8 "itemId".toList, encodeUtf8 ref.itemId) ++ [byte '&'] ++
        (writePair (encodeUtf8 "name".toList, encodeUtf8 ref.name) ++ [byte '&'] ++
          escape (encodeUtf8 "kind".toList))), ?_⟩
    rw [queryBytes, serialize, List.map_cons, List.map_cons, List.map_cons, List.map_cons,
      List.map_nil, List.intercalate_cons_cons, List.intercalate_cons_cons,
      List.intercalate_cons_cons, List.intercalate_singleton]
    conv => lhs; rw [writePair.eq_1 (encodeUtf8 "kind".toList, encodeUtf8 ref.kind)]
    simp only [List.append_assoc]
  rw [hl]
  constructor
  · intro h
    -- the letters do not reach back to the name of the pair
    have hkind : letters <:+ escape (encodeUtf8 ref.kind) := by
      have hvalue : escape (encodeUtf8 ref.kind) <:+
          l ++ byte '=' :: escape (encodeUtf8 ref.kind) :=
        (List.suffix_cons ..).trans (List.suffix_append ..)
      rcases Nat.le_total letters.length (escape (encodeUtf8 ref.kind)).length with hle | hle
      · exact List.suffix_of_suffix_length_le h hvalue hle
      · rcases Nat.lt_or_eq_of_le hle with hlt | heq
        · have := List.suffix_of_suffix_length_le
            (List.suffix_append l (byte '=' :: escape (encodeUtf8 ref.kind))) h hlt
          exact absurd (this.subset List.mem_cons_self) (by decide)
        · exact List.suffix_of_suffix_length_le h hvalue (Nat.le_of_eq heq.symm)
    obtain ⟨e, he⟩ := hkind
    have hsplit : escape (encodeUtf8 ref.kind) =
        e ++ [byte 'f'] ++ [byte 'l'] ++ [byte 's'] := by
      rw [← he, List.append_assoc, List.append_assoc]
      rfl
    obtain ⟨bs₁, h₁, hs⟩ := escape_ends (by decide) hsplit
    obtain ⟨bs₂, h₂, hl⟩ := escape_ends (by decide) hs
    obtain ⟨bs₃, h₃, -⟩ := escape_ends (by decide) hl
    refine suffix_of_encodeUtf8 ascii_letters ⟨bs₃, ?_⟩
    rw [hletters, h₁, h₂, h₃, List.append_assoc, List.append_assoc]
    rfl
  · rintro ⟨kind, hkind⟩
    have hself : escape letters = letters := by decide
    have hsplit : escape (encodeUtf8 ref.kind) = escape (encodeUtf8 kind) ++ letters := by
      rw [← hkind, encodeUtf8_append, hletters, escape, List.flatMap_append]
      exact congrArg _ hself
    rw [hsplit]
    exact ⟨l ++ byte '=' :: escape (encodeUtf8 kind), by simp⟩

/-! ## Main result -/

/-- The item id that `Count` reads behind a token, in the text `rest` after it: there is one where
the kind of the document ends with `fls`, the text goes on with `:doc?`, and what comes then can be
read as a query with an `itemId`. -/
def overlap (ref : DocRef) (rest : List Char) : List UInt8 :=
  if "fls".toList <:+ ref.kind ∧ ":doc?".toList <+: rest then
    tokenItemID (((encodeUtf8 rest).drop 5).takeWhile isTokenByte)
  else []

/-- Behind no token of a body there is one. -/
def NoOverlap : List (DocRef × List Char) → Prop
  | [] => True
  | (ref, text) :: items => overlap ref (text ++ tokensOf items) = [] ∧ NoOverlap items

theorem overlapBytes_eq (ref : DocRef) (rest : List Char) :
    overlapBytes (queryBytes ref) (encodeUtf8 rest) = overlap ref rest := by
  rw [overlapBytes, overlap]
  exact if_congr (and_congr (letters_suffix_iff ref) mark_prefix_iff) rfl rfl

/-- How often `Count` reads an item id behind a token. -/
def overlaps (itemID : List UInt8) : List (DocRef × List Char) → Nat
  | [] => 0
  | (ref, text) :: items =>
    (if overlap ref (text ++ tokensOf items) = itemID then 1 else 0) + overlaps itemID items

theorem not_infix_of_plain {text : List Char} (h : Plain text) :
    ¬ DocRef.docRefPrefix <:+: encodeUtf8 text := fun hin =>
  h docRefPrefix (by decide +kernel)
    (infix_of_encodeUtf8 (by decide +kernel) (forall_of_all (by decide +kernel)) hin)

theorem head_encodeUtf8_tokensOf {items : List (DocRef × List Char)} {b : UInt8}
    (h : (encodeUtf8 (tokensOf items)).head? = some b) : b = byte 'f' := by
  cases items with
  | nil => exact nomatch h
  | cons item items => exact (Option.some.inj h).symm

theorem sites_tokensOf {itemID : List UInt8} (hid : itemID ≠ []) :
    ∀ {items : List (DocRef × List Char)}, WellFormed items →
      sites itemID (encodeUtf8 (tokensOf items)) =
        items.countP (fun p => encodeUtf8 p.1.itemId = itemID) + overlaps itemID items
  | [], _ => rfl
  | (ref, text) :: items, ⟨_, hplain, hends, hitems⟩ => by
    have hsplit : encodeUtf8 (tokensOf ((ref, text) :: items)) =
        DocRef.docRefPrefix ++ queryBytes ref ++ encodeUtf8 (text ++ tokensOf items) := by
      rw [← encodeUtf8_encodeDocRef, ← encodeUtf8_append, ← List.append_assoc]
      rfl
    have htext : sites itemID (encodeUtf8 (text ++ tokensOf items)) =
        sites itemID (encodeUtf8 (tokensOf items)) := by
      rw [encodeUtf8_append]
      exact sites_text (not_infix_of_plain hplain) fun _ => head_encodeUtf8_tokensOf
    rw [hsplit, sites_token hid ref hends.bytes, htext, sites_tokensOf hid hitems, overlapBytes_eq,
      List.countP_cons, overlaps]
    simp only [decide_eq_true_eq]
    omega

/-- What `Count` finds in a body. -/
theorem count_body {text : List Char} {items : List (DocRef × List Char)} (hplain : Plain text)
    (hitems : WellFormed items) {itemID : List UInt8} (hid : itemID ≠ []) :
    count (encodeUtf8 (text ++ tokensOf items)) itemID =
      items.countP (fun p => encodeUtf8 p.1.itemId = itemID) + overlaps itemID items := by
  rw [DocRef.count_eq hid, encodeUtf8_append,
    sites_text (not_infix_of_plain hplain) fun _ => head_encodeUtf8_tokensOf,
    sites_tokensOf hid hitems]

theorem overlaps_eq_zero_iff (items : List (DocRef × List Char)) :
    (∀ itemID, itemID ≠ [] → overlaps itemID items = 0) ↔ NoOverlap items := by
  induction items with
  | nil => exact ⟨fun _ => trivial, fun _ _ _ => rfl⟩
  | cons item items ih =>
    obtain ⟨ref, text⟩ := item
    rw [NoOverlap, ← ih]
    simp only [overlaps, Nat.add_eq_zero_iff]
    constructor
    · intro h
      refine ⟨by_contra fun hne => ?_, fun itemID hid => (h itemID hid).2⟩
      exact absurd (h _ hne).1 (by simp)
    · rintro ⟨hhead, htail⟩ itemID hid
      rw [hhead]
      exact ⟨if_neg (Ne.symm hid), htail itemID hid⟩

theorem WellFormed.full : ∀ {items : List (DocRef × List Char)}, WellFormed items →
    ∀ p ∈ items, p.1.Full
  | [], _, _, hp => nomatch hp
  | (_, _) :: _, ⟨hfull, _, _, hitems⟩, p, hp => by
    rcases List.mem_cons.mp hp with rfl | hp
    · exact hfull
    · exact WellFormed.full hitems p hp

/-- **The two readers agree with the writer** on a body, each part and each reference being what it
was put together from, exactly if `Count` reads no item id behind any of the tokens. -/
theorem readers_agree_iff {text : List Char} {items : List (DocRef × List Char)}
    (hplain : Plain text) (hitems : WellFormed items) :
    (splitRefTokens (text ++ tokensOf items) = partsOf text items ∧
      ∀ itemID, count (encodeUtf8 (text ++ tokensOf items)) itemID =
        items.countP fun p => encodeUtf8 p.1.itemId = itemID) ↔
    NoOverlap items := by
  rw [← overlaps_eq_zero_iff]
  constructor
  · rintro ⟨-, hcount⟩ itemID hid
    have := hcount itemID
    rw [count_body hplain hitems hid] at this
    omega
  · intro hnone
    refine ⟨splitRefTokens_body hplain hitems, fun itemID => ?_⟩
    by_cases hid : itemID = []
    · -- no token has an empty item id
      have hzero : items.countP (fun p => encodeUtf8 p.1.itemId = itemID) = 0 := by
        refine List.countP_eq_zero.mpr fun p hp hitem => (hitems.full p hp).itemId ?_
        have hbytes : encodeUtf8 p.1.itemId = [] := (of_decide_eq_true hitem).trans hid
        rw [← decodeUtf8_encodeUtf8 p.1.itemId, hbytes]
        rfl
      rw [hzero, count, if_pos hid]
    · rw [count_body hplain hitems hid, hnone itemID hid, Nat.add_zero]

/-- A document of a kind that ends in the three letters. -/
def odd : DocRef where
  hubId := "b.1".toList
  itemId := "urn:a".toList
  name := "Bracket".toList
  kind := "fls".toList

theorem wellFormed_odd {c : Char} {text : List Char} (hplain : Plain (c :: text))
    (hc : tokenChar c = false) : WellFormed [(odd, c :: text)] := by
  refine ⟨⟨by decide, by decide, by decide, by decide⟩, hplain, fun b hb => ?_, trivial⟩
  exact Option.some.inj hb ▸ hc

/-- The token is followed by the rest of a prefix and a query, and the server counts it. -/
theorem overlap_counted :
    let text := ":doc?itemId=X".toList
    Plain text ∧ WellFormed [(odd, text)] ∧
      count (encodeUtf8 (tokensOf [(odd, text)])) ("X".toList.map byte) = 1 ∧
      ∀ p ∈ [(odd, text)], encodeUtf8 p.1.itemId ≠ "X".toList.map byte := by
  have hplain : Plain (':' :: "doc?itemId=X".toList) := by unfold Plain; decide +kernel
  have hitems := wellFormed_odd hplain (by decide +kernel)
  exact ⟨hplain, hitems, by decide +kernel, by decide +kernel⟩

/-- With a comma between, all is well. -/
theorem readers_agree_comma :
    let items := [(odd, ", :doc?itemId=X".toList)]
    splitRefTokens ("See ".toList ++ tokensOf items) =
        [.text "See ".toList, .doc odd, .text ", :doc?itemId=X".toList] ∧
      ∀ itemID, count (encodeUtf8 ("See ".toList ++ tokensOf items)) itemID =
        items.countP fun p => encodeUtf8 p.1.itemId = itemID := by
  have hplain : Plain (',' :: " :doc?itemId=X".toList) := by unfold Plain; decide +kernel
  have htext : Plain "See ".toList := by unfold Plain; decide +kernel
  have hitems := wellFormed_odd hplain (by decide +kernel)
  have hnone : NoOverlap [(odd, ',' :: " :doc?itemId=X".toList)] := ⟨by decide +kernel, trivial⟩
  have hparts : partsOf "See ".toList [(odd, ',' :: " :doc?itemId=X".toList)] =
      [.text "See ".toList, .doc odd, .text ", :doc?itemId=X".toList] := by decide +kernel
  have hagree := (readers_agree_iff htext hitems).mpr hnone
  rw [hparts] at hagree
  exact hagree

end FusionLocalServer.RefTokens
