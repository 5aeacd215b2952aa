import FusionLocalServer.Lib.Json.Literals
import FusionLocalServer.Lib.Table

/-!
# What was written compactly reads back

`compact` makes of a text the text of the same value, without white space and with the
characters escaped that HTML and JavaScript take for their own (`escape`). Done twice it is
done once, and a map of texts that was written is read back as the map of the compact texts
(`readRawMap_written`).
-/

namespace Lib.Json

open Std

/-! ## Escaping inside strings -/

/-- The characters that are escaped. -/
def isMarkup (c : Char) : Bool :=
  c = '<' || c = '>' || c = '&' || c = '\u2028' || c = '\u2029'

theorem isMarkup_cases {c : Char} (h : isMarkup c = true) :
    c = '<' ∨ c = '>' ∨ c = '&' ∨ c = '\u2028' ∨ c = '\u2029' := by
  unfold isMarkup at h
  simpa only [Bool.or_eq_true, decide_eq_true_eq, or_assoc] using h

theorem escapeRaw_of_not {c : Char} (h : isMarkup c = false) : escapeRaw c = [c] := by
  refine if_neg fun hc => ?_
  rcases hc with rfl | rfl | rfl | rfl | rfl <;> exact absurd h (by decide)

theorem flatMap_escapeRaw {cs : List Char} (h : ∀ c ∈ cs, isMarkup c = false) :
    cs.flatMap escapeRaw = cs := by
  induction cs with
  | nil => rfl
  | cons c cs ih =>
    rw [List.flatMap_cons, escapeRaw_of_not (h c List.mem_cons_self),
      ih fun c hc => h c (List.mem_cons_of_mem _ hc)]
    rfl

/-- What is written for a character has none that is escaped. -/
theorem isMarkup_escapeRaw {c x : Char} (h : x ∈ escapeRaw c) : isMarkup x = false := by
  cases hc : isMarkup c with
  | false =>
    rw [escapeRaw_of_not hc] at h
    cases List.mem_singleton.mp h
    exact hc
  | true =>
    have hall : ((escapeRaw c).all fun x => !isMarkup x) = true := by
      rcases isMarkup_cases hc with rfl | rfl | rfl | rfl | rfl <;> decide
    exact Bool.not_eq_true' _ ▸ List.all_eq_true.mp hall x h

theorem isMarkup_of_isNumChar {c : Char} (h : isNumChar c = true) : isMarkup c = false := by
  cases hc : isMarkup c with
  | false => rfl
  | true =>
    rcases isMarkup_cases hc with rfl | rfl | rfl | rfl | rfl <;> exact absurd h (by decide)

theorem isMarkup_of_isHex {c : Char} (h : isHex c = true) : isMarkup c = false := by
  cases hc : isMarkup c with
  | false => rfl
  | true =>
    rcases isMarkup_cases hc with rfl | rfl | rfl | rfl | rfl <;> exact absurd h (by decide)

/-- A literal stays one. -/
theorem Lit.escaped {lit : List Char} (h : Lit lit) : Lit (lit.flatMap escapeRaw) := by
  induction h with
  | nil => exact .nil
  | unit ha hb hc hd _ ih =>
    simp only [List.flatMap_cons, escapeRaw_of_not (isMarkup_of_isHex ha),
      escapeRaw_of_not (isMarkup_of_isHex hb), escapeRaw_of_not (isMarkup_of_isHex hc),
      escapeRaw_of_not (isMarkup_of_isHex hd)]
    exact .unit ha hb hc hd ih
  | @escape e rest he _ ih =>
    have hplain : escapeRaw e = [e] := by
      rcases isEscape_cases he with rfl | rfl | rfl | rfl | rfl | rfl | rfl | rfl <;> rfl
    simp only [List.flatMap_cons, hplain]
    exact .escape he ih
  | @plain c rest hq hb hp _ ih =>
    rw [List.flatMap_cons]
    cases hc : isMarkup c with
    | false =>
      rw [escapeRaw_of_not hc]
      exact .plain hq hb hp ih
    | true =>
      rcases isMarkup_cases hc with rfl | rfl | rfl | rfl | rfl
      all_goals exact .unit (by decide) (by decide) (by decide) (by decide) ih

theorem StrLit.escaped {lit : List Char} (h : StrLit lit) : StrLit (lit.flatMap escapeRaw) :=
  h.lit.escaped.strLit

/-! ## Escaping in a value -/

mutual

/-- A value with the strings in it escaped. -/
def escape : Json → Json
  | .str lit => .str (lit.flatMap escapeRaw)
  | .arr items => .arr (escapeItems items)
  | .obj members => .obj (escapeMembers members)
  | v => v

def escapeItems : List Json → List Json
  | [] => []
  | v :: rest => escape v :: escapeItems rest

def escapeMembers : List (List Char × Json) → List (List Char × Json)
  | [] => []
  | (key, v) :: rest => (key.flatMap escapeRaw, escape v) :: escapeMembers rest

end

mutual

theorem written_escape (v : Json) (hw : Written v) : Written (escape v) := by
  match v with
  | .null | .bool _ | .num _ => exact hw
  | .str lit => exact StrLit.escaped hw
  | .arr items => exact written_escapeItems items hw
  | .obj members => exact written_escapeMembers members hw

theorem written_escapeItems (items : List Json) (hw : WrittenItems items) :
    WrittenItems (escapeItems items) := by
  match items with
  | [] => trivial
  | v :: rest =>
    have hw' : Written v ∧ WrittenItems rest := hw
    exact ⟨written_escape v hw'.1, written_escapeItems rest hw'.2⟩

theorem written_escapeMembers (members : List (List Char × Json)) (hw : WrittenMembers members) :
    WrittenMembers (escapeMembers members) := by
  match members with
  | [] => trivial
  | (key, v) :: rest =>
    have hw' : StrLit key ∧ Written v ∧ WrittenMembers rest := hw
    exact ⟨hw'.1.escaped, written_escape v hw'.2.1, written_escapeMembers rest hw'.2.2⟩

end

mutual

theorem depth_escape (v : Json) : (escape v).depth = v.depth := by
  match v with
  | .null | .bool _ | .num _ | .str _ => rfl
  | .arr items => exact congrArg (· + 1) (depth_escapeItems items)
  | .obj members => exact congrArg (· + 1) (depth_escapeMembers members)

theorem depth_escapeItems (items : List Json) :
    depthItems (escapeItems items) = depthItems items := by
  match items with
  | [] => rfl
  | v :: rest => rw [escapeItems, depthItems, depthItems, depth_escape v, depth_escapeItems rest]

theorem depth_escapeMembers (members : List (List Char × Json)) :
    depthMembers (escapeMembers members) = depthMembers members := by
  match members with
  | [] => rfl
  | (key, v) :: rest =>
    rw [escapeMembers, depthMembers, depthMembers, depth_escape v, depth_escapeMembers rest]

end

mutual

theorem render_escape (v : Json) (hw : Written v) :
    (render v).flatMap escapeRaw = render (escape v) := by
  match v with
  | .null | .bool true | .bool false | .arr [] | .obj [] => rfl
  | .num lit =>
    exact flatMap_escapeRaw fun c hc => isMarkup_of_isNumChar (NumLit.chars hw c hc)
  | .str lit =>
    show ('"' :: lit ++ ['"']).flatMap escapeRaw = _
    rw [List.flatMap_append, List.flatMap_cons]
    rfl
  | .arr (v :: items) =>
    have hw' : Written v ∧ WrittenItems items := hw
    rw [render, List.cons_append, List.flatMap_cons, List.flatMap_append, render_escape v hw'.1,
      render_escapeItems items hw'.2]
    rfl
  | .obj ((key, v) :: members) =>
    have hw' : StrLit key ∧ Written v ∧ WrittenMembers members := hw
    rw [render]
    simp only [List.flatMap_append, List.flatMap_cons, render_escape v hw'.2.1,
      render_escapeMembers members hw'.2.2]
    rfl

theorem render_escapeItems (items : List Json) (hw : WrittenItems items) :
    (renderItems items).flatMap escapeRaw = renderItems (escapeItems items) := by
  match items with
  | [] => rfl
  | v :: rest =>
    have hw' : Written v ∧ WrittenItems rest := hw
    rw [renderItems, List.cons_append, List.flatMap_cons, List.flatMap_append,
      render_escape v hw'.1, render_escapeItems rest hw'.2]
    rfl

theorem render_escapeMembers (members : List (List Char × Json)) (hw : WrittenMembers members) :
    (renderMembers members).flatMap escapeRaw = renderMembers (escapeMembers members) := by
  match members with
  | [] => rfl
  | (key, v) :: rest =>
    have hw' : StrLit key ∧ Written v ∧ WrittenMembers rest := hw
    rw [renderMembers]
    simp only [List.flatMap_append, List.flatMap_cons, render_escape v hw'.2.1,
      render_escapeMembers rest hw'.2.2]
    rfl

end

/-! ## Compact texts -/

/-- **A compact text** is the text of a value, and is left alone when it is written again. -/
theorem compact_spec {raw text : List Char} (h : compact raw = some text) :
    ∃ v, Written v ∧ v.depth ≤ maxNestingDepth ∧ text = render v ∧ compact text = some text := by
  unfold compact at h
  obtain ⟨v, hparse, rfl⟩ := Option.map_eq_some_iff.mp h
  obtain ⟨hw, hdepth⟩ := parse_written hparse
  have hdepth' : (escape v).depth ≤ maxNestingDepth := by rwa [depth_escape]
  have htext := render_escape v hw
  refine ⟨escape v, written_escape v hw, hdepth', htext, ?_⟩
  rw [htext, compact, parse_render (written_escape v hw) hdepth', Option.map_some, ← htext]
  refine congrArg some (flatMap_escapeRaw fun c hc => ?_)
  obtain ⟨x, -, hx⟩ := List.mem_flatMap.mp hc
  exact isMarkup_escapeRaw hx

/-- The members that were written. -/
theorem writeMembers_render {l : List (String × RawMessage)} {text : List Char} (hne : l ≠ [])
    (h : writeMembers l = some text) :
    ∃ members, WrittenMembers members ∧ renderMembers members = ',' :: text ∧
      members.map (fun m => (m.1, some (render m.2))) =
        l.map fun m => (quote m.1, compact m.2) := by
  induction l generalizing text with
  | nil => exact absurd rfl hne
  | cons m l ih =>
    obtain ⟨key, raw⟩ := m
    cases l with
    | nil =>
      rw [writeMembers] at h
      obtain ⟨t, ht, rfl⟩ := Option.map_eq_some_iff.mp h
      obtain ⟨v, hw, -, rfl, -⟩ := compact_spec ht
      refine ⟨[(quote key, v)], ⟨strLit_quote key, hw, trivial⟩, ?_, ?_⟩
      · simp [renderMembers]
      · rw [List.map_singleton, List.map_singleton, ht]
    | cons m' l =>
      rw [writeMembers] at h
      · obtain ⟨t, ht, h⟩ := Option.bind_eq_some_iff.mp h
        obtain ⟨tail, htail, rfl⟩ := Option.map_eq_some_iff.mp h
        obtain ⟨v, hw, -, rfl, -⟩ := compact_spec ht
        obtain ⟨members, hmembers, hrender, hmap⟩ := ih (List.cons_ne_nil _ _) htail
        refine ⟨(quote key, v) :: members, ⟨strLit_quote key, hw, hmembers⟩, ?_, ?_⟩
        · simp [renderMembers, hrender]
        · rw [List.map_cons, List.map_cons, hmap, ht]
      · exact List.cons_ne_nil m' l

theorem writeRawMap_render {m : ExtTreeMap String RawMessage} {text : List Char}
    (h : writeRawMap m = some text) :
    ∃ members, WrittenMembers members ∧ render (.obj members) = text ∧
      members.map (fun m => (m.1, some (render m.2))) =
        m.toList.map fun m => (quote m.1, compact m.2) := by
  unfold writeRawMap at h
  obtain ⟨tail, htail, rfl⟩ := Option.map_eq_some_iff.mp h
  by_cases hnil : m.toList = []
  · rw [hnil] at htail ⊢
    cases htail
    exact ⟨[], trivial, rfl, rfl⟩
  · obtain ⟨members, hw, hrender, hmap⟩ := writeMembers_render hnil htail
    refine ⟨members, hw, ?_, hmap⟩
    cases members with
    | nil => exact absurd (List.map_eq_nil_iff.mp hmap.symm) hnil
    | cons m members =>
      obtain ⟨key, v⟩ := m
      rw [renderMembers] at hrender
      simp only [List.cons_append, List.cons.injEq, true_and] at hrender
      exact congrArg ('{' :: ·) hrender

/-- The entries of a list written into a map one after the other. -/
theorem get_foldl_insert {β : Type} (l : List (String × β)) :
    ∀ (m : ExtTreeMap String β), l.Pairwise (fun a b => a.1 ≠ b.1) → ∀ key,
      (l.foldl (fun m e => m.insert e.1 e.2) m)[key]? =
        ((l.find? fun e => e.1 = key).map (·.2)).or m[key]? := by
  induction l with
  | nil => exact fun m _ key => rfl
  | cons e l ih =>
    intro m hl key
    obtain ⟨hfirst, hrest⟩ := List.pairwise_cons.mp hl
    rw [List.foldl_cons, ih _ hrest, List.find?_cons, Table.get_insert]
    by_cases hkey : e.1 = key
    · have hnone : l.find? (fun e => e.1 = key) = none := by
        refine List.find?_eq_none.mpr fun e' he' => ?_
        have := hfirst e' he'
        simp only [decide_eq_true_eq]
        exact fun h => this (hkey.trans h.symm)
      rw [hnone, decide_eq_true hkey, if_pos hkey]
      rfl
    · rw [decide_eq_false hkey, if_neg hkey]

theorem find?_toList {β : Type} (m : ExtTreeMap String β) (key : String) :
    (m.toList.find? fun e => e.1 = key).map (·.2) = m[key]? := by
  cases hfind : m.toList.find? fun e => e.1 = key with
  | none =>
    cases hget : m[key]? with
    | none => rfl
    | some v =>
      have hmem := ExtTreeMap.mem_toList_iff_getElem?_eq_some.mpr hget
      have := List.find?_eq_none.mp hfind _ hmem
      simp at this
  | some e =>
    have hkey : e.1 = key := by simpa using List.find?_some hfind
    have hget := ExtTreeMap.mem_toList_iff_getElem?_eq_some.mp (List.mem_of_find?_eq_some hfind)
    rw [← hkey, hget]
    rfl

/-- Looking a key up in a list of compact texts. -/
theorem find?_compacted {key : String} (l : List (String × RawMessage)) :
    ∀ {es : List (String × RawMessage)},
      es.map (fun e => (e.1, some e.2)) = l.map (fun e => (e.1, compact e.2)) →
      (es.find? fun e => e.1 = key).map (·.2) =
        ((l.find? fun e => e.1 = key).map (·.2)).bind compact := by
  induction l with
  | nil =>
    intro es h
    cases List.map_eq_nil_iff.mp h
    rfl
  | cons e l ih =>
    intro es h
    cases es with
    | nil => cases h
    | cons e' es =>
      obtain ⟨hhead, htail⟩ := List.cons.inj h
      obtain ⟨hkey, htext⟩ := Prod.mk.inj hhead
      rw [List.find?_cons, List.find?_cons, hkey]
      by_cases h : e.1 = key
      · rw [decide_eq_true h]
        exact htext
      · rw [decide_eq_false h]
        exact ih htail

/-- **A map of texts reads back** as the map of the compact texts. -/
theorem readRawMap_written {m : ExtTreeMap String RawMessage}
    {members : List (List Char × Json)} (hw : WrittenMembers members)
    (hmap : members.map (fun m => (m.1, some (render m.2))) =
      m.toList.map fun m => (quote m.1, compact m.2)) :
    ∃ m', readRawMap ∅ (render (.obj members)) = some m' ∧
      ∀ key : String, m'[key]? = (m[key]?).bind compact := by
  have hhead : (render (.obj members)).head? ≠ some 'n' := by
    cases members with
    | nil => simp [render]
    | cons m members => simp [render]
  let entries := members.map fun e => (unquote e.1, render e.2)
  have hread : readRawMap ∅ (render (.obj members)) =
      some (entries.foldl (fun m e => m.insert e.1 e.2) ∅) := by
    unfold readRawMap
    rw [if_neg hhead, cutObject_render hw, Option.map_some, List.foldl_map, List.foldl_map]
  have hentries : entries.map (fun e => (e.1, some e.2)) =
      m.toList.map fun e => (e.1, compact e.2) := by
    have h := congrArg (List.map fun e : List Char × Option RawMessage => (unquote e.1, e.2)) hmap
    simpa only [entries, List.map_map, Function.comp_def, unquote_quote] using h
  have hdistinct : entries.Pairwise fun a b => a.1 ≠ b.1 := by
    have hkeys : entries.map (·.1) = m.toList.map (·.1) := by
      have h := congrArg (List.map Prod.fst) hentries
      simpa only [List.map_map, Function.comp_def] using h
    have hold : (m.toList.map (·.1)).Pairwise (· ≠ ·) := by
      refine List.pairwise_map.mpr (m.distinct_keys_toList.imp fun h heq => h ?_)
      rw [heq]
      exact Std.compare_self
    exact List.pairwise_map.mp (hkeys ▸ hold)
  refine ⟨_, hread, fun key => ?_⟩
  rw [get_foldl_insert entries ∅ hdistinct, ExtTreeMap.getElem?_empty, Option.or_none,
    find?_compacted m.toList hentries, find?_toList]

/-! ## White space inside a value -/

/-- An opened object is closed at once, or has members. -/
theorem parseValue_open (fuel : Nat) (rest : List Char) : parseValue (fuel + 1) ('{' :: rest) =
    match skipWs rest with
    | '}' :: rest => some (.obj [], rest)
    | _ => (parseMembers fuel rest).map fun (members, rest) => (.obj members, rest) := by
  rw [parseValue, skipWs_cons (by decide)]
  rfl

/-- An object without members, with so much white space in it. -/
def spacious (n : Nat) : RawMessage := '{' :: (List.replicate n ' ' ++ ['}'])

theorem byteLen_spacious (n : Nat) : byteLen (spacious n) = n + 2 := by
  have hspace : ' '.utf8Size = 1 := rfl
  have hopen : '{'.utf8Size = 1 := rfl
  have hclose : '}'.utf8Size = 1 := rfl
  simp only [spacious, byteLen_cons, byteLen_append, byteLen_replicate, byteLen_nil, hspace,
    hopen, hclose]
  omega

theorem parseValue_spacious (n fuel : Nat) (rest : List Char) :
    parseValue (fuel + 1) (spacious n ++ rest) = some (.obj [], rest) := by
  have hskip : skipWs (List.replicate n ' ' ++ '}' :: rest) = '}' :: rest := by
    induction n with
    | zero => rfl
    | succ n ih => exact ih
  have htext : spacious n ++ rest = '{' :: (List.replicate n ' ' ++ '}' :: rest) := by
    simp [spacious]
  rw [htext, parseValue_open, hskip]
  rfl

/-- The white space goes. -/
theorem compact_spacious (n : Nat) : compact (spacious n) = some ['{', '}'] := by
  have hparse := parseValue_spacious n (2 * (spacious n).length + 1) []
  rw [List.append_nil] at hparse
  unfold compact parse
  rw [hparse]
  rfl

/-- A text with one member: the braces, the key, and the text of the value. -/
def oneMember (key : List Char) (raw : RawMessage) : List Char :=
  '{' :: '"' :: (key ++ '"' :: ':' :: (raw ++ ['}']))

section Member

variable {key : List Char} {raw : RawMessage} {v : Json}

theorem parseValue_oneMember (hkey : StrLit key) {fuel : Nat}
    (hraw : ∀ rest, parseValue fuel (raw ++ '}' :: rest) = some (v, '}' :: rest))
    (rest : List Char) :
    parseValue (fuel + 2) (oneMember key raw ++ rest) = some (.obj [(key, v)], rest) := by
  have htext : oneMember key raw ++ rest =
      '{' :: '"' :: (key ++ '"' :: ':' :: (raw ++ '}' :: rest)) := by simp [oneMember]
  have hmembers : parseMembers (fuel + 1) ('"' :: (key ++ '"' :: ':' :: (raw ++ '}' :: rest))) =
      some ([(key, v)], rest) := by
    rw [parseMembers, skipWs_cons (by decide)]
    show (lexString _).bind _ = _
    rw [hkey.scan]
    show (parseValue fuel _).bind _ = _
    rw [hraw]
    rfl
  rw [htext]
  show (parseMembers (fuel + 1) _).map _ = _
  rw [hmembers]
  rfl

/-- The text of the value is cut out as it is. -/
theorem cutObject_oneMember (hkey : StrLit key) {c : Char} {tail : List Char}
    (hhead : raw = c :: tail) (hws : isWs c = false)
    (hraw : ∀ fuel rest, 2 * raw.length < fuel →
      parseValue fuel (raw ++ '}' :: rest) = some (v, '}' :: rest)) :
    cutObject (oneMember key raw) = some [(key, raw)] := by
  have hskip : skipWs (raw ++ ['}']) = raw ++ ['}'] := by
    rw [hhead]
    exact skipWs_cons hws _
  obtain ⟨fuel, hfuel⟩ : ∃ fuel, 2 * (oneMember key raw).length + 2 = fuel + 1 := ⟨_, rfl⟩
  have hcut : cutValue fuel (raw ++ ['}']) = some (raw, ['}']) := by
    have hlen : (oneMember key raw).length = key.length + raw.length + 5 := by
      simp [oneMember]
      omega
    unfold cutValue
    rw [hraw fuel [] (by omega), Option.map_some]
    dsimp only
    rw [hskip, List.length_append, Nat.add_sub_cancel, List.take_left]
  unfold cutObject
  show cutMembers (2 * (oneMember key raw).length + 2) _ = _
  rw [hfuel, cutMembers, skipWs_cons (by decide)]
  show (lexString _).bind _ = _
  rw [hkey.scan]
  show (cutValue fuel _).bind _ = _
  rw [hcut]
  rfl

end Member

end Lib.Json
