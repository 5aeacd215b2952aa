import FusionLocalServer.Lib.Json.RoundTrip

/-!
# Indented texts

`renderIndent` writes a value over several lines, two blanks deeper for each value it is in
(`json.MarshalIndent` with the indent the callers use). The lines and blanks stand between
tokens, where the reader skips them, so the text reads back like the compact one.
-/

namespace Lib.Json

open Lib

/-- The end of a line and the indent of the next. -/
def newLine (k : Nat) : List Char := '\n' :: List.replicate (2 * k) ' '

mutual

/-- The text of a value that stands `k` values deep. -/
def renderIndent (k : Nat) : Json → List Char
  | .arr [] => ['[', ']']
  | .arr (v :: rest) => '[' :: (newLine (k + 1) ++ (renderIndent (k + 1) v ++ indentItems k rest))
  | .obj [] => ['{', '}']
  | .obj ((key, v) :: rest) =>
    '{' :: (newLine (k + 1) ++ '"' :: (key ++ '"' :: ':' :: ' ' ::
      (renderIndent (k + 1) v ++ indentMembers k rest)))
  | .null => render .null
  | .bool b => render (.bool b)
  | .num lit => render (.num lit)
  | .str lit => render (.str lit)

/-- The items after the first, through the closing bracket on a line of its own. -/
def indentItems (k : Nat) : List Json → List Char
  | [] => newLine k ++ [']']
  | v :: rest => ',' :: (newLine (k + 1) ++ (renderIndent (k + 1) v ++ indentItems k rest))

/-- The members after the first, through the closing brace on a line of its own. -/
def indentMembers (k : Nat) : List (List Char × Json) → List Char
  | [] => newLine k ++ ['}']
  | (key, v) :: rest =>
    ',' :: (newLine (k + 1) ++ '"' :: (key ++ '"' :: ':' :: ' ' ::
      (renderIndent (k + 1) v ++ indentMembers k rest)))

end

/-! ## Skipped blanks -/

theorem isWs_of_mem_newLine {k : Nat} : ∀ c ∈ newLine k, isWs c = true := by
  intro c hc
  rcases List.mem_cons.mp hc with rfl | hc
  · rfl
  · rw [(List.mem_replicate.mp hc).2]
    rfl

theorem skipWs_newLine (k : Nat) (cs : List Char) : skipWs (newLine k ++ cs) = skipWs cs :=
  List.dropWhile_append_of_pos isWs_of_mem_newLine

theorem skipWs_blank (cs : List Char) : skipWs (' ' :: cs) = skipWs cs := rfl

/-- Blanks before a value make no difference. -/
theorem parseValue_skipWs {cs cs' : List Char} (h : skipWs cs = skipWs cs') (fuel : Nat) :
    parseValue fuel cs = parseValue fuel cs' := by
  cases fuel with
  | zero => rfl
  | succ fuel => rw [parseValue, parseValue, h]

theorem parseMembers_skipWs {cs cs' : List Char} (h : skipWs cs = skipWs cs') (fuel : Nat) :
    parseMembers fuel cs = parseMembers fuel cs' := by
  cases fuel with
  | zero => rfl
  | succ fuel => rw [parseMembers, parseMembers, h]

theorem parseItems_skipWs {cs cs' : List Char} (h : skipWs cs = skipWs cs') (fuel : Nat) :
    parseItems fuel cs = parseItems fuel cs' := by
  cases fuel with
  | zero => rfl
  | succ fuel => rw [parseItems, parseItems, parseValue_skipWs h]

theorem newLine_follow (k : Nat) (cs : List Char) : Follow (newLine k ++ cs) :=
  .inr ⟨'\n', _, rfl, .inr (.inr (.inr rfl))⟩

theorem indentItems_follow (k : Nat) (items : List Json) (rest : List Char) :
    Follow (indentItems k items ++ rest) := by
  cases items with
  | nil =>
    rw [indentItems, List.append_assoc]
    exact newLine_follow k _
  | cons v items => exact .inr ⟨',', _, rfl, .inl rfl⟩

theorem indentMembers_follow (k : Nat) (members : List (List Char × Json)) (rest : List Char) :
    Follow (indentMembers k members ++ rest) := by
  cases members with
  | nil =>
    rw [indentMembers, List.append_assoc]
    exact newLine_follow k _
  | cons m members => exact .inr ⟨',', _, rfl, .inl rfl⟩

/-- An indented text begins like the compact one. -/
theorem indent_head {v : Json} (h : Written v) (k : Nat) :
    ∃ c tail, renderIndent k v = c :: tail ∧ isWs c = false ∧ c ≠ ']' := by
  have hhead := render_head h
  cases v with
  | arr items => cases items with
    | nil => exact ⟨'[', _, rfl, by decide⟩
    | cons v items => exact ⟨'[', _, rfl, by decide⟩
  | obj members => cases members with
    | nil => exact ⟨'{', _, rfl, by decide⟩
    | cons m members => exact ⟨'{', _, rfl, by decide⟩
  | null | bool b | num lit | str lit =>
    obtain ⟨c, tail, heq, hws, hc, -⟩ := hhead
    exact ⟨c, tail, heq, hws, hc⟩

/-- An opened, non-empty array is its items. -/
theorem parseValue_bracket_line {v : Json} (hw : Written v) (fuel k : Nat) (tail : List Char) :
    parseValue (fuel + 1) ('[' :: (newLine (k + 1) ++ (renderIndent (k + 1) v ++ tail))) =
      (parseItems fuel (renderIndent (k + 1) v ++ tail)).map fun p => (.arr p.1, p.2) := by
  obtain ⟨c, cs, hv, hws, hc⟩ := indent_head hw (k + 1)
  have hskip : skipWs (newLine (k + 1) ++ (renderIndent (k + 1) v ++ tail)) =
      renderIndent (k + 1) v ++ tail := by
    rw [skipWs_newLine, hv, List.cons_append, skipWs_cons hws]
  have hitems : parseItems fuel (newLine (k + 1) ++ (renderIndent (k + 1) v ++ tail)) =
      parseItems fuel (renderIndent (k + 1) v ++ tail) := parseItems_skipWs (skipWs_newLine _ _) _
  rw [parseValue, skipWs_cons (by decide)]
  simp only [hskip, hitems]
  simp only [hv, List.cons_append]
  split
  · next heq => exact absurd (List.cons.inj heq).1 hc
  · rfl

/-- An opened, non-empty object is its members. -/
theorem parseValue_brace_line (fuel k : Nat) (tail : List Char) :
    parseValue (fuel + 1) ('{' :: (newLine (k + 1) ++ '"' :: tail)) =
      (parseMembers fuel ('"' :: tail)).map fun p => (.obj p.1, p.2) := by
  have hskip : skipWs (newLine (k + 1) ++ '"' :: tail) = '"' :: tail := by
    rw [skipWs_newLine, skipWs_cons (by decide)]
  have hmembers : parseMembers fuel (newLine (k + 1) ++ '"' :: tail) =
      parseMembers fuel ('"' :: tail) := parseMembers_skipWs (skipWs_newLine _ _) _
  rw [parseValue, skipWs_cons (by decide)]
  simp only [hskip, hmembers]
  rfl

/-! ## Reading back -/

mutual

theorem parseValue_renderIndent (v : Json) (k fuel : Nat) (rest : List Char) (hw : Written v)
    (hfuel : cost v ≤ fuel) (hrest : Follow rest) :
    parseValue fuel (renderIndent k v ++ rest) = some (v, rest) := by
  match v, fuel with
  | .null, fuel | .bool _, fuel | .num _, fuel | .str _, fuel =>
    exact parseValue_render _ fuel rest hw hfuel hrest
  | .arr [], fuel + 1 => rfl
  | .obj [], fuel + 1 => rfl
  | .arr (v :: items), fuel + 1 =>
    have hw' : Written v ∧ WrittenItems items := hw
    have hcost : cost v + costItems items + 1 + 1 ≤ fuel + 1 := hfuel
    rw [renderIndent, List.cons_append, List.append_assoc, List.append_assoc,
      parseValue_bracket_line hw'.1,
      parseItems_indent v items k fuel rest hw'.1 hw'.2 (by omega)]
    rfl
  | .obj ((key, v) :: members), fuel + 1 =>
    have hw' : StrLit key ∧ Written v ∧ WrittenMembers members := hw
    have hcost : cost v + costMembers members + 1 + 1 ≤ fuel + 1 := hfuel
    have happ : renderIndent k (.obj ((key, v) :: members)) ++ rest =
        '{' :: (newLine (k + 1) ++ '"' :: (key ++ '"' :: ':' :: ' ' ::
          (renderIndent (k + 1) v ++ (indentMembers k members ++ rest)))) := by
      simp [renderIndent]
    rw [happ, parseValue_brace_line,
      parseMembers_indent key v members k fuel rest hw'.1 hw'.2.1 hw'.2.2 (by omega)]
    rfl
  | .arr _, 0 | .obj _, 0 => exact absurd hfuel (by simp [cost])

theorem parseItems_indent (v : Json) (items : List Json) (k fuel : Nat) (rest : List Char)
    (hv : Written v) (hw : WrittenItems items) (hfuel : cost v + costItems items + 1 ≤ fuel) :
    parseItems fuel (renderIndent (k + 1) v ++ (indentItems k items ++ rest)) =
      some (v :: items, rest) := by
  match fuel with
  | 0 => omega
  | fuel + 1 =>
    rw [parseItems, parseValue_renderIndent v (k + 1) fuel _ hv (by omega)
      (indentItems_follow k items rest)]
    match items with
    | [] =>
      have hclose : skipWs (indentItems k [] ++ rest) = ']' :: rest := by
        rw [indentItems, List.append_assoc, skipWs_newLine]
        exact skipWs_cons (by decide) rest
      simp only [Option.bind_some, hclose]
    | w :: items =>
      have hw' : Written w ∧ WrittenItems items := hw
      have hcost : cost v + (cost w + costItems items + 1) + 1 ≤ fuel + 1 := hfuel
      have hskip : skipWs (newLine (k + 1) ++ (renderIndent (k + 1) w ++
          (indentItems k items ++ rest))) = skipWs (renderIndent (k + 1) w ++
          (indentItems k items ++ rest)) := skipWs_newLine _ _
      show (parseItems fuel (newLine (k + 1) ++ (renderIndent (k + 1) w ++ indentItems k items) ++
        rest)).map _ = _
      rw [List.append_assoc, List.append_assoc, parseItems_skipWs hskip,
        parseItems_indent w items k fuel rest hw'.1 hw'.2 (by omega)]
      rfl

theorem parseMembers_indent (key : List Char) (v : Json) (members : List (List Char × Json))
    (k fuel : Nat) (rest : List Char) (hkey : StrLit key) (hv : Written v)
    (hw : WrittenMembers members) (hfuel : cost v + costMembers members + 1 ≤ fuel) :
    parseMembers fuel ('"' :: (key ++ '"' :: ':' :: ' ' :: (renderIndent (k + 1) v ++
      (indentMembers k members ++ rest)))) = some ((key, v) :: members, rest) := by
  match fuel with
  | 0 => omega
  | fuel + 1 =>
    have hlex := hkey.scan (':' :: ' ' :: (renderIndent (k + 1) v ++
      (indentMembers k members ++ rest)))
    rw [parseMembers, skipWs_cons (by decide)]
    show (lexString _).bind _ = _
    rw [hlex]
    show (parseValue fuel (' ' :: _)).bind _ = _
    rw [parseValue_skipWs (skipWs_blank _), parseValue_renderIndent v (k + 1) fuel _ hv (by omega)
      (indentMembers_follow k members rest)]
    match members with
    | [] =>
      have hclose : skipWs (indentMembers k [] ++ rest) = '}' :: rest := by
        rw [indentMembers, List.append_assoc, skipWs_newLine]
        exact skipWs_cons (by decide) rest
      simp only [Option.bind_some, hclose]
    | (key', w) :: members =>
      have hw' : StrLit key' ∧ Written w ∧ WrittenMembers members := hw
      have hcost : cost v + (cost w + costMembers members + 1) + 1 ≤ fuel + 1 := hfuel
      have happ : newLine (k + 1) ++ '"' :: (key' ++ '"' :: ':' :: ' ' ::
          (renderIndent (k + 1) w ++ indentMembers k members)) ++ rest =
          newLine (k + 1) ++ '"' :: (key' ++ '"' :: ':' :: ' ' :: (renderIndent (k + 1) w ++
            (indentMembers k members ++ rest))) := by simp
      show (parseMembers fuel (newLine (k + 1) ++ '"' :: (key' ++ '"' :: ':' :: ' ' ::
        (renderIndent (k + 1) w ++ indentMembers k members)) ++ rest)).map _ = _
      rw [happ, parseMembers_skipWs (skipWs_newLine _ _),
        parseMembers_indent key' w members k fuel rest hw'.1 hw'.2.1 hw'.2.2 (by omega)]
      rfl

end

mutual

/-- The lines and blanks only add to a text. -/
theorem length_render_le (v : Json) (k : Nat) :
    (render v).length ≤ (renderIndent k v).length := by
  match v with
  | .null | .bool _ | .num _ | .str _ => exact Nat.le_refl _
  | .arr [] | .obj [] => exact Nat.le_refl _
  | .arr (v :: items) =>
    have := length_render_le v (k + 1)
    have := length_renderItems_le items k
    simp only [render, renderIndent, List.length_append, List.length_cons]
    omega
  | .obj ((key, v) :: members) =>
    have := length_render_le v (k + 1)
    have := length_renderMembers_le members k
    simp only [render, renderIndent, List.length_append, List.length_cons]
    omega

theorem length_renderItems_le (items : List Json) (k : Nat) :
    (renderItems items).length ≤ (indentItems k items).length := by
  match items with
  | [] =>
    simp only [renderItems, indentItems, List.length_append, List.length_cons]
    omega
  | v :: items =>
    have := length_render_le v (k + 1)
    have := length_renderItems_le items k
    simp only [renderItems, indentItems, List.length_append, List.length_cons]
    omega

theorem length_renderMembers_le (members : List (List Char × Json)) (k : Nat) :
    (renderMembers members).length ≤ (indentMembers k members).length := by
  match members with
  | [] =>
    simp only [renderMembers, indentMembers, List.length_append, List.length_cons]
    omega
  | (key, v) :: members =>
    have := length_render_le v (k + 1)
    have := length_renderMembers_le members k
    simp only [renderMembers, indentMembers, List.length_append, List.length_cons]
    omega

end

/-- **An indented value reads back.** -/
theorem parse_renderIndent {v : Json} (hw : Written v) (hdepth : v.depth ≤ maxNestingDepth) :
    parse (renderIndent 0 v) = some v := by
  have hcost := cost_le v hw
  have hlen := length_render_le v 0
  have hread := parseValue_renderIndent v 0 (2 * (renderIndent 0 v).length + 2) [] hw (by omega)
    (.inl rfl)
  rw [List.append_nil] at hread
  rw [parse, hread]
  exact if_pos ⟨rfl, hdepth⟩

end Lib.Json
