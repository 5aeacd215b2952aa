import Mathlib.Algebra.BigOperators.Group.List.Basic
import Mathlib.Algebra.Order.Ring.Nat
import Std.Data.ExtTreeMap
import FusionLocalServer.Lib.Json.Struct

/-!
# Values carried as text

A `json.RawMessage` is a value that is carried as the text it was read from. Reading an
object into a map of them (`readRawMap`) cuts the text of every member out of the text of
the object, white space inside it included; of several members with one key the last stays.
Writing one (`compact`) drops the white space and escapes what `json.Marshal` escapes: the
characters that HTML and JavaScript take for their own, which stand only inside strings.
-/

namespace Lib.Json

open Lib Std

/-- The text of a value. -/
abbrev RawMessage := List Char

/-- How many bytes a text has. -/
def byteLen (cs : List Char) : Nat := (cs.map Char.utf8Size).sum

/-- `json.Valid`. -/
def valid (cs : List Char) : Bool := (parse cs).isSome

/-! ## Reading -/

/-- The text of the value a text begins with, and what follows it. -/
def cutValue (fuel : Nat) (cs : List Char) : Option (RawMessage × List Char) :=
  (parseValue fuel cs).map fun p =>
    let start := skipWs cs
    (start.take (start.length - p.2.length), p.2)

/-- The members of an object after its brace or a comma, each value as its text. -/
def cutMembers : Nat → List Char → Option (List (List Char × RawMessage))
  | 0, _ => none
  | fuel + 1, cs =>
    match skipWs cs with
    | '"' :: rest =>
      (lexString rest).bind fun (key, rest) =>
      match skipWs rest with
      | ':' :: rest =>
        (cutValue fuel rest).bind fun (raw, rest) =>
        match skipWs rest with
        | ',' :: rest => (cutMembers fuel rest).map ((key, raw) :: ·)
        | '}' :: _ => some [(key, raw)]
        | _ => none
      | _ => none
    | _ => none

/-- The members of the object a text is; `null` has none. -/
def cutObject (cs : List Char) : Option (List (List Char × RawMessage)) :=
  match skipWs cs with
  | 'n' :: _ => some []
  | '{' :: rest =>
    match skipWs rest with
    | '}' :: _ => some []
    | _ => cutMembers (2 * cs.length + 2) rest
  | _ => none

/-- Reading an object into a map of texts that holds something already. `null` empties the
map. -/
def readRawMap (m : ExtTreeMap String RawMessage) (cs : List Char) :
    Option (ExtTreeMap String RawMessage) :=
  if cs.head? = some 'n' then some ∅
  else (cutObject cs).map fun members =>
    members.foldl (fun m member => m.insert (unquote member.1) member.2) m

/-! ## Writing -/

/-- A character of a value's text as it is written. -/
def escapeRaw (c : Char) : List Char :=
  if c = '<' ∨ c = '>' ∨ c = '&' ∨ c = '\u2028' ∨ c = '\u2029' then quoteChar c else [c]

/-- `compact`, on a text that is a value. -/
def compact (cs : RawMessage) : Option (List Char) :=
  (parse cs).map fun v => (render v).flatMap escapeRaw

/-- A map of texts: its members in the order of their keys, through the closing brace. -/
def writeMembers : List (String × RawMessage) → Option (List Char)
  | [] => some ['}']
  | [(key, raw)] => (compact raw).map fun v => '"' :: quote key ++ '"' :: ':' :: v ++ ['}']
  | (key, raw) :: rest =>
    (compact raw).bind fun v =>
      (writeMembers rest).map fun tail => '"' :: quote key ++ '"' :: ':' :: v ++ ',' :: tail

def writeRawMap (m : ExtTreeMap String RawMessage) : Option (List Char) :=
  (writeMembers m.toList).map ('{' :: ·)

/-! ## Sizes -/

@[simp] theorem byteLen_nil : byteLen [] = 0 := rfl

@[simp] theorem byteLen_cons (c : Char) (cs : List Char) :
    byteLen (c :: cs) = c.utf8Size + byteLen cs := rfl

@[simp] theorem byteLen_append (a b : List Char) : byteLen (a ++ b) = byteLen a + byteLen b := by
  unfold byteLen
  rw [List.map_append, List.sum_append]

theorem byteLen_replicate (n : Nat) (c : Char) :
    byteLen (List.replicate n c) = n * c.utf8Size := by
  unfold byteLen
  rw [List.map_replicate, List.sum_replicate]
  rfl

/-- What a member of a map takes up when it is written, with its quotes, colon and comma. -/
def memberSize (key : String) (raw : RawMessage) : Nat :=
  byteLen (quote key) + byteLen ((compact raw).getD []) + 4

/-- What a map takes up: its members with a comma between any two, and its braces. -/
theorem byteLen_writeMembers {l : List (String × RawMessage)} {text : List Char}
    (h : writeMembers l = some text) :
    byteLen text + (if l = [] then 0 else 1) =
      (l.map fun m => memberSize m.1 m.2).sum + 1 := by
  induction l generalizing text with
  | nil =>
    cases h
    rfl
  | cons m l ih =>
    obtain ⟨key, raw⟩ := m
    have hquote : '"'.utf8Size = 1 := rfl
    have hcolon : ':'.utf8Size = 1 := rfl
    have hcomma : ','.utf8Size = 1 := rfl
    have hbrace : '}'.utf8Size = 1 := rfl
    cases l with
    | nil =>
      rw [writeMembers] at h
      obtain ⟨v, hv, rfl⟩ := Option.map_eq_some_iff.mp h
      simp only [memberSize, hv, Option.getD_some, byteLen_append, byteLen_cons, byteLen_nil,
        List.map_cons, List.map_nil, List.sum_cons, List.sum_nil, hquote, hcolon, hbrace,
        reduceCtorEq, if_false]
      omega
    | cons m' l =>
      rw [writeMembers] at h
      · obtain ⟨v, hv, h⟩ := Option.bind_eq_some_iff.mp h
        obtain ⟨tail, htail, rfl⟩ := Option.map_eq_some_iff.mp h
        have hrest := ih htail
        rw [if_neg (List.cons_ne_nil _ _)] at hrest ⊢
        simp only [memberSize, hv, Option.getD_some, byteLen_append, byteLen_cons,
          List.map_cons, List.sum_cons, hquote, hcolon, hcomma] at hrest ⊢
        omega
      · exact fun h => (nomatch h)

/-! ## Reading back what was written compactly -/

theorem cutValue_render {v : Json} {fuel : Nat} {rest : List Char} (hw : Written v)
    (hfuel : cost v ≤ fuel) (hrest : Follow rest) :
    cutValue fuel (render v ++ rest) = some (render v, rest) := by
  obtain ⟨c, tail, hrender, hws, -⟩ := render_head hw
  have hskip : skipWs (render v ++ rest) = render v ++ rest := by
    rw [hrender]
    exact skipWs_cons hws _
  unfold cutValue
  rw [parseValue_render v fuel rest hw hfuel hrest, Option.map_some]
  dsimp only
  rw [hskip, List.length_append, Nat.add_sub_cancel, List.take_left]

theorem cutMembers_render (key : List Char) (v : Json) (members : List (List Char × Json))
    (fuel : Nat) (rest : List Char) (hkey : StrLit key) (hv : Written v)
    (hw : WrittenMembers members) (hfuel : cost v + costMembers members + 1 ≤ fuel) :
    cutMembers fuel ('"' :: (key ++ '"' :: ':' :: render v ++ renderMembers members ++ rest)) =
      some (((key, v) :: members).map fun m => (m.1, render m.2)) := by
  induction members generalizing key v fuel with
  | nil =>
    cases fuel with
    | zero => omega
    | succ fuel =>
      have happ : key ++ '"' :: ':' :: render v ++ renderMembers [] ++ rest =
          key ++ '"' :: ':' :: (render v ++ (renderMembers [] ++ rest)) := by simp
      rw [happ, cutMembers, skipWs_cons (by decide)]
      show (lexString _).bind _ = _
      rw [hkey.scan]
      show (cutValue fuel _).bind _ = _
      rw [cutValue_render hv (by simp only [costMembers] at hfuel; omega)
        (renderMembers_follow [] rest)]
      rfl
  | cons m members ih =>
    obtain ⟨key', w⟩ := m
    cases fuel with
    | zero => omega
    | succ fuel =>
      have hw' : StrLit key' ∧ Written w ∧ WrittenMembers members := hw
      have hcost : cost v + (cost w + costMembers members + 1) + 1 ≤ fuel + 1 := hfuel
      have happ : key ++ '"' :: ':' :: render v ++ renderMembers ((key', w) :: members) ++ rest =
          key ++ '"' :: ':' :: (render v ++ (renderMembers ((key', w) :: members) ++ rest)) := by
        simp
      rw [happ, cutMembers, skipWs_cons (by decide)]
      show (lexString _).bind _ = _
      rw [hkey.scan]
      show (cutValue fuel _).bind _ = _
      rw [cutValue_render hv (by omega) (renderMembers_follow _ rest)]
      show (cutMembers fuel ('"' :: (key' ++ '"' :: ':' :: render w ++
        renderMembers members ++ rest))).map _ = _
      rw [ih key' w fuel hw'.1 hw'.2.1 hw'.2.2 (by omega)]
      rfl

/-- **The members of an object written compactly are cut out as they were written.** -/
theorem cutObject_render {members : List (List Char × Json)} (hw : WrittenMembers members) :
    cutObject (render (.obj members)) = some (members.map fun m => (m.1, render m.2)) := by
  cases members with
  | nil => rfl
  | cons m members =>
    obtain ⟨key, v⟩ := m
    have hw' : StrLit key ∧ Written v ∧ WrittenMembers members := hw
    have hcost : cost (.obj ((key, v) :: members)) ≤ 2 * (render (.obj ((key, v) :: members))).length :=
      cost_le _ hw
    have hcost' : cost v + costMembers members + 1 + 1 = cost (.obj ((key, v) :: members)) := rfl
    have htext := cutMembers_render key v members
      (2 * (render (.obj ((key, v) :: members))).length + 2) [] hw'.1 hw'.2.1 hw'.2.2 (by omega)
    rw [List.append_nil] at htext
    rw [cutObject, render, List.cons_append]
    show cutMembers _ _ = _
    exact htext

theorem strLit_of_plain {lit : List Char}
    (h : ∀ c ∈ lit, c ≠ '"' ∧ c ≠ '\\' ∧ ¬ c.toNat < 0x20) : StrLit lit where
  printable c hc := Nat.not_lt.mp (h c hc).2.2
  scan rest := by
    induction lit with
    | nil => rfl
    | cons c lit ih =>
      obtain ⟨hq, hb, hp⟩ := h c List.mem_cons_self
      rw [List.cons_append, lexString_plain hq hb hp,
        ih fun c hc => h c (List.mem_cons_of_mem _ hc)]
      rfl

end Lib.Json
