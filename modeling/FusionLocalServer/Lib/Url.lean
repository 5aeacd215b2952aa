import Mathlib.Data.List.TakeWhile
import FusionLocalServer.Lib.FormUrl

/-!
# URLs

The parts of a URL as `url.Parse` takes them out of a byte string, and `url.QueryEscape`, which
writes a value of a query so that it reads back (`unescape_queryEscape`). What is read of a query is
the strict reader of form-urlencoded pairs (`parseStrict_intercalate`).

The user information is checked and not kept, and the encoding a path came in is not kept either.
-/

namespace Lib.Url

open Lib.FormUrl (byte between alphanumeric hexDigit hexValue cut forall_byte)

/-- The bytes of an ASCII text. -/
def bytes (s : String) : List UInt8 := s.toList.map byte

/-! ## Escapes -/

/-- The parts of a URL that are escaped each in its own way. -/
inductive Mode where
  | path
  | userPassword
  | host
  | zone
  | fragment
deriving DecidableEq

inductive Error where
  | controlByte
  | missingScheme
  | colonInFirstSegment
  | missingBracket
  | invalidPort (port : List UInt8)
  | invalidUserinfo
  | escape (text : List UInt8)
  | invalidHost (b : UInt8)
deriving DecidableEq

/-- A byte that a host is written with as it is. -/
def hostByte (b : UInt8) : Bool := alphanumeric b || (bytes "!$&'()*+,;=:[]<>\"-_.~").contains b

/-- An escape that a part may have. -/
def allowedEscape (mode : Mode) (x y : Nat) : Bool :=
  let percent := x == 2 && y == 5
  let v := UInt8.ofNat (16 * x + y)
  match mode with
  | .host => 8 ≤ x || percent
  | .zone => percent || v == byte ' ' || hostByte v
  | _ => true

def unescape (mode : Mode) : List UInt8 → Except Error (List UInt8)
  | [] => .ok []
  | c :: rest =>
    if c = byte '%' then
      match rest with
      | a :: b :: rest =>
        match hexValue a, hexValue b with
        | some x, some y =>
          if allowedEscape mode x y then
            (unescape mode rest).map (UInt8.ofNat (16 * x + y) :: ·)
          else .error (.escape [c, a, b])
        | _, _ => .error (.escape [c, a, b])
      | rest => .error (.escape (c :: rest))
    else if (mode = .host ∨ mode = .zone) ∧ c < 0x80 ∧ ¬ hostByte c then .error (.invalidHost c)
    else (unescape mode rest).map (c :: ·)

/-- The bytes that stand for themselves in a query. -/
def queryByte (b : UInt8) : Bool := alphanumeric b || (bytes "-_.~").contains b

def queryEscapeByte (b : UInt8) : List UInt8 :=
  if queryByte b then [b]
  else if b = byte ' ' then [byte '+']
  else [byte '%', hexDigit (b.toNat / 16), hexDigit (b.toNat % 16)]

def queryEscape (bs : List UInt8) : List UInt8 := bs.flatMap queryEscapeByte

/-! ## The parts -/

structure URL where
  scheme : List UInt8 := []
  /-- What comes behind the scheme when it does not begin with a slash. -/
  opaquePart : List UInt8 := []
  host : List UInt8 := []
  path : List UInt8 := []
  rawQuery : List UInt8 := []
  fragment : List UInt8 := []
deriving DecidableEq

def letter (b : UInt8) : Bool := between 'a' 'z' b || between 'A' 'Z' b

def digit (b : UInt8) : Bool := between '0' '9' b

def control (b : UInt8) : Bool := b < 0x20 || b = 0x7f

def toLower (bs : List UInt8) : List UInt8 :=
  bs.map fun b => if between 'A' 'Z' b then b + 32 else b

/-- `getScheme`, with the bytes that have been passed. -/
def getScheme (raw seen : List UInt8) : List UInt8 → Except Error (List UInt8 × List UInt8)
  | [] => .ok ([], raw)
  | c :: rest =>
    if letter c then getScheme raw (seen ++ [c]) rest
    else if digit c ∨ c ∈ bytes "+-." then
      if seen = [] then .ok ([], raw) else getScheme raw (seen ++ [c]) rest
    else if c = byte ':' then
      if seen = [] then .error .missingScheme else .ok (seen, rest)
    else .ok ([], raw)

/-- What comes before the last `b`, and what comes after it. -/
def cutLast (b : UInt8) (line : List UInt8) : Option (List UInt8 × List UInt8) :=
  if b ∈ line then
    let (after, before) := cut b line.reverse
    some (before.reverse, after.reverse)
  else none

/-- Where a text is in a line for the first time. -/
def index (text line : List UInt8) : Option Nat :=
  (List.range (line.length + 1)).find? fun i => text.isPrefixOf (line.drop i)

def validOptionalPort : List UInt8 → Bool
  | [] => true
  | c :: rest => c = byte ':' && rest.all digit

def parseHost (host : List UInt8) : Except Error (List UInt8) :=
  if host.head? = some (byte '[') then
    match cutLast (byte ']') host with
    | none => .error .missingBracket
    | some (name, colonPort) =>
      if !validOptionalPort colonPort then .error (.invalidPort colonPort)
      else match index (bytes "%25") name with
        | some zone => do
          let host1 ← unescape .host (name.take zone)
          let host2 ← unescape .zone (name.drop zone)
          let host3 ← unescape .host (byte ']' :: colonPort)
          pure (host1 ++ host2 ++ host3)
        | none => unescape .host host
  else match cutLast (byte ':') host with
    | some (_, port) =>
      if !validOptionalPort (byte ':' :: port) then .error (.invalidPort (byte ':' :: port))
      else unescape .host host
    | none => unescape .host host

def validUserinfo (bs : List UInt8) : Bool :=
  bs.all fun b => alphanumeric b || (bytes "-._:~!$&'()*+,;=%@").contains b

/-- The host of an authority, whose user information is as it should be. -/
def parseAuthority (authority : List UInt8) : Except Error (List UInt8) :=
  match cutLast (byte '@') authority with
  | none => parseHost authority
  | some (userinfo, rest) => do
    let host ← parseHost rest
    if !validUserinfo userinfo then .error .invalidUserinfo
    else
      -- without a colon all of it is the name
      let (username, password) := cut (byte ':') userinfo
      let _ ← unescape .userPassword username
      let _ ← unescape .userPassword password
      pure host

/-- What comes before a query and the query; a question mark at the end begins none. -/
def splitQuery (rest : List UInt8) : List UInt8 × List UInt8 :=
  if rest.getLast? = some (byte '?') ∧ rest.count (byte '?') = 1 then (rest.dropLast, [])
  else cut (byte '?') rest

/-- `parse`, of what comes before the fragment. -/
def parseBody (raw : List UInt8) : Except Error URL :=
  if raw.any control then .error .controlByte
  else if raw = bytes "*" then .ok { path := bytes "*" }
  else do
    let (scheme, rest) ← getScheme raw [] raw
    let scheme := toLower scheme
    let (rest, rawQuery) := splitQuery rest
    if rest.head? ≠ some (byte '/') then
      if scheme ≠ [] then pure { scheme, rawQuery, opaquePart := rest }
      else if byte ':' ∈ (cut (byte '/') rest).1 then .error .colonInFirstSegment
      else
        let path ← unescape .path rest
        pure { rawQuery, path }
    else if (scheme ≠ [] ∨ ¬ (bytes "///").isPrefixOf rest) ∧ (bytes "//").isPrefixOf rest then
      let authority := (rest.drop 2).takeWhile (· ≠ byte '/')
      let host ← parseAuthority authority
      let path ← unescape .path ((rest.drop 2).dropWhile (· ≠ byte '/'))
      pure { scheme, rawQuery, host, path }
    else
      let path ← unescape .path rest
      pure { scheme, rawQuery, path }

/-- `url.Parse`. -/
def parse (raw : List UInt8) : Except Error URL := do
  let (body, frag) := cut (byte '#') raw
  let url ← parseBody body
  if frag = [] then pure url
  else
    let fragment ← unescape .fragment frag
    pure { url with fragment }

/-- `URL.Query`, a pair that is not written properly being dropped. -/
def URL.query (url : URL) : List (List UInt8 × List UInt8) := FormUrl.parseStrict url.rawQuery

/-- `Values.Get`. -/
def get (query : List (List UInt8 × List UInt8)) (name : List UInt8) : List UInt8 :=
  ((query.find? (·.1 = name)).map (·.2)).getD []

/-! ## Values of a query -/

/-- The bytes of what is escaped. -/
def escapedByte (b : UInt8) : Bool := queryByte b || b = byte '%' || b = byte '+'

theorem mem_queryEscapeByte {x : UInt8} : ∀ b ∈ queryEscapeByte x, escapedByte b = true :=
  List.all_eq_true.mp
    (forall_byte (P := fun x => (queryEscapeByte x).all escapedByte = true) (by decide +kernel) x)

theorem mem_queryEscape {bs : List UInt8} {b : UInt8} (h : b ∈ queryEscape bs) :
    escapedByte b = true := by
  obtain ⟨x, -, hx⟩ := List.mem_flatMap.mp h
  exact mem_queryEscapeByte b hx

theorem queryEscape_ne_nil {bs : List UInt8} (h : bs ≠ []) : queryEscape bs ≠ [] := by
  cases bs with
  | nil => exact absurd rfl h
  | cons b bs =>
    have hone : queryEscapeByte b ≠ [] := by
      unfold queryEscapeByte
      split
      · exact List.cons_ne_nil _ _
      · split <;> exact List.cons_ne_nil _ _
    exact fun hnil => hone (List.append_eq_nil_iff.mp hnil).1

theorem queryByte_ne {b : UInt8} : queryByte b = true → b ≠ byte '%' ∧ b ≠ byte '+' :=
  forall_byte (P := fun b => queryByte b = true → b ≠ byte '%' ∧ b ≠ byte '+') (by decide +kernel) b

theorem unescape_queryEscapeByte (b : UInt8) (rest : List UInt8) :
    FormUrl.unescape (queryEscapeByte b ++ rest) = (FormUrl.unescape rest).map (b :: ·) := by
  unfold queryEscapeByte
  by_cases hb : queryByte b = true
  · obtain ⟨hpercent, hplus⟩ := queryByte_ne hb
    rw [if_pos hb, List.singleton_append, FormUrl.unescape_of_ne hpercent, if_neg hplus]
  · rw [if_neg hb]
    by_cases hspace : b = byte ' '
    · rw [if_pos hspace, List.singleton_append, FormUrl.unescape_of_ne (by decide), if_pos rfl,
        hspace]
    · rw [if_neg hspace]
      exact FormUrl.unescape_percent b rest

/-- **A value reads back.** -/
theorem unescape_queryEscape (bs : List UInt8) : FormUrl.unescape (queryEscape bs) = some bs := by
  induction bs with
  | nil => rfl
  | cons b bs ih =>
    have hsplit : queryEscape (b :: bs) = queryEscapeByte b ++ queryEscape bs := rfl
    rw [hsplit, unescape_queryEscapeByte, ih]
    rfl

theorem cut_append {b : UInt8} {before after : List UInt8} (h : b ∉ before) :
    cut b (before ++ b :: after) = (before, after) := by
  have hall : ∀ c ∈ before, decide (c ≠ b) = true := fun c hc =>
    decide_eq_true fun heq => h (heq ▸ hc)
  rw [cut, List.takeWhile_append_of_pos hall, List.dropWhile_append_of_pos hall,
    List.takeWhile_cons_of_neg (by simp), List.dropWhile_cons_of_neg (by simp), List.append_nil]
  rfl

theorem cut_of_not_mem {b : UInt8} {line : List UInt8} (h : b ∉ line) : cut b line = (line, []) := by
  have hall : ∀ c ∈ line, decide (c ≠ b) = true := fun c hc =>
    decide_eq_true fun heq => h (heq ▸ hc)
  rw [cut, List.takeWhile_eq_self_iff.mpr hall, List.dropWhile_eq_nil_iff.mpr hall]
  rfl

/-- Pairs that are written each in a way that reads back are read back together. -/
theorem parseStrict_intercalate {write : List UInt8 × List UInt8 → List UInt8}
    {ps : List (List UInt8 × List UInt8)} (hne : ps ≠ [])
    (hwrite : ∀ p ∈ ps, byte '&' ∉ write p ∧ byte ';' ∉ write p ∧ write p ≠ [] ∧
      FormUrl.unescape (cut (byte '=') (write p)).1 = some p.1 ∧
      FormUrl.unescape (cut (byte '=') (write p)).2 = some p.2) :
    FormUrl.parseStrict ([byte '&'].intercalate (ps.map write)) = ps := by
  have hpieces : FormUrl.pieces ([byte '&'].intercalate (ps.map write)) = ps.map write := by
    rw [FormUrl.pieces, List.splitOn_intercalate]
    · refine List.filter_eq_self.mpr fun piece hpiece => ?_
      obtain ⟨p, hp, rfl⟩ := List.mem_map.mp hpiece
      exact decide_eq_true (hwrite p hp).2.2.1
    · intro piece hpiece
      obtain ⟨p, hp, rfl⟩ := List.mem_map.mp hpiece
      exact (hwrite p hp).1
    · simpa using hne
  rw [FormUrl.parseStrict, hpieces, List.filterMap_map]
  refine (List.filterMap_congr fun p hp => ?_).trans List.filterMap_some
  obtain ⟨-, hsemi, -, hname, hvalue⟩ := hwrite p hp
  simp [hsemi, hname, hvalue]

/-! ## A URL with a host, a path and a query -/

example : (parse (bytes "https://h:80%2F/p?q")).toOption = none := by
  decide +kernel

theorem alphanumeric_spec {b : UInt8} : alphanumeric b = true →
    control b = false ∧ hostByte b = true ∧ b ∉ bytes "%#?/:@[" :=
  forall_byte (P := fun b => alphanumeric b = true →
    control b = false ∧ hostByte b = true ∧ b ∉ bytes "%#?/:@[") (by decide +kernel) b

theorem letter_spec {b : UInt8} : letter b = true → alphanumeric b = true :=
  forall_byte (P := fun b => letter b = true → alphanumeric b = true) (by decide +kernel) b

theorem unescape_alphanumeric (mode : Mode) {bs : List UInt8} (h : ∀ b ∈ bs, alphanumeric b = true) :
    unescape mode bs = .ok bs := by
  induction bs with
  | nil => rfl
  | cons c rest ih =>
    obtain ⟨-, hhost, hmarks⟩ := alphanumeric_spec (h c List.mem_cons_self)
    have hpercent : c ≠ byte '%' := fun heq => hmarks (heq ▸ by decide)
    rw [unescape.eq_def]
    simp only [if_neg hpercent, hhost, not_true, and_false, if_false,
      ih fun b hb => h b (List.mem_cons_of_mem c hb)]
    rfl

theorem getScheme_letters {raw seen name rest : List UInt8} (h : ∀ b ∈ name, letter b = true)
    (hne : seen ++ name ≠ []) :
    getScheme raw seen (name ++ byte ':' :: rest) = .ok (seen ++ name, rest) := by
  induction name generalizing seen with
  | nil =>
    have hcolon : letter (byte ':') = false := by decide
    have hother : ¬ (digit (byte ':') ∨ byte ':' ∈ bytes "+-.") := by decide
    rw [List.nil_append, getScheme, if_neg (by simp [hcolon]), if_neg hother, if_pos rfl,
      if_neg (by simpa using hne), List.append_nil]
  | cons c name ih =>
    rw [List.cons_append, getScheme, if_pos (h c List.mem_cons_self),
      ih (fun b hb => h b (List.mem_cons_of_mem c hb)) (by simp), List.append_assoc,
      List.singleton_append]

theorem splitQuery_append {before query : List UInt8} (hbefore : byte '?' ∉ before)
    (hlast : (byte '?' :: query).getLast? ≠ some (byte '?')) :
    splitQuery (before ++ byte '?' :: query) = (before, query) := by
  have hend : (before ++ byte '?' :: query).getLast? ≠ some (byte '?') := by
    rwa [List.getLast?_append_of_ne_nil _ (List.cons_ne_nil _ _)]
  rw [splitQuery, if_neg fun h => hend h.1, cut_append hbefore]

theorem parseAuthority_alphanumeric {host : List UInt8} (h : ∀ b ∈ host, alphanumeric b = true) :
    parseAuthority host = .ok host := by
  have hmark : ∀ c ∈ bytes "%#?/:@[", c ∉ host := fun c hc hmem =>
    (alphanumeric_spec (h c hmem)).2.2 hc
  have hat : byte '@' ∉ host := hmark _ (by decide)
  have hcolon : byte ':' ∉ host := hmark _ (by decide)
  have hbracket : host.head? ≠ some (byte '[') := fun hhead =>
    hmark (byte '[') (by decide) (List.mem_of_head? hhead)
  rw [parseAuthority, cutLast, if_neg hat]
  dsimp only
  rw [parseHost, if_neg hbracket, cutLast, if_neg hcolon]
  exact unescape_alphanumeric .host h

section Parts

variable {name host path query : List UInt8} (hname : name ≠ [])
  (hletters : ∀ b ∈ name, letter b = true) (hhost : ∀ b ∈ host, alphanumeric b = true)
  (hpath : ∀ b ∈ path, alphanumeric b = true)
  (hquery : ∀ b ∈ query, control b = false ∧ b ≠ byte '#')
  (hlast : (byte '?' :: query).getLast? ≠ some (byte '?'))

/-- A URL of these parts. -/
def write (name host path query : List UInt8) : List UInt8 :=
  name ++ byte ':' :: byte '/' :: byte '/' :: (host ++ byte '/' :: (path ++ byte '?' :: query))

include hletters hhost hpath hquery in
/-- No part has a control character or a fragment. -/
theorem mem_write : ∀ b ∈ write name host path query, control b = false ∧ b ≠ byte '#' := by
  have hplain : ∀ {bs : List UInt8}, (∀ b ∈ bs, alphanumeric b = true) →
      ∀ b ∈ bs, control b = false ∧ b ≠ byte '#' := by
    intro bs hall b hb
    obtain ⟨hcontrol, -, hmarks⟩ := alphanumeric_spec (hall b hb)
    exact ⟨hcontrol, fun heq => hmarks (heq ▸ by decide)⟩
  intro b hb
  simp only [write, List.mem_append, List.mem_cons] at hb
  rcases hb with hb | rfl | rfl | rfl | hb | rfl | hb | rfl | hb
  · exact hplain (fun b hb => letter_spec (hletters b hb)) b hb
  · decide
  · decide
  · decide
  · exact hplain hhost b hb
  · decide
  · exact hplain hpath b hb
  · decide
  · exact hquery b hb

include hname hletters hhost hpath hlast in
theorem parseBody_write (hcontrol : ∀ b ∈ write name host path query, control b = false) :
    parseBody (write name host path query) =
      .ok { scheme := toLower name, host, path := byte '/' :: path, rawQuery := query } := by
  have hno : (write name host path query).any control = false :=
    List.any_eq_false.mpr fun b hb => by simp [hcontrol b hb]
  have hstar : write name host path query ≠ bytes "*" := by
    intro heq
    have hcolon : byte ':' ∈ write name host path query := by simp [write]
    rw [heq] at hcolon
    exact absurd hcolon (by decide)
  have hscheme : getScheme (write name host path query) [] (write name host path query) =
      .ok (name, byte '/' :: byte '/' :: (host ++ byte '/' :: (path ++ byte '?' :: query))) :=
    getScheme_letters hletters hname
  have hmark : ∀ {bs : List UInt8}, (∀ b ∈ bs, alphanumeric b = true) →
      ∀ c ∈ bytes "%#?/:@[", c ∉ bs := fun hall c hc hmem =>
    (alphanumeric_spec (hall c hmem)).2.2 hc
  have hsplit : splitQuery
      (byte '/' :: byte '/' :: (host ++ byte '/' :: (path ++ byte '?' :: query))) =
        (byte '/' :: byte '/' :: (host ++ byte '/' :: path), query) := by
    have hbefore : byte '?' ∉ byte '/' :: byte '/' :: (host ++ byte '/' :: path) := by
      have h1 := hmark hhost (byte '?') (by decide)
      have h2 := hmark hpath (byte '?') (by decide)
      have h3 : byte '?' ≠ byte '/' := by decide
      simp [h1, h2, h3]
    have := splitQuery_append hbefore hlast
    simpa using this
  have hslash : ∀ c ∈ host, decide (c ≠ byte '/') = true := fun c hc =>
    decide_eq_true fun heq => hmark hhost (byte '/') (by decide) (heq ▸ hc)
  have htake : (host ++ byte '/' :: path).takeWhile (· ≠ byte '/') = host := by
    rw [List.takeWhile_append_of_pos hslash, List.takeWhile_cons_of_neg (by simp), List.append_nil]
  have hdrop : (host ++ byte '/' :: path).dropWhile (· ≠ byte '/') = byte '/' :: path := by
    rw [List.dropWhile_append_of_pos hslash, List.dropWhile_cons_of_neg (by simp)]
  have hslashed : unescape .path (byte '/' :: path) = .ok (byte '/' :: path) := by
    have hpercent : byte '/' ≠ byte '%' := by decide
    rw [unescape.eq_def]
    simp only [if_neg hpercent, unescape_alphanumeric .path hpath]
    rfl
  have hlower : toLower name ≠ [] := by simpa [toLower] using hname
  have hprefix : (bytes "//").isPrefixOf (byte '/' :: byte '/' :: (host ++ byte '/' :: path)) :=
    rfl
  rw [parseBody, hno, if_neg Bool.false_ne_true, if_neg hstar, hscheme]
  simp only [bind, Except.bind, hsplit, List.head?_cons, ne_eq, not_true, if_false, hlower,
    not_false_eq_true, true_or, true_and, hprefix, if_true, List.drop_succ_cons, List.drop_zero]
  rw [htake, hdrop, parseAuthority_alphanumeric hhost]
  simp only [hslashed]
  rfl

include hname hletters hhost hpath hquery hlast in
/-- **A URL is taken apart** as it is put together. -/
theorem parse_write :
    parse (write name host path query) =
      .ok { scheme := toLower name, host, path := byte '/' :: path, rawQuery := query } := by
  have hmem := mem_write hletters hhost hpath hquery
  have hcut : cut (byte '#') (write name host path query) = (write name host path query, []) :=
    cut_of_not_mem fun h => (hmem _ h).2 rfl
  have hbody := parseBody_write hname hletters hhost hpath hlast fun b hb => (hmem b hb).1
  rw [parse, hcut]
  dsimp only
  rw [hbody]
  rfl

end Parts

end Lib.Url
