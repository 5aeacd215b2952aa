import FusionLocalServer.Lib.Text
import FusionLocalServer.Lib.Url

/-!
# Launch URLs

The URL that starts the helper (`internal/fusionlink`): `buildURL` writes an action, a ticket and
the server the ticket is redeemed at, and `parse` reads what the operating system hands over. A Go
string is a list of bytes.

`link_round_trip`: what is built is read back, and what is read is what its own URL says.
-/

namespace FusionLocalServer.Fusion

open Lib.FormUrl (byte)
open Lib.Url (bytes)

/-! ## White space -/

/-- The characters that are white space, as their bytes. -/
def spaces : List (List UInt8) :=
  ("\t\n\x0b\x0c\r \u0085\u00a0\u1680\u2000\u2001\u2002\u2003\u2004\u2005\u2006\u2007\u2008" ++
    "\u2009\u200a\u2028\u2029\u202f\u205f\u3000").toList.map String.utf8EncodeChar

/-- A text without the marks it begins with, as many as the fuel allows. -/
def dropMarks (marks : List (List UInt8)) : Nat → List UInt8 → List UInt8
  | 0, bs => bs
  | fuel + 1, bs =>
    match marks.find? (·.isPrefixOf bs) with
    | some mark => dropMarks marks fuel (bs.drop mark.length)
    | none => bs

/-- `strings.TrimSpace`. -/
def trimSpace (bs : List UInt8) : List UInt8 :=
  let bs := dropMarks spaces bs.length bs
  (dropMarks (spaces.map List.reverse) bs.length bs.reverse).reverse

/-! ## The link -/

def scheme : List UInt8 := bytes "fusionlocal"

def version : List UInt8 := bytes "v1"

def actionOpen : List UInt8 := bytes "open"

def actionInsert : List UInt8 := bytes "insert"

def ValidAction (a : List UInt8) : Prop := a = actionOpen ∨ a = actionInsert

instance (a : List UInt8) : Decidable (ValidAction a) := inferInstanceAs (Decidable (_ ∨ _))

structure Link where
  action : List UInt8
  ticket : List UInt8
  server : List UInt8
deriving DecidableEq

/-- `ErrNotFusionLink`, with what it is wrapped with. -/
inductive NotFusionLink where
  | url (e : Lib.Url.Error)
  | scheme (s : List UInt8)
  | version (v : List UInt8)
  | action (a : List UInt8)
  | noTicket
deriving DecidableEq

def buildURL (action ticket serverOrigin : List UInt8) : List UInt8 :=
  scheme ++ bytes "://" ++ version ++ bytes "/" ++ action ++ bytes "?ticket=" ++
    Lib.Url.queryEscape ticket ++
    if serverOrigin ≠ [] then bytes "&server=" ++ Lib.Url.queryEscape serverOrigin else []

/-- `strings.TrimPrefix` of a slash. -/
def trimSlash (bs : List UInt8) : List UInt8 := if bs.head? = some (byte '/') then bs.drop 1 else bs

/-- `strings.EqualFold` of ASCII texts. -/
def equalFold (a b : List UInt8) : Bool := Lib.Url.toLower a = Lib.Url.toLower b

/-- The version and the action, from the host and the path or from an opaque URL. -/
def versionAction (u : Lib.Url.URL) : List UInt8 × List UInt8 :=
  if u.host = [] then Lib.FormUrl.cut (byte '/') (trimSlash u.opaquePart)
  else (u.host, trimSlash u.path)

def parse (raw : List UInt8) : Except NotFusionLink Link :=
  match Lib.Url.parse (trimSpace raw) with
  | .error e => .error (.url e)
  | .ok u =>
    if !equalFold u.scheme scheme then .error (.scheme u.scheme)
    else
      let (v, action) := versionAction u
      if v ≠ version then .error (.version v)
      else if ¬ ValidAction action then .error (.action action)
      else
        let ticket := Lib.Url.get u.query (bytes "ticket")
        if ticket = [] then .error .noTicket
        else .ok { action, ticket, server := Lib.Url.get u.query (bytes "server") }

/-! ## What is built -/

/-- A character of ASCII that is neither a control character nor the space. -/
def graphic (b : UInt8) : Bool := 0x20 < b && b < 0x7f

theorem head_mark {b : UInt8} : graphic b = true →
    ∀ mark ∈ spaces ++ spaces.map List.reverse, mark.head? ≠ none ∧ mark.head? ≠ some b :=
  Lib.FormUrl.forall_byte (P := fun b => graphic b = true →
    ∀ mark ∈ spaces ++ spaces.map List.reverse, mark.head? ≠ none ∧ mark.head? ≠ some b)
    (by decide +kernel) b

theorem dropMarks_graphic {marks : List (List UInt8)}
    (hmarks : ∀ mark ∈ marks, mark ∈ spaces ++ spaces.map List.reverse) {b : UInt8}
    (hb : graphic b = true) (fuel : Nat) (rest : List UInt8) :
    dropMarks marks fuel (b :: rest) = b :: rest := by
  cases fuel with
  | zero => rfl
  | succ fuel =>
    have hnone : marks.find? (·.isPrefixOf (b :: rest)) = none := by
      refine List.find?_eq_none.mpr fun mark hmark hprefix => ?_
      obtain ⟨hnil, hhead⟩ := head_mark hb mark (hmarks mark hmark)
      cases mark with
      | nil => exact hnil rfl
      | cons c mark =>
        have heq := (List.cons_prefix_cons.mp (List.isPrefixOf_iff_prefix.mp hprefix)).1
        exact hhead (congrArg some heq)
    rw [dropMarks, hnone]

/-- A text that begins and ends with a graphic character has no white space around it. -/
theorem trimSpace_graphic {first last : UInt8} {rest before : List UInt8}
    (hfirst : graphic first = true) (hlast : graphic last = true)
    (heq : first :: rest = before ++ [last]) : trimSpace (first :: rest) = first :: rest := by
  have hleft : ∀ fuel, dropMarks spaces fuel (first :: rest) = first :: rest := fun fuel =>
    dropMarks_graphic (fun mark h => List.mem_append_left _ h) hfirst fuel rest
  have hright : ∀ fuel rest, dropMarks (spaces.map List.reverse) fuel (last :: rest) =
      last :: rest := fun fuel rest =>
    dropMarks_graphic (fun mark h => List.mem_append_right _ h) hlast fuel rest
  rw [trimSpace, hleft, heq, List.reverse_append, List.reverse_singleton, List.singleton_append,
    hright, List.reverse_cons, List.reverse_reverse]

/-- The parameters of a URL. -/
def params (ticket serverOrigin : List UInt8) : List (List UInt8 × List UInt8) :=
  (bytes "ticket", ticket) ::
    if serverOrigin ≠ [] then [(bytes "server", serverOrigin)] else []

def writeParam (p : List UInt8 × List UInt8) : List UInt8 :=
  p.1 ++ byte '=' :: Lib.Url.queryEscape p.2

def queryOf (ticket serverOrigin : List UInt8) : List UInt8 :=
  [byte '&'].intercalate ((params ticket serverOrigin).map writeParam)

section Build

variable {action ticket serverOrigin : List UInt8}

theorem buildURL_eq (action ticket serverOrigin : List UInt8) :
    buildURL action ticket serverOrigin =
      Lib.Url.write scheme version action (queryOf ticket serverOrigin) := by
  unfold buildURL Lib.Url.write queryOf params
  by_cases hserver : serverOrigin = []
  · simp [hserver, writeParam, bytes, byte]
  · simp [hserver, writeParam, bytes, byte]

/-- A query ends with a byte of what is escaped. -/
theorem queryOf_ends (hticket : ticket ≠ []) :
    ∃ before last, queryOf ticket serverOrigin = before ++ [last] ∧
      Lib.Url.escapedByte last = true := by
  have hescaped : ∀ {bs : List UInt8}, bs ≠ [] → ∃ before last,
      Lib.Url.queryEscape bs = before ++ [last] ∧ Lib.Url.escapedByte last = true := by
    intro bs hne
    have hne := Lib.Url.queryEscape_ne_nil hne
    refine ⟨_, _, (List.dropLast_append_getLast hne).symm, ?_⟩
    exact Lib.Url.mem_queryEscape (List.getLast_mem hne)
  by_cases hserver : serverOrigin = []
  · obtain ⟨before, last, heq, hlast⟩ := hescaped hticket
    refine ⟨bytes "ticket" ++ byte '=' :: before, last, ?_, hlast⟩
    simp [queryOf, params, writeParam, hserver, heq]
  · obtain ⟨before, last, heq, hlast⟩ := hescaped hserver
    refine ⟨writeParam (bytes "ticket", ticket) ++
      byte '&' :: (bytes "server" ++ byte '=' :: before), last, ?_, hlast⟩
    simp [queryOf, params, writeParam, hserver, heq]

theorem escapedByte_spec {b : UInt8} : Lib.Url.escapedByte b = true →
    Lib.Url.control b = false ∧ graphic b = true ∧ b ∉ bytes "#?&;=" :=
  Lib.FormUrl.forall_byte (P := fun b => Lib.Url.escapedByte b = true →
    Lib.Url.control b = false ∧ graphic b = true ∧ b ∉ bytes "#?&;=") (by decide +kernel) b

theorem name_of_mem_params {p : List UInt8 × List UInt8} (h : p ∈ params ticket serverOrigin) :
    p.1 = bytes "ticket" ∨ p.1 = bytes "server" := by
  unfold params at h
  rcases List.mem_cons.mp h with rfl | h
  · exact .inl rfl
  · split at h
    · exact .inr (congrArg Prod.fst (List.mem_singleton.mp h))
    · exact absurd h List.not_mem_nil

theorem mem_writeParam {p : List UInt8 × List UInt8} (h : p ∈ params ticket serverOrigin) :
    ∀ b ∈ writeParam p, Lib.Url.control b = false ∧ b ∉ bytes "#?&;" := by
  have hname : ∀ b ∈ p.1, Lib.Url.control b = false ∧ b ∉ bytes "#?&;" := by
    rcases name_of_mem_params h with heq | heq
    · rw [heq]
      decide +kernel
    · rw [heq]
      decide +kernel
  intro b hb
  rcases List.mem_append.mp hb with hb | hb
  · exact hname b hb
  · rcases List.mem_cons.mp hb with rfl | hb
    · decide
    · obtain ⟨hcontrol, -, hmarks⟩ := escapedByte_spec (Lib.Url.mem_queryEscape hb)
      refine ⟨hcontrol, fun hmem => hmarks ?_⟩
      have hsub : ∀ c ∈ bytes "#?&;", c ∈ bytes "#?&;=" := by decide +kernel
      exact hsub b hmem

theorem mem_queryOf : ∀ b ∈ queryOf ticket serverOrigin,
    Lib.Url.control b = false ∧ b ≠ byte '#' := by
  have hparam : ∀ p ∈ params ticket serverOrigin, ∀ b ∈ writeParam p,
      Lib.Url.control b = false ∧ b ≠ byte '#' := by
    intro p hp b hb
    obtain ⟨hcontrol, hmarks⟩ := mem_writeParam hp b hb
    exact ⟨hcontrol, fun heq => hmarks (heq ▸ by decide)⟩
  intro b hb
  unfold queryOf at hb
  by_cases hserver : serverOrigin = []
  · have hone : params ticket serverOrigin = [(bytes "ticket", ticket)] := by
      simp [params, hserver]
    rw [hone, List.map_singleton, List.intercalate_singleton] at hb
    exact hparam _ (hone ▸ List.mem_singleton_self _) b hb
  · have htwo : params ticket serverOrigin =
        [(bytes "ticket", ticket), (bytes "server", serverOrigin)] := by
      simp [params, hserver]
    rw [htwo, List.map_cons, List.map_singleton, List.intercalate_cons_cons,
      List.intercalate_singleton, List.append_assoc, List.mem_append, List.mem_append,
      List.mem_singleton] at hb
    rcases hb with hb | rfl | hb
    · exact hparam _ (htwo ▸ List.mem_cons_self) b hb
    · decide
    · exact hparam _ (htwo ▸ List.mem_cons_of_mem _ (List.mem_singleton_self _)) b hb

example : queryOf (bytes "t/1") (bytes "http://h") = bytes "ticket=t%2F1&server=http%3A%2F%2Fh" := by
  decide +kernel

/-- The parameters are read back. -/
theorem parseStrict_queryOf (ticket serverOrigin : List UInt8) :
    Lib.FormUrl.parseStrict (queryOf ticket serverOrigin) = params ticket serverOrigin := by
  refine Lib.Url.parseStrict_intercalate (List.cons_ne_nil _ _) fun p hp => ?_
  have hmarks := fun b hb => (mem_writeParam hp b hb).2
  have hname : byte '=' ∉ p.1 ∧ Lib.FormUrl.unescape p.1 = some p.1 := by
    rcases name_of_mem_params hp with heq | heq
    · rw [heq]
      decide +kernel
    · rw [heq]
      decide +kernel
  have hcut : Lib.FormUrl.cut (byte '=') (writeParam p) = (p.1, Lib.Url.queryEscape p.2) :=
    Lib.Url.cut_append hname.1
  rw [hcut]
  refine ⟨fun h => hmarks _ h (by decide), fun h => hmarks _ h (by decide), ?_, hname.2,
    Lib.Url.unescape_queryEscape p.2⟩
  simp [writeParam]

theorem get_params (ticket serverOrigin : List UInt8) :
    Lib.Url.get (params ticket serverOrigin) (bytes "ticket") = ticket ∧
      Lib.Url.get (params ticket serverOrigin) (bytes "server") = serverOrigin := by
  have hne : bytes "ticket" ≠ bytes "server" := by decide
  constructor
  · simp [Lib.Url.get, params]
  · by_cases hserver : serverOrigin = []
    · simp [Lib.Url.get, params, hserver, hne]
    · simp [Lib.Url.get, params, hserver, hne]

/-- What is built is read back. -/
theorem parse_buildURL (haction : ValidAction action) (hticket : ticket ≠ []) :
    parse (buildURL action ticket serverOrigin) =
      .ok { action, ticket, server := serverOrigin } := by
  obtain ⟨before, last, hends, hlast⟩ :
      ∃ before last, queryOf ticket serverOrigin = before ++ [last] ∧
        Lib.Url.escapedByte last = true := queryOf_ends hticket
  obtain ⟨-, hgraphic, hmarks⟩ := escapedByte_spec hlast
  have halpha : ∀ b ∈ action, Lib.FormUrl.alphanumeric b = true := by
    rcases haction with rfl | rfl
    · decide +kernel
    · decide +kernel
  have hurl : Lib.Url.parse (Lib.Url.write scheme version action (queryOf ticket serverOrigin)) =
      .ok { scheme := Lib.Url.toLower scheme, host := version, path := byte '/' :: action,
            rawQuery := queryOf ticket serverOrigin } := by
    refine Lib.Url.parse_write (by decide +kernel) (by decide +kernel) (by decide +kernel) halpha
      mem_queryOf ?_
    rw [hends]
    have hne : last ≠ byte '?' := fun heq => hmarks (heq ▸ by decide)
    rw [← List.cons_append, List.getLast?_concat]
    exact fun heq => hne (Option.some.inj heq)
  have htrim : trimSpace (Lib.Url.write scheme version action (queryOf ticket serverOrigin)) =
      Lib.Url.write scheme version action (queryOf ticket serverOrigin) := by
    have hfirst : Lib.Url.write scheme version action (queryOf ticket serverOrigin) =
        byte 'f' :: Lib.Url.write (bytes "usionlocal") version action
          (queryOf ticket serverOrigin) := rfl
    have hlast : byte 'f' :: Lib.Url.write (bytes "usionlocal") version action
        (queryOf ticket serverOrigin) = Lib.Url.write scheme version action before ++ [last] := by
      rw [← hfirst, hends]
      simp [Lib.Url.write]
    rw [hfirst]
    exact trimSpace_graphic (by decide) hgraphic hlast
  obtain ⟨hget, hserver⟩ := get_params ticket serverOrigin
  have hversion : version ≠ [] := by decide
  have hfold : equalFold (Lib.Url.toLower scheme) scheme = true := by decide
  have hslash : trimSlash (byte '/' :: action) = action := rfl
  rw [parse, buildURL_eq, htrim, hurl]
  simp only [hfold, versionAction, if_neg hversion, hslash, haction, Lib.Url.URL.query,
    parseStrict_queryOf, hget, hserver, hticket, not_true, Bool.not_true, if_false, ne_eq,
    Bool.false_eq_true]

end Build

/-! ## What is accepted -/

/-- A link that is accepted has an action that there is, and a ticket. -/
theorem valid_of_parse {raw : List UInt8} {l : Link} (h : parse raw = .ok l) :
    ValidAction l.action ∧ l.ticket ≠ [] := by
  unfold parse at h
  split at h
  · cases h
  · split at h
    · cases h
    · dsimp only at h
      split at h
      · cases h
      · split at h
        · cases h
        · next haction =>
          split at h
          · cases h
          · next hticket =>
            cases h
            exact ⟨Decidable.not_not.mp haction, hticket⟩

/-- **Links make the round trip.** What is built of an action and a ticket is read back, and the URL
that is built of a link that was accepted is read as that link. -/
theorem link_round_trip :
    (∀ action ticket serverOrigin, ValidAction action → ticket ≠ [] →
      parse (buildURL action ticket serverOrigin) =
        .ok { action, ticket, server := serverOrigin }) ∧
      ∀ raw l, parse raw = .ok l → parse (buildURL l.action l.ticket l.server) = .ok l := by
  constructor
  · intro action ticket serverOrigin haction hticket
    exact parse_buildURL haction hticket
  · intro raw l h
    obtain ⟨haction, hticket⟩ := valid_of_parse h
    exact parse_buildURL haction hticket

/-- A ticket with a space, and a link as some systems hand it over. -/
theorem link_round_trip_opaque :
    parse (buildURL actionInsert (bytes "a b") (bytes "https://host:8080")) =
        .ok { action := actionInsert, ticket := bytes "a b", server := bytes "https://host:8080" } ∧
      ∃ l, parse (bytes " fusionlocal:v1/open?ticket=t") = .ok l ∧
        parse (buildURL l.action l.ticket l.server) = .ok l := by
  have hread : parse (bytes " fusionlocal:v1/open?ticket=t") =
      .ok { action := actionOpen, ticket := bytes "t", server := [] } := by decide +kernel
  exact ⟨link_round_trip.1 actionInsert _ _ (.inr rfl) (by decide), _, hread,
    link_round_trip.2 _ _ hread⟩

end FusionLocalServer.Fusion
