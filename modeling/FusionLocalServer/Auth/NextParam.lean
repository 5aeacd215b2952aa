import FusionLocalServer.Lib.Walk

/-!
# The destination after sign-in

The `next` parameter of the login, filtered before it is kept, and sent to the browser by
`http.Redirect` when the sign-in is complete. The filter looks at the parameter as it is, and
`http.Redirect` cleans the path.

A Go string is given as the text whose characters are its bytes.
-/

namespace Auth

open Lib.Path

/-! ## The filter -/

/-- An ASCII control character. -/
def control (c : Char) : Bool := decide (c.toNat < 0x20) || c.toNat == 0x7f

def isHex (c : Char) : Bool :=
  ('0' ≤ c && c ≤ '9') || ('a' ≤ c && c ≤ 'f') || ('A' ≤ c && c ≤ 'F')

/-- Every percent sign has its two digits. -/
def escaped : List Char → Bool
  | [] => true
  | '%' :: a :: b :: rest => isHex a && isHex b && escaped rest
  | '%' :: _ => false
  | _ :: rest => escaped rest

/-- What comes before the first `c`, and what comes after it. -/
def cut (c : Char) (cs : List Char) : List Char × List Char :=
  (cs.takeWhile (· != c), (cs.dropWhile (· != c)).drop 1)

structure URL where
  scheme : String
  host : String
  /-- There is user information. -/
  user : Bool

/-- `url.Parse` of a text that begins with one slash: there is neither scheme nor authority to
be read, and what can go wrong is a control character or an incomplete escape in the path or the
fragment. -/
def parse (v : List Char) : Option URL :=
  let (rest, fragment) := cut '#' v
  if !v.any control && escaped (cut '?' rest).1 && escaped fragment then
    some { scheme := "", host := "", user := false }
  else none

def sanitizeNext (v : String) : String :=
  let cs := v.toList
  if v = "" ∨ 512 < cs.length then ""
  else if cs.head? ≠ some '/' then ""
  else if "//".toList.isPrefixOf cs ∨ "/\\".toList.isPrefixOf cs then ""
  else if cs.contains '\\' ∨ "://".toList <:+: cs then ""
  else if cs.any control then ""
  else match parse cs with
  | none => ""
  | some u =>
    if u.scheme ≠ "" ∨ u.host ≠ "" ∨ u.user then ""
    else if "/api/".toList.isPrefixOf cs then ""
    else v

/-! ## The redirect -/

def hexDigit (n : Nat) : Char := "0123456789abcdef".toList.getD (n % 16) '0'

/-- A byte outside ASCII in a header is escaped. -/
def hexEscapeNonASCII (cs : List Char) : List Char :=
  cs.flatMap fun c =>
    if c.toNat < 128 then [c] else ['%', hexDigit (c.toNat / 16), hexDigit c.toNat]

/-- The path of a destination, up to its query. -/
def pathOf (v : String) : List Char := v.toList.takeWhile (· != '?')

def query (v : String) : List Char := v.toList.dropWhile (· != '?')

/-- The path cleaned, but for a slash at its end, and the query as it is. -/
def cleaned (url : String) : List Char :=
  let path := (cleanPath (String.ofList (pathOf url))).toList
  let trailing := (pathOf url).getLast? == some '/'
  (if trailing && path.getLast? != some '/' then path ++ ['/'] else path) ++ query url

/-- `http.Redirect` of a destination that begins with a slash: the `Location`. -/
def redirect (url : String) : String :=
  match parse url.toList with
  | none => String.ofList (hexEscapeNonASCII url.toList)
  | some u =>
    if u.scheme = "" ∧ u.host = "" then String.ofList (hexEscapeNonASCII (cleaned url))
    else String.ofList (hexEscapeNonASCII url.toList)

/-- Where `handleAuthCallback` sends the browser that had come with a `next`. -/
def location (next : String) : String :=
  let dest := sanitizeNext next
  redirect (if dest = "" then "/" else dest)

/-! ## What is asked of the redirect -/

/-- A path at the origin, however a browser reads it: one slash, after which neither a slash nor
a backslash begins an authority, and no control character for it to strip. -/
structure AtOrigin (loc : List Char) : Prop where
  rooted : ∃ rest, loc = '/' :: rest ∧ rest.head? ≠ some '/' ∧ rest.head? ≠ some '\\'
  plain : ∀ c ∈ loc, control c = false

def UnderApi (loc : List Char) : Prop := "/api/".toList <+: loc

/-- What the filter lets through. -/
structure Passes (v : String) : Prop where
  short : v.toList.length ≤ 512
  rooted : v.toList.head? = some '/'
  authority : ¬ "//".toList <+: v.toList
  backslash : '\\' ∉ v.toList
  scheme : ¬ "://".toList <:+: v.toList
  plain : ∀ c ∈ v.toList, control c = false
  path : escaped (cut '?' (cut '#' v.toList).1).1 = true
  fragment : escaped (cut '#' v.toList).2 = true
  api : ¬ "/api/".toList <+: v.toList

/-- The path meets `api` at the root and stays below it, and does not end there. -/
def EntersApi (v : String) : Prop :=
  ∃ after, Enters "api" (components (String.ofList (pathOf v))) after ∧
    (0 < depth 0 after ∨ (pathOf v).getLast? = some '/')

/-! ## The filter's tests -/

theorem parse_eq {v : List Char} (hplain : ∀ c ∈ v, control c = false)
    (hpath : escaped (cut '?' (cut '#' v).1).1 = true) (hfragment : escaped (cut '#' v).2 = true) :
    parse v = some { scheme := "", host := "", user := false } := by
  have hany : v.any control = false := by simpa using hplain
  simp [parse, hany, hpath, hfragment]

theorem sanitizeNext_of_passes {v : String} (h : Passes v) : sanitizeNext v = v := by
  have hne : v ≠ "" := by
    rintro rfl
    exact (nomatch h.rooted)
  have hany : v.toList.any control = false := by simpa using h.plain
  have hauthority : ¬ ("//".toList.isPrefixOf v.toList = true ∨
      "/\\".toList.isPrefixOf v.toList = true) := by
    rw [List.isPrefixOf_iff_prefix, List.isPrefixOf_iff_prefix]
    exact fun hpre => hpre.elim h.authority fun hback =>
      h.backslash (hback.subset (by decide))
  have hforbidden : ¬ (v.toList.contains '\\' = true ∨ "://".toList <:+: v.toList) :=
    fun hin => hin.elim (fun hback => h.backslash (List.contains_iff_mem.mp hback)) h.scheme
  have hapi : ¬ "/api/".toList.isPrefixOf v.toList = true :=
    fun hpre => h.api (List.isPrefixOf_iff_prefix.mp hpre)
  unfold sanitizeNext
  dsimp only
  rw [if_neg (not_or.mpr ⟨hne, by have := h.short; omega⟩), if_neg (not_not.mpr h.rooted),
    if_neg hauthority, if_neg hforbidden, if_neg (by simp [hany]),
    parse_eq h.plain h.path h.fragment]
  dsimp only
  rw [if_neg (by simp), if_neg hapi]

theorem passes_of_sanitizeNext {v : String} (h : sanitizeNext v ≠ "") : Passes v := by
  unfold sanitizeNext at h
  dsimp only at h
  split at h
  · exact absurd rfl h
  next hshort =>
  split at h
  · exact absurd rfl h
  next hrooted =>
  split at h
  · exact absurd rfl h
  next hauthority =>
  split at h
  · exact absurd rfl h
  next hforbidden =>
  split at h
  · exact absurd rfl h
  next hplain =>
  split at h
  · exact absurd rfl h
  next u hparse =>
  split at h
  · exact absurd rfl h
  split at h
  · exact absurd rfl h
  next hapi =>
  simp only [not_or, List.isPrefixOf_iff_prefix, List.contains_iff_mem] at *
  have hescaped : escaped (cut '?' (cut '#' v.toList).1).1 = true ∧
      escaped (cut '#' v.toList).2 = true := by
    unfold parse at hparse
    dsimp only at hparse
    split at hparse
    · next hall =>
      simp only [Bool.and_eq_true] at hall
      exact ⟨hall.1.2, hall.2⟩
    · cases hparse
  exact ⟨by omega, by simpa using hrooted, hauthority.1, hforbidden.1, hforbidden.2,
    by simpa using hplain, hescaped.1, hescaped.2, hapi⟩

/-! ## The target -/

/-- The cleaned path of a destination. -/
def names (v : String) : List String := clean (components (String.ofList (pathOf v)))

/-- The slash at the end of the path, which is kept. -/
def trail (v : String) : List Char :=
  if names v ≠ [] ∧ (pathOf v).getLast? = some '/' then ['/'] else []

/-- The target before it is escaped. -/
def target (v : String) : List Char := '/' :: ((slashed (names v)).toList ++ trail v ++ query v)

theorem names_spec {v a : String} (h : a ∈ names v) :
    a ≠ "" ∧ '/' ∉ a.toList ∧ ∀ c ∈ a.toList, c ∈ v.toList ∧ c ≠ '?' := by
  have hmem := mem_clean h
  refine ⟨(clean_isClean _ a h).1, not_mem_of_mem_components hmem, fun c hc => ?_⟩
  have hpath := mem_of_mem_component hmem hc
  rw [String.toList_ofList] at hpath
  exact ⟨(List.takeWhile_prefix _).subset hpath, by
    simpa using List.all_eq_true.mp (List.all_takeWhile (p := (· != '?')) (l := v.toList)) c hpath⟩

theorem pathOf_rooted {v : String} (h : v.toList.head? = some '/') :
    (pathOf v).head? = some '/' := by
  cases hv : v.toList with
  | nil => simp [hv] at h
  | cons c cs =>
    simp only [hv, List.head?_cons, Option.some.injEq] at h
    subst h
    simp [pathOf, hv]

/-- Of a destination that passes, the path is cleaned and the query is kept. -/
theorem redirect_eq {v : String} (h : Passes v) :
    (redirect v).toList = hexEscapeNonASCII (target v) := by
  have habs : isAbs (String.ofList (pathOf v)) = true := by
    simp [isAbs, pathOf_rooted h.rooted]
  have hclean : (cleanPath (String.ofList (pathOf v))).toList =
      '/' :: (slashed (names v)).toList := by
    rw [cleanPath_rooted habs]
    simp [names]
  have htrail : (if ((pathOf v).getLast? == some '/' &&
        ('/' :: (slashed (names v)).toList).getLast? != some '/') = true
      then '/' :: (slashed (names v)).toList ++ ['/'] else '/' :: (slashed (names v)).toList) =
      '/' :: ((slashed (names v)).toList ++ trail v) := by
    by_cases hnames : names v = []
    · simp [hnames, trail]
    · obtain ⟨c, hlast, hc⟩ := getLast_slashed hnames fun a ha =>
        ⟨(names_spec ha).1, (names_spec ha).2.1⟩
      have hne : (slashed (names v)).toList ≠ [] := by
        intro hnil
        simp [hnil] at hlast
      rw [List.getLast?_cons_of_ne_nil hne, hlast]
      by_cases hend : (pathOf v).getLast? = some '/' <;> simp [trail, hnames, hend, hc]
  have hcleaned : cleaned v = target v := by
    unfold cleaned
    dsimp only
    rw [hclean, htrail]
    rfl
  rw [redirect, parse_eq h.plain h.path h.fragment]
  simp [hcleaned]

/-! ## What the target is under -/

/-- Escaping leaves a beginning in ASCII without a percent sign. -/
theorem prefix_hexEscape (p : List Char) (hp : ∀ c ∈ p, c.toNat < 128 ∧ c ≠ '%') :
    ∀ cs, p <+: hexEscapeNonASCII cs ↔ p <+: cs := by
  induction p with
  | nil => simp
  | cons a p ih =>
    intro cs
    obtain ⟨⟨hascii, hpercent⟩, hrest⟩ := List.forall_mem_cons.mp hp
    cases cs with
    | nil => simp [hexEscapeNonASCII]
    | cons c cs =>
      have hcons : hexEscapeNonASCII (c :: cs) =
          (if c.toNat < 128 then [c] else ['%', hexDigit (c.toNat / 16), hexDigit c.toNat]) ++
            hexEscapeNonASCII cs := rfl
      rw [hcons]
      by_cases hc : c.toNat < 128
      · rw [if_pos hc, List.singleton_append, List.cons_prefix_cons, List.cons_prefix_cons,
          ih hrest cs]
      · rw [if_neg hc, List.cons_append, List.cons_prefix_cons, List.cons_prefix_cons]
        exact ⟨fun h => absurd h.1 hpercent, fun h => absurd (h.1 ▸ hascii) hc⟩

/-- A name at the beginning of a text, and a slash after it. -/
theorem name_slash_prefix (p : List Char) (hp : ∀ c ∈ p, c ≠ '/' ∧ c ≠ '?') :
    ∀ name tail : List Char, '/' ∉ name → (∀ c, tail.head? = some c → c = '/' ∨ c = '?') →
      (p ++ ['/'] <+: name ++ tail ↔ name = p ∧ tail.head? = some '/') := by
  induction p with
  | nil =>
    intro name tail hname _
    cases name with
    | nil => cases tail <;> simp [eq_comm]
    | cons c name =>
      have hc : c ≠ '/' := fun hc => hname (hc ▸ List.mem_cons_self)
      simp [Ne.symm hc]
  | cons a p ih =>
    intro name tail hname htail
    obtain ⟨⟨hslash, hquery⟩, hrest⟩ := List.forall_mem_cons.mp hp
    cases name with
    | nil =>
      cases tail with
      | nil => simp
      | cons c tail =>
        have hc : a ≠ c := by
          rintro rfl
          exact (htail a rfl).elim hslash hquery
        simp [hc]
    | cons c name =>
      rw [List.cons_append, List.cons_append, List.cons_prefix_cons,
        ih hrest name tail (fun hn => hname (List.mem_cons_of_mem _ hn)) htail, List.cons.injEq,
        and_assoc, eq_comm]

/-- The first name of the target, and what follows it. -/
theorem target_split (v : String) : ∃ name tail, target v = '/' :: (name ++ tail) ∧
    (∀ c, tail.head? = some c → c = '/' ∨ c = '?') ∧
    (tail.head? = some '/' ↔
      2 ≤ (names v).length ∨ names v ≠ [] ∧ (pathOf v).getLast? = some '/') ∧
    name = ((names v).head?.getD "").toList := by
  have hquery : ∀ c, (query v).head? = some c → c = '?' := by
    intro c hc
    have h := List.head?_dropWhile_not (· != '?') v.toList
    rw [query] at hc
    rw [hc] at h
    simpa using h
  have htrail : ∀ c, (trail v ++ query v).head? = some c → c = '/' ∨ c = '?' := by
    intro c
    unfold trail
    split
    · simpa using fun h => .inl (Eq.symm h)
    · exact fun h => .inr (hquery c h)
  have hslash : (trail v ++ query v).head? = some '/' ↔
      names v ≠ [] ∧ (pathOf v).getLast? = some '/' := by
    unfold trail
    split
    · next hend => simp [hend]
    · next hend => exact ⟨fun h => (nomatch hquery _ h), fun h => absurd h hend⟩
  cases hnames : names v with
  | nil =>
    refine ⟨[], trail v ++ query v, by simp [target, hnames], htrail, ?_, rfl⟩
    rw [hslash, hnames]
    simp
  | cons a rest =>
    cases rest with
    | nil =>
      refine ⟨a.toList, trail v ++ query v, by simp [target, hnames], htrail, ?_, rfl⟩
      rw [hslash, hnames]
      simp
    | cons b rest =>
      refine ⟨a.toList, '/' :: ((slashed (b :: rest)).toList ++ trail v ++ query v),
        by simp [target, hnames], ?_, by simp, rfl⟩
      rintro c ⟨⟩
      exact .inl rfl

theorem entersApi_iff (v : String) : EntersApi v ↔ (names v).head? = some "api" ∧
    (2 ≤ (names v).length ∨ (pathOf v).getLast? = some '/') := by
  have hplain : Plain "api" := by decide
  constructor
  · rintro ⟨after, henters, hend⟩
    have hnames : names v = "api" :: clean after := henters.clean_eq hplain
    rw [hnames, List.length_cons, length_clean]
    exact ⟨rfl, hend.imp_left (by omega)⟩
  · rintro ⟨hhead, hend⟩
    obtain ⟨after, henters⟩ := (head_clean_iff hplain _).mp hhead
    have hnames : names v = "api" :: clean after := henters.clean_eq hplain
    rw [hnames, List.length_cons, length_clean] at hend
    exact ⟨after, henters, hend.imp_left (by omega)⟩

/-- The target is under `/api/` when the path enters `api`. -/
theorem underApi_target (v : String) : UnderApi (hexEscapeNonASCII (target v)) ↔ EntersApi v := by
  obtain ⟨name, tail, htarget, htail, hslash, hname⟩ := target_split v
  have hsplit : "/api/".toList = '/' :: ("api".toList ++ ['/']) := rfl
  have hnoslash : '/' ∉ name := by
    rw [hname]
    cases hnames : names v with
    | nil => simp
    | cons a rest => simpa using (names_spec (v := v) (hnames ▸ List.mem_cons_self)).2.1
  rw [UnderApi, prefix_hexEscape _ (by simp), htarget, hsplit, List.cons_prefix_cons,
    name_slash_prefix _ (by simp) name tail hnoslash htail, hslash, entersApi_iff, hname]
  cases hnames : names v with
  | nil => simp
  | cons a rest =>
    simp only [true_and, List.head?_cons, Option.getD_some, Option.some.injEq, ne_eq,
      reduceCtorEq, not_false_eq_true]
    rw [String.toList_inj]

/-! ## The origin -/

theorem hexDigit_plain (n : Nat) : control (hexDigit n) = false := by
  have hall : ∀ k < 16, control ("0123456789abcdef".toList.getD k '0') = false := by decide
  exact hall _ (Nat.mod_lt n (by decide))

theorem hexEscape_plain {cs : List Char} (h : ∀ c ∈ cs, control c = false) :
    ∀ c ∈ hexEscapeNonASCII cs, control c = false := by
  intro c hc
  obtain ⟨d, hd, hc⟩ := List.mem_flatMap.mp hc
  split at hc
  · rw [List.mem_singleton.mp hc]
    exact h d hd
  · simp only [List.mem_cons, List.not_mem_nil, or_false] at hc
    rcases hc with rfl | rfl | rfl
    · rfl
    · exact hexDigit_plain _
    · exact hexDigit_plain _

/-- The target has the characters of the destination. -/
theorem mem_target {v : String} (h : Passes v) {c : Char} (hc : c ∈ target v) : c ∈ v.toList := by
  have hslash : '/' ∈ v.toList := List.mem_of_mem_head? h.rooted
  unfold target at hc
  rw [List.mem_cons, List.mem_append, List.mem_append] at hc
  rcases hc with rfl | (hname | htrail) | hquery
  · exact hslash
  · rcases mem_slashed hname with rfl | ⟨a, ha, hca⟩
    · exact hslash
    · exact ((names_spec ha).2.2 c hca).1
  · unfold trail at htrail
    split at htrail
    · exact List.mem_singleton.mp htrail ▸ hslash
    · exact (nomatch htrail)
  · exact (List.dropWhile_suffix _).subset hquery

theorem hexEscape_cons {c : Char} (hc : c.toNat < 128) (cs : List Char) :
    hexEscapeNonASCII (c :: cs) = c :: hexEscapeNonASCII cs := by
  simp [hexEscapeNonASCII, hc]

theorem hexEscape_head (cs : List Char) {c : Char} (hc : c.toNat < 128) (hpercent : c ≠ '%')
    (h : (hexEscapeNonASCII cs).head? = some c) : cs.head? = some c := by
  have hpre : [c] <+: hexEscapeNonASCII cs := by
    cases hcs : hexEscapeNonASCII cs with
    | nil => simp [hcs] at h
    | cons d ds => simpa [hcs, eq_comm] using h
  rw [prefix_hexEscape [c] (by simpa using ⟨hc, hpercent⟩)] at hpre
  obtain ⟨rest, rfl⟩ := hpre
  rfl

theorem atOrigin_target {v : String} (h : Passes v) : AtOrigin (hexEscapeNonASCII (target v)) := by
  refine ⟨⟨hexEscapeNonASCII ((slashed (names v)).toList ++ trail v ++ query v),
    hexEscape_cons (by decide) _,
    fun hslash => ?_, fun hback => ?_⟩, hexEscape_plain fun c hc => h.plain c (mem_target h hc)⟩
  · -- the first name is none that begins with a slash, and without a name the query follows
    have hhead := hexEscape_head _ (by decide) (by decide) hslash
    obtain ⟨name, tail, htarget, -, htail, hname⟩ := target_split v
    have hrest := List.cons.inj htarget |>.2
    rw [hrest] at hhead
    cases hnames : names v with
    | nil =>
      rw [hnames] at hname htail
      subst hname
      exact absurd (htail.mp hhead) (by simp)
    | cons a rest =>
      have ha := names_spec (v := v) (hnames ▸ List.mem_cons_self : a ∈ names v)
      rw [hnames] at hname
      subst hname
      simp only [List.head?_cons, Option.getD_some] at hhead
      cases hal : a.toList with
      | nil => exact ha.1 (by simpa using hal)
      | cons c cs =>
        rw [hal, List.cons_append, List.head?_cons, Option.some.injEq] at hhead
        exact ha.2.1 (by simp [hal, hhead])
  · have hhead := hexEscape_head _ (by decide) (by decide) hback
    exact h.backslash (mem_target h (List.mem_cons_of_mem _ (List.mem_of_mem_head? hhead)))

example : sanitizeNext "//host/board" = "" := by
  decide +kernel

end Auth
