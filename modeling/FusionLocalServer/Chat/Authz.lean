import FusionLocalServer.Chat.Channels
import Mathlib.Data.List.Forall2

/-!
# Who may do what in a project's chat (`chat/authz.go`)

The role of a caller is read off the project's roster, which is fetched with the caller's own
token: the first row that matches the caller, by user id or by e-mail, decides, and a caller
without a row has come in through a group. What was found is kept for a while, under the
caller's ids and the project's. A call is one step here; calls for the same caller that come
while the roster is fetched share what it gives.
-/

namespace FusionLocalServer.Chat

open Lib Std

/-- The cases of letters (`strings.EqualFold`, `ToUpper`, `ToLower`). -/
structure Casing where
  equalFold : String → String → Bool
  toUpper : String → String
  toLower : String → String

inductive Capability where
  | read
  | post
  | react
  | editOwn
  | createChannel
  | moderate
  deriving DecidableEq

def rankNone : Nat := 0
def rankRead : Nat := 1
def rankWrite : Nat := 2
def rankModerate : Nat := 3

/-- A role that is not known can do nothing. -/
def roleRank : String → Nat
  | "VIEWER" => rankRead
  | "READER" => rankRead
  | "EDITOR" => rankWrite
  | "MANAGER" => rankModerate
  | "ADMINISTRATOR" => rankModerate
  | _ => rankNone

def capRank : Capability → Nat
  | .read => rankRead
  | .post => rankWrite
  | .react => rankWrite
  | .editOwn => rankWrite
  | .createChannel => rankWrite
  | .moderate => rankModerate

/-- What a caller gets who is not on the roster. -/
def groupDerivedRank : Nat := rankWrite

/-- A row of the roster (`api.Member`). -/
structure Member where
  userID : String
  email : String
  role : String
  status : String
  deriving DecidableEq

structure Identity where
  userID : String
  email : String
  deriving DecidableEq

/-- What was found of a caller. -/
structure RoleEntry where
  role : String := ""
  listed : Bool := false
  active : Bool := false
  foundAt : Time
  deriving DecidableEq

def rankOf (e : RoleEntry) : Nat :=
  if e.listed then
    if e.active then roleRank e.role else rankNone
  else groupDerivedRank

def matchesMember (c : Casing) (m : Member) (id : Identity) : Bool :=
  (id.userID ≠ "" && m.userID = id.userID) || (id.email ≠ "" && c.equalFold m.email id.email)

/-- What one row comes to. -/
def grant (c : Casing) (m : Member) (now : Time) : RoleEntry :=
  if c.equalFold m.status "ACTIVE" then
    { listed := true, active := true, role := c.toUpper m.role, foundAt := now }
  else { listed := true, foundAt := now }

/-- The loop over the roster, up to the first row that matches. -/
def lookUp (c : Casing) (members : List Member) (id : Identity) (now : Time) : RoleEntry :=
  match members.find? fun m => matchesMember c m id with
  | some m => grant c m now
  | none => { foundAt := now }

structure Authorizer where
  ttl : Time := 60 * 1000000000
  negTTL : Time := 15 * 1000000000
  cache : ExtTreeMap String RoleEntry := ∅

/-- What is asked. -/
inductive Question where
  | can (cap : Capability)
  | canAccessChannel (ch : ChannelDef)
  | isActiveMember

/-- A call: who asks what, and when; and what fetching the roster comes to, with the time it
takes until then. -/
structure Query (ε : Type) where
  now : Time
  id : Identity
  projectID : String
  question : Question
  fetched : Except ε (List Member)
  fetchedAt : Time

def cacheKey (c : Casing) (id : Identity) (projectID : String) : String :=
  id.userID ++ "\x00" ++ c.toLower id.email ++ "\x00" ++ projectID

namespace Authorizer

variable {ε : Type}

/-- An entry that is not too old. -/
def recalled (c : Casing) (a : Authorizer) (q : Query ε) : Option RoleEntry :=
  match a.cache[cacheKey c q.id q.projectID]? with
  | none => none
  | some e =>
    let maxAge := if e.listed then a.ttl else a.negTTL
    if q.now - e.foundAt < maxAge then some e else none

def resolve (c : Casing) (a : Authorizer) (q : Query ε) : Authorizer × Except ε RoleEntry :=
  match a.recalled c q with
  | some e => (a, .ok e)
  | none =>
    match q.fetched with
    | .error e => (a, .error e)
    | .ok members =>
      let e := lookUp c members q.id q.fetchedAt
      ({ a with cache := a.cache.insert (cacheKey c q.id q.projectID) e }, .ok e)

/-- `Can`, `CanAccessChannel` and `IsActiveMember`, of what was found. -/
def answer (q : Query ε) (e : RoleEntry) : Bool :=
  match q.question with
  | .can cap => capRank cap ≤ rankOf e
  | .canAccessChannel ch =>
    if rankOf e < rankRead then false
    else if ¬ ch.isPrivate then true
    else if q.id.userID ≠ "" ∧ ch.members.any (fun m => m.userID = q.id.userID) then true
    else rankModerate ≤ rankOf e
  | .isActiveMember => e.active

/-- What is found, call after call. -/
def resolveAll (c : Casing) : Authorizer → List (Query ε) → List (Except ε RoleEntry)
  | _, [] => []
  | a, q :: qs =>
    match a.resolve c q with
    | (a, result) => result :: a.resolveAll c qs

def answers (c : Casing) (a : Authorizer) (qs : List (Query ε)) : List (Except ε Bool) :=
  (qs.zip (a.resolveAll c qs)).map fun (q, result) => result.map (answer q)

end Authorizer

/-! ## The row that decides -/

section Roster

variable {c : Casing} {id : Identity} {members members' : List Member} {m m' : Member} {now : Time}

/-- The row is under the caller's user id. -/
def Member.Carries (m : Member) (id : Identity) : Prop := id.userID ≠ "" ∧ m.userID = id.userID

def SameRows (members members' : List Member) : Prop := ∀ m, m ∈ members ↔ m ∈ members'

/-- Any two rows that match the caller come to the same. -/
def Agreeing (c : Casing) (id : Identity) (members : List Member) : Prop :=
  ∀ m ∈ members, ∀ m' ∈ members, matchesMember c m id = true → matchesMember c m' id = true →
    c.equalFold m.status "ACTIVE" = c.equalFold m'.status "ACTIVE" ∧
      (c.equalFold m.status "ACTIVE" = true → c.toUpper m.role = c.toUpper m'.role)

/-- The order of the rows does not matter, and a row under the caller's user id decides. -/
def Independent (c : Casing) (id : Identity) (members : List Member) (now : Time) : Prop :=
  (∀ members', SameRows members members' → lookUp c members' id now = lookUp c members id now) ∧
    ∀ m ∈ members, m.Carries id → lookUp c members id now = grant c m now

theorem Member.Carries.matches (h : m.Carries id) : matchesMember c m id = true := by
  unfold matchesMember
  rw [decide_eq_true h.1, decide_eq_true h.2]
  rfl

theorem grant_eq_iff : grant c m now = grant c m' now ↔
    c.equalFold m.status "ACTIVE" = c.equalFold m'.status "ACTIVE" ∧
      (c.equalFold m.status "ACTIVE" = true → c.toUpper m.role = c.toUpper m'.role) := by
  unfold grant
  cases c.equalFold m.status "ACTIVE" <;> cases c.equalFold m'.status "ACTIVE" <;> simp

/-- Where the rows agree, any row that matches decides. -/
theorem lookUp_of_matches (h : Agreeing c id members) (hm : m ∈ members)
    (hmatch : matchesMember c m id = true) : lookUp c members id now = grant c m now := by
  unfold lookUp
  cases hfirst : members.find? fun m => matchesMember c m id with
  | none => exact absurd hmatch (List.find?_eq_none.mp hfirst m hm)
  | some first =>
    have hmatches : matchesMember c first id = true :=
      List.find?_some (p := fun m => matchesMember c m id) hfirst
    exact grant_eq_iff.mpr (h first (List.mem_of_find?_eq_some hfirst) m hm hmatches hmatch)

theorem lookUp_of_none (h : ∀ m ∈ members, matchesMember c m id = false) :
    lookUp c members id now = { foundAt := now } := by
  unfold lookUp
  rw [List.find?_eq_none.mpr fun m hm => Bool.eq_false_iff.mp (h m hm)]

theorem Agreeing.of_sameRows (h : Agreeing c id members) (hsame : SameRows members members') :
    Agreeing c id members' :=
  fun m hm m' hm' => h m ((hsame m).mpr hm) m' ((hsame m').mpr hm')

variable (now) in
theorem lookUp_sameRows (h : Agreeing c id members) (hsame : SameRows members members') :
    lookUp c members' id now = lookUp c members id now := by
  by_cases hsome : ∃ m ∈ members, matchesMember c m id = true
  · obtain ⟨m, hm, hmatch⟩ := hsome
    rw [lookUp_of_matches h hm hmatch,
      lookUp_of_matches (h.of_sameRows hsame) ((hsame m).mp hm) hmatch]
  · have hnone : ∀ m ∈ members, matchesMember c m id = false :=
      fun m hm => Bool.eq_false_iff.mpr fun hmatch => hsome ⟨m, hm, hmatch⟩
    rw [lookUp_of_none hnone, lookUp_of_none fun m hm => hnone m ((hsame m).mpr hm)]

theorem independent_iff : Independent c id members now ↔ Agreeing c id members := by
  constructor
  · rintro ⟨hsame, -⟩ m hm m' hm' hmatch hmatch'
    -- either row can be made the first
    have hfirst : ∀ {m : Member}, m ∈ members → matchesMember c m id = true →
        lookUp c members id now = grant c m now := by
      intro m hm hmatch
      rw [← hsame (m :: members) fun m' => by
        constructor
        · exact List.mem_cons_of_mem m
        · rintro (_ | ⟨_, hm'⟩)
          · exact hm
          · exact hm']
      unfold lookUp
      rw [List.find?_cons_of_pos (p := fun m => matchesMember c m id) hmatch]
    exact grant_eq_iff.mp ((hfirst hm hmatch).symm.trans (hfirst hm' hmatch'))
  · exact fun h => ⟨fun _ hsame => lookUp_sameRows _ h hsame,
      fun m hm hcarries => lookUp_of_matches h hm hcarries.matches⟩

end Roster

/-! ## Call after call -/

/-- The rows that match the caller agree, and neither of the ids has a NUL in it. -/
structure Query.Clear {ε : Type} (c : Casing) (q : Query ε) : Prop where
  agreeing : ∀ members, q.fetched = .ok members → Agreeing c q.id members
  userID : '\x00' ∉ q.id.userID.toList
  email : '\x00' ∉ (c.toLower q.id.email).toList

/-- The same call, with the rows of the roster in another order. -/
inductive Query.Reordered {ε : Type} : Query ε → Query ε → Prop
  | rows {q : Query ε} {members members' : List Member} :
      q.fetched = .ok members → SameRows members members' →
      Query.Reordered q { q with fetched := .ok members' }
  | refl (q : Query ε) : Query.Reordered q q

namespace Authorizer

variable {ε : Type} {c : Casing} {a : Authorizer} {q q' : Query ε} {qs qs' : List (Query ε)}

theorem resolve_reordered (hq : q.Clear c) (h : q.Reordered q') :
    a.resolve c q' = a.resolve c q ∧ answer q' = answer q := by
  cases h with
  | refl => exact ⟨rfl, rfl⟩
  | @rows members members' hfetched hsame =>
    refine ⟨?_, rfl⟩
    have hsame' := lookUp_sameRows q.fetchedAt (hq.agreeing members hfetched) hsame
    show (match a.recalled c q with | some e => _ | none => _) = a.resolve c q
    unfold resolve
    rw [hfetched]
    dsimp only
    rw [hsame']

theorem answers_cons (a : Authorizer) (q : Query ε) (qs : List (Query ε)) :
    a.answers c (q :: qs) =
      (a.resolve c q).2.map (answer q) :: (a.resolve c q).1.answers c qs :=
  rfl

theorem answers_reordered (h : List.Forall₂ Query.Reordered qs qs') (hqs : ∀ q ∈ qs, q.Clear c) :
    ∀ a : Authorizer, a.answers c qs' = a.answers c qs := by
  induction h with
  | nil => exact fun a => rfl
  | @cons q q' qs qs' hq _ ih =>
    intro a
    obtain ⟨hresolve, hanswer⟩ := resolve_reordered (a := a) (hqs q List.mem_cons_self) hq
    have hrest := ih (fun q hmem => hqs q (List.mem_cons_of_mem _ hmem)) (a.resolve c q).1
    rw [answers_cons, answers_cons, hresolve, hanswer, hrest]

/-- What was found comes from a roster that was fetched for the same caller. -/
def Sourced (c : Casing) (asked : List (Query ε)) (key : String) (e : RoleEntry) : Prop :=
  ∃ q ∈ asked, cacheKey c q.id q.projectID = key ∧
    ∃ members, q.fetched = .ok members ∧ e = lookUp c members q.id q.fetchedAt

theorem Sourced.mono {asked asked' : List (Query ε)} {key : String} {e : RoleEntry}
    (h : Sourced c asked key e) (hsub : asked ⊆ asked') : Sourced c asked' key e := by
  obtain ⟨q, hq, hkey, hfound⟩ := h
  exact ⟨q, hsub hq, hkey, hfound⟩

/-- All that is kept has been fetched. -/
def Fetched (c : Casing) (a : Authorizer) (asked : List (Query ε)) : Prop :=
  ∀ (key : String) e, a.cache[key]? = some e → Sourced c asked key e

theorem recalled_cached {e : RoleEntry} (h : a.recalled c q = some e) :
    a.cache[cacheKey c q.id q.projectID]? = some e := by
  unfold recalled at h
  split at h
  · cases h
  · next e' hcached =>
    dsimp only at h
    by_cases hage : q.now - e'.foundAt < if e'.listed then a.ttl else a.negTTL
    · rw [if_pos hage] at h
      exact hcached.trans h
    · rw [if_neg hage] at h
      cases h

theorem Fetched.resolve {asked : List (Query ε)} (h : Fetched c a asked) (q : Query ε) :
    Fetched c (a.resolve c q).1 (asked ++ [q]) ∧
      ∀ e, (a.resolve c q).2 = .ok e → Sourced c (asked ++ [q]) (cacheKey c q.id q.projectID) e := by
  have hkeep : Fetched c a (asked ++ [q]) :=
    fun key e he => (h key e he).mono (List.subset_append_left ..)
  unfold Authorizer.resolve
  split
  · next e hrecall =>
    refine ⟨hkeep, ?_⟩
    rintro _ ⟨⟩
    exact hkeep _ e (recalled_cached hrecall)
  · split
    · exact ⟨hkeep, fun _ he => (nomatch he)⟩
    · next members hfetched =>
      have hnew : Sourced c (asked ++ [q]) (cacheKey c q.id q.projectID)
          (lookUp c members q.id q.fetchedAt) :=
        ⟨q, List.mem_append_right _ List.mem_cons_self, rfl, members, hfetched, rfl⟩
      refine ⟨fun key e he => ?_, ?_⟩
      · rw [ExtTreeMap.getElem?_insert] at he
        split at he
        · next hkey =>
          cases he
          rw [Std.LawfulEqCmp.eq_of_compare hkey] at hnew
          exact hnew
        · exact hkeep key e he
      · rintro _ ⟨⟩
        exact hnew

theorem Fetched.resolveAll {asked : List (Query ε)} (h : Fetched c a asked) :
    ∀ (n : Nat) (q : Query ε) e, (qs.zip (a.resolveAll c qs))[n]? = some (q, .ok e) →
      Sourced c (asked ++ qs.take (n + 1)) (cacheKey c q.id q.projectID) e := by
  induction qs generalizing a asked with
  | nil => exact fun n q e he => (nomatch he)
  | cons first rest ih =>
    intro n q e he
    obtain ⟨hnext, hfound⟩ := h.resolve first
    cases n with
    | zero =>
      have hfirst : (first, (a.resolve c first).2) = (q, .ok e) := Option.some.inj he
      obtain ⟨rfl, hresult⟩ := Prod.mk.inj hfirst
      exact hfound e hresult
    | succ n =>
      have hlater := ih hnext n q e he
      rwa [List.append_assoc, List.singleton_append] at hlater

/-- The parts of a key are told apart by the NULs in it. -/
theorem cacheKey_inj (hq : q.Clear c) (hq' : q'.Clear c)
    (h : cacheKey c q.id q.projectID = cacheKey c q'.id q'.projectID) :
    q.id.userID = q'.id.userID ∧ q.projectID = q'.projectID := by
  have hlist := congrArg String.toList h
  unfold cacheKey at hlist
  simp only [String.toList_append, List.append_assoc] at hlist
  have hnul : "\x00".toList = ['\x00'] := rfl
  rw [hnul, List.singleton_append, List.singleton_append, List.singleton_append,
    List.singleton_append] at hlist
  obtain ⟨huser, hrest⟩ := append_sep_inj hq.userID hq'.userID hlist
  obtain ⟨-, hproject⟩ := append_sep_inj hq.email hq'.email hrest
  exact ⟨String.toList_inj.mp huser, String.toList_inj.mp hproject⟩

/-- **The roster decides, and not its order.** What a roster comes to for a caller depends on
its rows alone, and on the row under the caller's user id where there is one, if and only if
all rows that match the caller agree. Where they do, call after call: the same rows in another
order give the same answers, and what was found comes from a roster of the project, and from
the row in it that is under the caller's user id. -/
theorem roster_decides (c : Casing) :
    (∀ (id : Identity) (members : List Member) (now : Time),
      Independent c id members now ↔ Agreeing c id members) ∧
    ∀ (ttl negTTL : Time) (qs : List (Query ε)), (∀ q ∈ qs, q.Clear c) →
      (∀ qs', List.Forall₂ Query.Reordered qs qs' →
        answers c { ttl, negTTL } qs' = answers c { ttl, negTTL } qs) ∧
      ∀ (n : Nat) (q : Query ε) (e : RoleEntry),
        (qs.zip (resolveAll c { ttl, negTTL } qs))[n]? = some (q, .ok e) →
        ∃ q' ∈ qs.take (n + 1), q'.id.userID = q.id.userID ∧ q'.projectID = q.projectID ∧
          ∃ members, q'.fetched = .ok members ∧ e = lookUp c members q'.id q'.fetchedAt ∧
            ∀ m ∈ members, m.Carries q.id → e = grant c m q'.fetchedAt := by
  refine ⟨fun _ _ _ => independent_iff, fun ttl negTTL qs hqs =>
    ⟨fun qs' hreordered => answers_reordered hreordered hqs _, fun n q e hfound => ?_⟩⟩
  have hempty : Fetched c { ttl, negTTL } ([] : List (Query ε)) := fun key e he =>
    nomatch (show (none : Option RoleEntry) = some e from ExtTreeMap.getElem?_empty.symm.trans he)
  obtain ⟨q', hq', hkey, members, hfetched, rfl⟩ := hempty.resolveAll n q e hfound
  have hclear' : q'.Clear c := hqs q' (List.mem_of_mem_take hq')
  have hclear : q.Clear c := hqs q (List.of_mem_zip (List.mem_of_getElem? hfound)).1
  obtain ⟨huser, hproject⟩ := cacheKey_inj hclear' hclear hkey
  refine ⟨q', hq', huser, hproject, members, hfetched, rfl, fun m hm hcarries => ?_⟩
  have hcarries' : m.Carries q'.id := ⟨huser ▸ hcarries.1, hcarries.2.trans huser.symm⟩
  exact lookUp_of_matches (hclear'.agreeing members hfetched) hm hcarries'.matches

end Authorizer

/-! ### Two people with one e-mail -/

/-- The cases of ASCII letters. -/
def asciiCasing : Casing where
  equalFold a b := a.toList.map Char.toLower = b.toList.map Char.toLower
  toUpper s := String.ofList (s.toList.map Char.toUpper)
  toLower s := String.ofList (s.toList.map Char.toLower)

def manager : Member where
  userID := "u1"
  email := "team@example.com"
  role := "MANAGER"
  status := "ACTIVE"

/-- Someone else, under the same e-mail. -/
def reader : Member where
  userID := "u2"
  email := "team@example.com"
  role := "READER"
  status := "ACTIVE"

def readerID : Identity := { userID := "u2", email := "team@example.com" }

/-- A reader's question, with a roster that has the one row. -/
def asking : Query Unit where
  now := 0
  id := readerID
  projectID := "p"
  question := .can .moderate
  fetched := .ok [reader]
  fetchedAt := 0

theorem roster_decides_alone : Agreeing asciiCasing readerID [reader] ∧
    Authorizer.answers asciiCasing { ttl := 60, negTTL := 15 } [asking] = [.ok false] := by
  have hagreeing : Agreeing asciiCasing readerID [reader] := by
    intro m hm m' hm' _ _
    rw [List.mem_singleton.mp hm, List.mem_singleton.mp hm']
    exact ⟨rfl, fun _ => rfl⟩
  have hclear : asking.Clear asciiCasing := by
    refine ⟨?_, by decide, by decide⟩
    rintro _ ⟨⟩
    exact hagreeing
  obtain ⟨hiff, hrun⟩ := Authorizer.roster_decides (ε := Unit) asciiCasing
  have hsame := (hrun 60 15 [asking] fun q hq => List.mem_singleton.mp hq ▸ hclear).1 [asking]
    (.cons (.refl asking) .nil)
  exact ⟨(hiff readerID [reader] 0).mp ((hiff readerID [reader] 0).mpr hagreeing),
    hsame.symm.trans (by decide +kernel)⟩

/-- **A reader who shares an e-mail with a manager may moderate**, when the manager's row is
the first. -/
theorem reader_moderates :
    ¬ Independent asciiCasing readerID [manager, reader] 0 ∧
      rankOf (lookUp asciiCasing [manager, reader] readerID 0) = rankModerate ∧
      rankOf (lookUp asciiCasing [reader, manager] readerID 0) = rankRead := by
  refine ⟨fun h => ?_, by decide +kernel, by decide +kernel⟩
  have hrow := h.2 reader (by decide) ⟨by decide, rfl⟩
  have hrole : (lookUp asciiCasing [manager, reader] readerID 0).role ≠
      (grant asciiCasing reader 0).role := by decide +kernel
  exact hrole (congrArg RoleEntry.role hrow)

end FusionLocalServer.Chat
