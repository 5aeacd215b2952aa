import FusionLocalServer.Lib.Run
import FusionLocalServer.Lib.Search
import FusionLocalServer.Lib.Threads
import FusionLocalServer.Login.Stores

/-!
# Refreshing a token (`sessionToken` of `server/auth.go`)

Autodesk takes a refresh token once and answers with the next one. The requests of a session
share its token, so each takes `refreshMu`, looks whether the token is still good, and only
then sends the refresh token; it keeps the lock until the new token is stored and written out.
The steps of the requests come in any order, those of other calls of `persist` in between, and
the process may end at any of them.

- `refresh_sent_once`: a refresh token that was answered is not sent again, and after an answer
  none is sent before the new token is about to expire; there is one request under way at a time.
  This takes that the process does not end before an answered token is in the file.
- `sent_twice`: otherwise the next process sends the old one again.
-/

namespace FusionLocalServer.Login.Refresh

open Lib

/-- A token about to expire counts as expired. -/
def skew : Int := 30 * second

/-- `TokenData.Valid`, for a token that may be missing. -/
def valid (now : Int) : Option TokenData → Bool
  | none => false
  | some td => td.accessToken ≠ "" && now < td.expiresAt - skew

/-- Where a request stands. -/
inductive Phase where
  | waiting
  | locked
  /-- Its refresh token is on its way. -/
  | calling (cur : TokenData)
  /-- The new token is stored, and to be written out. -/
  | persisting
  | done (accessToken : Option String)
  deriving DecidableEq

/-- What Autodesk has seen of the session, and what came back. -/
inductive Entry where
  | sent (cur : TokenData) (at' : Int)
  | answered (cur td : TokenData)
  deriving DecidableEq

def Entry.sent? : Entry → Option TokenData
  | .sent cur _ => some cur
  | .answered _ _ => none

structure World where
  now : Int
  token : Option TokenData
  lock : Option Nat := none
  requests : List Phase := []
  /-- The call of `persist` that writes, a request or another, and the token it has read. -/
  saving : Option (Option Nat × Option TokenData) := none
  file : Option TokenData
  /-- History, the newest first. -/
  log : List Entry := []
  deriving DecidableEq

inductive Event where
  | tick (elapsed : Nat)
  | request
  | enter (request : Nat)
  /-- It looks at the token. -/
  | check (request : Nat)
  /-- The answer to its refresh token, if one came. -/
  | answer (request : Nat) (td : Option TokenData)
  /-- A request that is to, or another caller, takes its snapshot. -/
  | snapshot (request : Option Nat)
  | write (ok : Bool)
  | restart
  deriving DecidableEq

namespace World

/-- A request leaves. -/
def leave (w : World) (i : Nat) (accessToken : Option String) : World :=
  { w with requests := w.requests.set i (.done accessToken), lock := none }

def step (w : World) : Event → Option World
  | .tick elapsed => some { w with now := w.now + elapsed }
  | .request => some { w with requests := w.requests ++ [.waiting] }
  | .enter i =>
    match w.requests[i]?, w.lock with
    | some .waiting, none => some { w with requests := w.requests.set i .locked, lock := some i }
    | _, _ => none
  | .check i =>
    match w.requests[i]? with
    | some .locked =>
      match w.token with
      | none => some (w.leave i none)
      | some cur =>
        if valid w.now (some cur) then some (w.leave i (some cur.accessToken))
        else if cur.refreshToken = "" then some (w.leave i none)
        else
          some { w with requests := w.requests.set i (.calling cur), log := .sent cur w.now :: w.log }
    | _ => none
  | .answer i td =>
    match w.requests[i]? with
    | some (.calling cur) =>
      match td with
      | none => some (w.leave i none)
      | some td =>
        some { w with
          token := td, requests := w.requests.set i .persisting, log := .answered cur td :: w.log }
    | _ => none
  | .snapshot request =>
    if w.saving = none ∧ ∀ i ∈ request, w.requests[i]? = some .persisting then
      some { w with saving := some (request, w.token) }
    else none
  | .write ok =>
    match w.saving with
    | some (request, read) =>
      let w := { w with saving := none, file := if ok then read else w.file }
      some (request.elim w fun i => w.leave i (w.token.map (·.accessToken)))
    | none => none
  | .restart => some { w with token := w.file, lock := none, requests := [], saving := none }

/-- A new token is another one, and the process ends with its token in the file. -/
def Rotates (w : World) : Event → Prop
  | .answer _ (some td) => td.accessToken ≠ "" ∧
      ∀ entry ∈ w.log, ∀ cur ∈ entry.sent?, cur.refreshToken ≠ td.refreshToken
  | .restart => w.file = w.token
  | _ => True

instance (w : World) (e : Event) : Decidable (w.Rotates e) := by
  unfold Rotates
  split <;> infer_instance

end World

/-! ## One at a time -/

/-- The requests that are between taking the lock and leaving. -/
def Phase.inside : Phase → Bool
  | .locked | .calling _ | .persisting => true
  | .waiting | .done _ => false

/-- What came after what is in order. -/
def Follows (later earlier : Entry) : Prop :=
  ∀ cur td, earlier = .answered cur td → ∀ cur' t, later = .sent cur' t →
    cur'.refreshToken ≠ cur.refreshToken ∧ td.expiresAt - skew ≤ t

structure Inv (w : World) : Prop where
  lock : ∀ (i : Nat) (p : Phase), w.requests[i]? = some p → p.inside = true → w.lock = some i
  /-- What is on its way is the token, and it has expired. -/
  calling : ∀ (i : Nat) (cur : TokenData), w.requests[i]? = some (Phase.calling cur) →
    w.token = some cur ∧ (∃ t, .sent cur t ∈ w.log) ∧ valid w.now (some cur) = false
  answered : ∀ cur td, .answered cur td ∈ w.log →
    td.accessToken ≠ "" ∧ (∃ t, .sent cur t ∈ w.log) ∧
      (w.token = some td ∨ td.expiresAt - skew ≤ w.now) ∧
      ∀ tk, w.token = some tk → tk.refreshToken ≠ cur.refreshToken
  log : w.log.Pairwise Follows
  saving : ∀ (i : Nat) (read : Option TokenData), w.saving = some (some i, read) → w.requests[i]? = some .persisting

variable {w w' : World} {e : Event} {es : List Event}

theorem valid_false {now : Int} {td : TokenData} (h : valid now (some td) = false)
    (haccess : td.accessToken ≠ "") : td.expiresAt - skew ≤ now := by
  simp only [valid, Bool.and_eq_false_iff, decide_eq_false_iff_not, not_not] at h
  rcases h with hempty | hexpired
  · exact absurd hempty haccess
  · exact Int.not_lt.mp hexpired

theorem valid_later {now now' : Int} {td : TokenData} (h : valid now (some td) = false)
    (hle : now ≤ now') : valid now' (some td) = false := by
  simp only [valid, Bool.and_eq_false_iff, decide_eq_false_iff_not] at h ⊢
  rcases h with hempty | hexpired
  · exact .inl hempty
  · exact .inr (by omega)

namespace Inv

/-- Whoever is inside is alone. -/
theorem alone (h : Inv w) {i j : Nat} {p q : Phase} (hi : w.requests[i]? = some p)
    (hp : p.inside = true) (hj : w.requests[j]? = some q) (hq : q.inside = true) : j = i :=
  Option.some.inj ((h.lock j q hj hq).symm.trans (h.lock i p hi hp))

/-- A request that is written out waits for it. -/
theorem kept (h : Inv w) {i : Nat} {p y : Phase} (hi : w.requests[i]? = some p)
    (hp : p ≠ .persisting) {j : Nat} {read : Option TokenData}
    (hj : w.saving = some (some j, read)) : (w.requests.set i y)[j]? = some .persisting := by
  have hne : i ≠ j := by
    rintro rfl
    exact hp (Option.some.inj (hi.symm.trans (h.saving i read hj)))
  rw [List.getElem?_set_ne hne]
  exact h.saving j read hj

/-- The one inside leaves. -/
theorem leave (h : Inv w) {i : Nat} {p : Phase} (hi : w.requests[i]? = some p)
    (hp : p.inside = true) (hidle : p ≠ .persisting ∨ w.saving = none) (accessToken : Option String) :
    Inv (w.leave i accessToken) where
  lock j q hj hq := by
    obtain ⟨rfl, rfl⟩ | ⟨hne, hj⟩ := getElem?_set_cases hj
    · cases hq
    · exact absurd (h.alone hi hp hj hq) hne
  calling j cur hj := by
    obtain ⟨-, heq⟩ | ⟨-, hj⟩ := getElem?_set_cases hj
    · cases heq
    · exact h.calling j cur hj
  answered := h.answered
  log := h.log
  saving j read hj := by
    rcases hidle with hp | hnone
    · exact h.kept hi hp hj
    · exact absurd (hnone.symm.trans hj) (by simp)

theorem enter (h : Inv w) {i : Nat} (hi : w.requests[i]? = some .waiting) (hfree : w.lock = none) :
    Inv { w with requests := w.requests.set i .locked, lock := some i } where
  lock j q hj hq := by
    obtain ⟨rfl, -⟩ | ⟨-, hj⟩ := getElem?_set_cases hj
    · rfl
    · -- nobody was inside
      rw [h.lock j q hj hq] at hfree
      cases hfree
  calling j cur hj := by
    obtain ⟨-, heq⟩ | ⟨-, hj⟩ := getElem?_set_cases hj
    · cases heq
    · exact h.calling j cur hj
  answered := h.answered
  log := h.log
  saving j read hj := h.kept hi (by simp) hj

theorem call (h : Inv w) {i : Nat} {cur : TokenData} (hi : w.requests[i]? = some .locked)
    (htoken : w.token = some cur) (hexpired : valid w.now (some cur) = false) :
    Inv { w with requests := w.requests.set i (.calling cur), log := .sent cur w.now :: w.log } where
  lock j q hj hq := by
    obtain ⟨rfl, -⟩ | ⟨-, hj⟩ := getElem?_set_cases hj
    · exact h.lock j _ hi rfl
    · exact h.lock j q hj hq
  calling j cur' hj := by
    obtain ⟨rfl, heq⟩ | ⟨hne, hj⟩ := getElem?_set_cases hj
    · cases heq
      exact ⟨htoken, ⟨w.now, List.mem_cons_self⟩, hexpired⟩
    · exact absurd (h.alone hi rfl hj rfl) hne
  answered cur' td hmem := by
    rcases List.mem_cons.mp hmem with heq | hmem
    · cases heq
    · obtain ⟨haccess, ⟨t, ht⟩, rest⟩ := h.answered cur' td hmem
      exact ⟨haccess, ⟨t, List.mem_cons_of_mem _ ht⟩, rest⟩
  log := by
    refine List.pairwise_cons.mpr ⟨fun earlier hearlier => ?_, h.log⟩
    rintro cur' td rfl cur'' t hsent
    cases hsent
    obtain ⟨haccess, -, hpast, hother⟩ := h.answered cur' td hearlier
    refine ⟨hother cur htoken, ?_⟩
    -- the token is the one that was answered, and has expired, or a later one
    rcases hpast with hsame | hpast
    · rw [htoken] at hsame
      cases hsame
      exact valid_false hexpired haccess
    · exact hpast
  saving j read hj := h.kept hi (by simp) hj

theorem answer (h : Inv w) {i : Nat} {cur td : TokenData}
    (hi : w.requests[i]? = some (.calling cur)) (haccess : td.accessToken ≠ "")
    (hfresh : ∀ cur t, .sent cur t ∈ w.log → cur.refreshToken ≠ td.refreshToken) :
    Inv { w with
      token := some td, requests := w.requests.set i .persisting, log := .answered cur td :: w.log } := by
  obtain ⟨htoken, ⟨t, ht⟩, hexpired⟩ := h.calling i cur hi
  constructor
  case lock =>
    intro j q hj hq
    obtain ⟨rfl, -⟩ | ⟨-, hj⟩ := getElem?_set_cases hj
    · exact h.lock j _ hi rfl
    · exact h.lock j q hj hq
  case calling =>
    intro j cur' hj
    obtain ⟨-, heq⟩ | ⟨hne, hj⟩ := getElem?_set_cases hj
    · cases heq
    · exact absurd (h.alone hi rfl hj rfl) hne
  case answered =>
    intro cur' td' hmem
    rcases List.mem_cons.mp hmem with heq | hmem
    · cases heq
      refine ⟨haccess, ⟨t, List.mem_cons_of_mem _ ht⟩, .inl rfl, ?_⟩
      rintro tk ⟨⟩
      exact (hfresh cur t ht).symm
    · obtain ⟨haccess', ⟨t', ht'⟩, hpast, -⟩ := h.answered cur' td' hmem
      refine ⟨haccess', ⟨t', List.mem_cons_of_mem _ ht'⟩, .inr ?_, ?_⟩
      · rcases hpast with hsame | hpast
        · rw [htoken] at hsame
          cases hsame
          exact valid_false hexpired haccess'
        · exact hpast
      · rintro tk ⟨⟩
        exact (hfresh cur' t' ht').symm
  case log =>
    refine List.pairwise_cons.mpr ⟨fun earlier _ => ?_, h.log⟩
    rintro cur' td' - cur'' t hsent
    cases hsent
  case saving => exact fun j read hj => h.kept hi (by simp) hj

theorem step (h : Inv w) (hrot : w.Rotates e) (hstep : w.step e = some w') : Inv w' := by
  cases e with
  | tick elapsed =>
    cases hstep
    have hlater : w.now ≤ w.now + elapsed := by omega
    refine ⟨h.lock, fun i cur hi => ?_, fun cur td hmem => ?_, h.log, h.saving⟩
    · obtain ⟨htoken, hsent, hexpired⟩ := h.calling i cur hi
      exact ⟨htoken, hsent, valid_later hexpired hlater⟩
    · obtain ⟨haccess, hsent, hpast, hother⟩ := h.answered cur td hmem
      exact ⟨haccess, hsent, hpast.imp_right fun hle => Int.le_trans hle hlater, hother⟩
  | request =>
    cases hstep
    refine ⟨fun i p hi hp => ?_, fun i cur hi => ?_, h.answered, h.log, fun i read hi => ?_⟩
    · obtain hi | ⟨-, rfl⟩ := getElem?_snoc.mp hi
      · exact h.lock i p hi hp
      · cases hp
    · obtain hi | ⟨-, heq⟩ := getElem?_snoc.mp hi
      · exact h.calling i cur hi
      · cases heq
    · have hold := h.saving i read hi
      exact (List.getElem?_append_left (List.getElem?_eq_some_iff.mp hold).1).trans hold
  | enter i =>
    simp only [World.step] at hstep
    split at hstep
    · next hi hfree =>
      cases hstep
      exact h.enter hi hfree
    · cases hstep
  | check i =>
    simp only [World.step] at hstep
    split at hstep
    · next hi =>
      split at hstep
      · cases hstep
        exact h.leave hi rfl (.inl (by simp)) _
      · next cur htoken =>
        split at hstep
        · cases hstep
          exact h.leave hi rfl (.inl (by simp)) _
        · next hexpired =>
          split at hstep
          · cases hstep
            exact h.leave hi rfl (.inl (by simp)) _
          · cases hstep
            exact h.call hi htoken (Bool.eq_false_iff.mpr hexpired)
    · cases hstep
  | answer i td =>
    simp only [World.step] at hstep
    split at hstep
    · next cur hi =>
      cases td with
      | none =>
        cases hstep
        exact h.leave hi rfl (.inl (by simp)) _
      | some td =>
        cases hstep
        exact h.answer hi hrot.1 fun cur t ht => hrot.2 _ ht cur rfl
    · cases hstep
  | snapshot request =>
    simp only [World.step] at hstep
    split at hstep
    · next hfree =>
      cases hstep
      refine ⟨h.lock, h.calling, h.answered, h.log, fun i read hi => ?_⟩
      cases hi
      exact hfree.2 i rfl
    · cases hstep
  | write ok =>
    simp only [World.step] at hstep
    split at hstep
    · next request read hsaving =>
      cases hstep
      have hsaved : Inv { w with saving := none, file := if ok then read else w.file } :=
        ⟨h.lock, h.calling, h.answered, h.log, fun _ _ hi => (nomatch hi)⟩
      cases request with
      | none => exact hsaved
      | some i =>
        have hi := h.saving i read hsaving
        exact hsaved.leave hi rfl (.inr rfl) _
    · cases hstep
  | restart =>
    cases hstep
    have htoken : w.file = w.token := hrot
    refine ⟨fun _ _ hi => (nomatch hi), fun _ _ hi => (nomatch hi), fun cur td hmem => ?_, h.log,
      fun _ _ hi => (nomatch hi)⟩
    obtain ⟨haccess, hsent, hpast, hother⟩ := h.answered cur td hmem
    exact ⟨haccess, hsent, by rw [htoken]; exact hpast, by rw [htoken]; exact hother⟩

end Inv

/-- **A refresh token that was answered is not sent again**, nor any before the new token is
about to expire; and there is at most one on its way. -/
theorem refresh_sent_once {now : Int} {token : Option TokenData}
    (h : Run (fun w e w' => w.step e = some w') World.Rotates { now, token, file := token } es w) :
    w.log.Pairwise Follows ∧
    ∀ (i j : Nat) (cur cur' : TokenData), w.requests[i]? = some (Phase.calling cur) →
      w.requests[j]? = some (Phase.calling cur') → j = i := by
  have hinv : Inv w := by
    refine h.invariant ⟨?_, ?_, ?_, List.Pairwise.nil, ?_⟩ fun _ _ _ hinv hrot hstep =>
      hinv.step hrot hstep
    all_goals intros; contradiction
  exact ⟨hinv.log, fun i j cur cur' hi hj => hinv.alone hi rfl hj rfl⟩

/-! ### Two requests -/

/-- A token that has expired, and the one after it. -/
def first : TokenData := ⟨"access 1", "refresh 1", 0⟩
def next : TokenData := ⟨"access 2", "refresh 2", 60 * second⟩

/-- Two requests come with the token that has expired, and one after a restart. -/
def together : List Event :=
  [.request, .request, .enter 1, .check 1, .answer 1 (some next), .snapshot (some 1), .write true,
    .enter 0, .check 0, .restart, .request, .enter 0, .tick 40000000000, .check 0]

theorem refresh_sent_once_together : ∃ w : World,
    w.log = [.sent next (40 * second), .answered first next, .sent first 0] ∧
      w.log.Pairwise Follows := by
  have hrun : ∃ w, Run (fun w e w' => World.step w e = some w') World.Rotates
      { now := 0, token := some first, file := some first } together w ∧
      w.log = [.sent next (40 * second), .answered first next, .sent first 0] :=
    ⟨_, Run.of_exec together rfl, rfl⟩
  obtain ⟨w, hrun, hlog⟩ := hrun
  exact ⟨w, hlog, (refresh_sent_once hrun).1⟩

/-- **The process ends before the new token is in the file**: the next one sends the old one. -/
theorem sent_twice : ∃ (es : List Event) (w : World),
    Run (fun w e w' => World.step w e = some w') always
      { now := 0, token := some first, file := some first } es w ∧
    w.log = [.sent first 0, .answered first next, .sent first 0] :=
  ⟨[.request, .enter 0, .check 0, .answer 0 (some next), .restart, .request, .enter 0, .check 0], _,
    Run.of_exec _ rfl, rfl⟩

end FusionLocalServer.Login.Refresh
