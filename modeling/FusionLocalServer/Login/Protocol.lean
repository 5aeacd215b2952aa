import Mathlib.Data.List.Nodup
import FusionLocalServer.Auth.NextParam
import FusionLocalServer.Lib.Run
import FusionLocalServer.Lib.Threads
import FusionLocalServer.Login.Stores

/-!
# Logging in and out (`server/auth.go`, `server/session.go`, `server/session_persist.go`)

The server with its pending logins, its sessions and the session file. A handler runs in the
steps in which it takes the lock of a store: a callback takes the state of its login, asks
Autodesk for the token and the profile, and opens a session; whoever changes the sessions then
waits to write them out, and a write is a snapshot and, later, the file. The steps of any
number of requests come in any order, and the process may end between two of them.

- `admitted_logged_in`: who is let in has logged in, in a browser that holds the state of a
  login started at most five minutes before the callback, and no login lets in twice.
- `logged_out_gone`: once a logout is written out, its session does not come back, not even
  after a restart.
-/

namespace FusionLocalServer.Login

open Lib

/-- A login that was started: the state that was drawn for it, and when. -/
structure Started where
  state : String
  at' : Int
  deriving DecidableEq

/-- What a callback came with when it took a state. -/
structure Claim where
  state : String
  cookie : Option String
  takenAt : Int
  deriving DecidableEq

/-- A session that was opened, and for which callback. -/
structure Opened where
  id : String
  claim : Claim
  profile : UserProfile
  createdAt : Int
  deriving DecidableEq

/-- Where a callback stands. -/
inductive Callback where
  /-- It has taken its state, and asks for the token and the profile. -/
  | taken (claim : Claim) (entry : PendingEntry)
  /-- The user may log in; the session comes next. -/
  | allowed (claim : Claim) (td : TokenData) (profile : UserProfile)
  | done
  deriving DecidableEq

def Callback.claim? : Callback → Option Claim
  | .taken claim _ => some claim
  | .allowed claim _ _ => some claim
  | .done => none

/-- The parameters of a callback; one that is missing is empty. -/
structure Query where
  error : String := ""
  state : String := ""
  code : String := ""
  deriving DecidableEq

structure World where
  now : Int := 0
  adminUsers : List String := []
  pending : PendingStore := fun _ => none
  sessions : SessionStore := fun _ => none
  callbacks : List Callback := []
  /-- The calls of `persist` that wait, each with the session it has deleted if it has. -/
  waiting : List (Option String) := []
  /-- The call that writes, and its snapshot. -/
  saving : Option (Option String × SessionStore) := none
  /-- The sessions in the file. -/
  file : SessionStore := fun _ => none
  /-- History: the logins started, the sessions opened, and the ids of those whose deletion
  was written out. -/
  started : List Started := []
  opened : List Opened := []
  loggedOut : List String := []

inductive Event where
  | tick (elapsed : Nat)
  /-- `handleAuthLogin`, with the state and the verifier that were drawn. -/
  | login (state verifier redirectURI next : String)
  /-- `handleAuthCallback`, up to the requests it makes. -/
  | callback (q : Query) (cookie : Option String)
  /-- What came of the requests: no token, or one, and the profile if that came. -/
  | exchange (callback : Nat) (answer : Option (TokenData × Option UserProfile))
  /-- The session is opened, with the id that was drawn. -/
  | create (callback : Nat) (id : String)
  /-- `requireAuth` up to the token, and `handleAuthMe`. -/
  | request (cookie : Option String)
  /-- `requireAuth` when no token comes for a session it has looked up. -/
  | refuse (id : String)
  | logout (cookie : Option String)
  /-- A token was refreshed: its session is to be written. -/
  | rotate (id : String) (td : TokenData)
  /-- A hub was selected, or sessions swept: the sessions are to be written. -/
  | changed
  | sweepSessions
  | sweepPending
  /-- A call of `persist` has the lock, and takes its snapshot. -/
  | snapshot (call : Nat)
  | write (ok : Bool)
  /-- The process ends, and the next one starts with a whitelist. The file may not be
  readable then. -/
  | restart (adminUsers : List String) (readable : Bool)

namespace World

variable (equalFold : String → String → Bool)

/-- `Delete`: the session goes from the map, and then is to go from the file. -/
def delete (w : World) (id : String) : World :=
  { w with
    sessions := w.sessions.delete id
    waiting := if (w.sessions id).isSome then w.waiting ++ [some id] else w.waiting }

/-- The session of a request, if it may come in. -/
def authenticate (w : World) : Option String → World × Option Session
  | none => (w, none)
  | some id =>
    match w.sessions.get id w.now with
    | (sessions, none) => ({ w with sessions }, none)
    | (sessions, some s) =>
      if userAllowed equalFold w.adminUsers s.profile then ({ w with sessions }, some s)
      else (({ w with sessions } : World).delete id, none)

/-- `handleAuthLogin` -/
def login (w : World) (state verifier redirectURI next : String) : World :=
  { w with
    pending := w.pending.put state
      { verifier, redirectURI, next := Auth.sanitizeNext next, createdAt := w.now }
    started := ⟨state, w.now⟩ :: w.started }

/-- `handleAuthCallback` up to the exchange, and the reason it gives up for. -/
def callback (w : World) (q : Query) (cookie : Option String) : World × Option String :=
  if q.error ≠ "" then (w, some q.error)
  else if cookie ≠ some q.state ∨ q.state = "" then (w, some "state_mismatch")
  else
    match w.pending.take q.state w.now with
    | (pending, none) => ({ w with pending }, some "state_expired")
    | (pending, some entry) =>
      if q.code = "" then ({ w with pending }, some "no_code")
      else
        ({ w with
            pending
            callbacks := w.callbacks ++ [.taken ⟨q.state, cookie, w.now⟩ entry] }, none)

/-- The middle of it: the code is exchanged, the profile fetched and looked up in the whitelist. -/
def exchange (w : World) (i : Nat) (claim : Claim) :
    Option (TokenData × Option UserProfile) → World × Option String
  | none => ({ w with callbacks := w.callbacks.set i .done }, some "exchange_failed")
  | some (td, profile) =>
    let profile := profile.getD {}
    if userAllowed equalFold w.adminUsers profile then
      ({ w with callbacks := w.callbacks.set i (.allowed claim td profile) }, none)
    else ({ w with callbacks := w.callbacks.set i .done }, some "not_allowed")

/-- The end of it. -/
def create (w : World) (i : Nat) (id : String) (claim : Claim) (td : TokenData)
    (profile : UserProfile) : World :=
  { w with
    sessions := w.sessions.create id td profile w.now
    callbacks := w.callbacks.set i .done
    waiting := w.waiting ++ [none]
    opened := ⟨id, claim, profile, w.now⟩ :: w.opened }

/-- One step. -/
def step (w : World) : Event → Option World
  | .tick elapsed => some { w with now := w.now + elapsed }
  | .login state verifier redirectURI next => some (w.login state verifier redirectURI next)
  | .callback q cookie => some (w.callback q cookie).1
  | .exchange i answer =>
    match w.callbacks[i]? with
    | some (.taken claim _) => some (w.exchange equalFold i claim answer).1
    | _ => none
  | .create i id =>
    match w.callbacks[i]? with
    | some (.allowed claim td profile) => some (w.create i id claim td profile)
    | _ => none
  | .request cookie => some (w.authenticate equalFold cookie).1
  | .refuse id => some (w.delete id)
  | .logout cookie => some (cookie.elim w w.delete)
  | .rotate id td =>
    some { w with sessions := w.sessions.rotate id td, waiting := w.waiting ++ [none] }
  | .changed => some { w with waiting := w.waiting ++ [none] }
  | .sweepSessions => some { w with sessions := w.sessions.sweep w.now }
  | .sweepPending => some { w with pending := w.pending.sweep w.now }
  | .snapshot call =>
    match w.saving, w.waiting[call]? with
    | none, some cause =>
      some { w with saving := some (cause, w.sessions), waiting := w.waiting.eraseIdx call }
    | _, _ => none
  | .write ok =>
    match w.saving with
    | some (cause, snap) =>
      if ok then
        some { w with saving := none, file := snap, loggedOut := cause.toList ++ w.loggedOut }
      else some { w with saving := none }
    | none => none
  | .restart adminUsers readable =>
    some { w with
      adminUsers
      pending := fun _ => none
      sessions :=
        if readable then w.file.load (userAllowed equalFold adminUsers) w.now else fun _ => none
      callbacks := []
      waiting := []
      saving := none }

/-- What is drawn at random was never drawn before. -/
def Drawn (w : World) : Event → Prop
  | .login state _ _ _ => ∀ s ∈ w.started, s.state ≠ state
  | .create _ id => ∀ o ∈ w.opened, o.id ≠ id
  | _ => True

instance (w : World) (e : Event) : Decidable (w.Drawn e) := by
  unfold Drawn
  split <;> infer_instance

end World

variable {equalFold : String → String → Bool} {w w' : World} {e : Event} {es : List Event}

/-! ## What a step does to the sessions -/

namespace World

/-- A look-up changes nothing but the sessions and who waits to write them. -/
theorem authenticate_frame (equalFold : String → String → Bool) (cookie : Option String) : ∃ sessions waiting,
    (w.authenticate equalFold cookie).1 = { w with sessions, waiting } := by
  unfold authenticate
  cases cookie with
  | none => exact ⟨w.sessions, w.waiting, rfl⟩
  | some id =>
    dsimp only
    split
    · exact ⟨_, w.waiting, rfl⟩
    · split
      · exact ⟨_, w.waiting, rfl⟩
      · exact ⟨_, _, rfl⟩

theorem authenticate_sessions {cookie : Option String} {k : String} {s : Session}
    (h : (w.authenticate equalFold cookie).1.sessions k = some s) :
    ∃ s₀, w.sessions k = some s₀ ∧ SessionStore.Same s s₀ := by
  unfold authenticate at h
  cases cookie with
  | none => exact ⟨s, h, rfl, rfl, rfl⟩
  | some id =>
    dsimp only at h
    have hget : (w.sessions.get id w.now).1 k = some s → ∃ s₀, w.sessions k = some s₀ ∧
        SessionStore.Same s s₀ := SessionStore.get_rest
    split at h
    · next sessions hout => exact hget (by rw [hout]; exact h)
    · next sessions s' hout =>
      split at h
      · exact hget (by rw [hout]; exact h)
      · exact hget (by rw [hout]; exact (SessionStore.delete_some h).2)

/-- Who comes in has a session that is live, and may log in. -/
theorem authenticate_some {cookie : Option String} {s : Session}
    (h : (w.authenticate equalFold cookie).2 = some s) :
    ∃ id s₀, cookie = some id ∧ w.sessions id = some s₀ ∧ s₀.expired w.now = false ∧
      SessionStore.Same s s₀ ∧ userAllowed equalFold w.adminUsers s.profile = true := by
  unfold authenticate at h
  cases cookie with
  | none => cases h
  | some id =>
    dsimp only at h
    split at h
    · cases h
    · next sessions s' hout =>
      split at h
      · next hallowed =>
        cases h
        obtain ⟨-, s₀, hst, hlive, hsame⟩ := SessionStore.get_some (congrArg Prod.snd hout)
        exact ⟨id, s₀, rfl, hst, hlive, ⟨by rw [hsame], by rw [hsame], by rw [hsame]⟩, hallowed⟩
      · cases h

/-- A callback takes from the pending logins, and goes on with what it has taken. -/
theorem callback_cases (q : Query) (cookie : Option String) : ∃ pending : PendingStore,
    (∀ k entry, pending k = some entry → w.pending k = some entry) ∧
    ((w.callback q cookie).1 = { w with pending } ∨
      ∃ entry, (w.callback q cookie).1 = { w with
          pending, callbacks := w.callbacks ++ [.taken ⟨q.state, cookie, w.now⟩ entry] } ∧
        cookie = some q.state ∧ w.pending q.state = some entry ∧
        w.now - entry.createdAt ≤ pendingTTL ∧ pending q.state = none) := by
  unfold callback
  split
  · exact ⟨w.pending, fun _ _ h => h, .inl rfl⟩
  · split
    · exact ⟨w.pending, fun _ _ h => h, .inl rfl⟩
    · next hcookie =>
      have hrest : ∀ k entry, (w.pending.take q.state w.now).1 k = some entry →
          k ≠ q.state ∧ w.pending k = some entry := fun _ _ => PendingStore.take_rest
      split
      · next pending hout =>
        rw [hout] at hrest
        exact ⟨pending, fun k entry hk => (hrest k entry hk).2, .inl rfl⟩
      · next pending entry hout =>
        rw [hout] at hrest
        refine ⟨pending, fun k entry hk => (hrest k entry hk).2, ?_⟩
        split
        · exact .inl rfl
        · obtain ⟨hpending, hage⟩ := PendingStore.take_some (congrArg Prod.snd hout)
          refine .inr ⟨entry, rfl, by_contra fun hne => hcookie (.inl hne), hpending, hage, ?_⟩
          exact Option.eq_none_iff_forall_ne_some.mpr fun e he => (hrest _ e he).1 rfl

theorem exchange_cases (equalFold : String → String → Bool) (i : Nat) (claim : Claim)
    (answer : Option (TokenData × Option UserProfile)) :
    ∃ c, (w.exchange equalFold i claim answer).1 = { w with callbacks := w.callbacks.set i c } ∧
      (c = .done ∨ ∃ td profile, c = .allowed claim td profile ∧
        userAllowed equalFold w.adminUsers profile = true) := by
  unfold exchange
  split
  · exact ⟨.done, rfl, .inl rfl⟩
  · dsimp only
    split
    · next hallowed => exact ⟨_, rfl, .inr ⟨_, _, rfl, hallowed⟩⟩
    · exact ⟨.done, rfl, .inl rfl⟩

/-- A session after a step was there before, was just opened, or comes from the file. -/
theorem step_sessions {k : String} {s : Session} (hstep : w.step equalFold e = some w')
    (h : w'.sessions k = some s) :
    (w'.adminUsers = w.adminUsers ∧ ∃ s₀, w.sessions k = some s₀ ∧ SessionStore.Same s s₀) ∨
    (∃ i claim td profile, e = .create i k ∧ w.callbacks[i]? = some (.allowed claim td profile) ∧
      w' = w.create i k claim td profile ∧ s.id = k ∧ s.profile = profile ∧ s.createdAt = w.now) ∨
    (w.file k = some s ∧ userAllowed equalFold w'.adminUsers s.profile = true ∧ w'.waiting = [] ∧
      w'.saving = none) := by
  have hsame : w'.adminUsers = w.adminUsers → w.sessions k = some s → (w'.adminUsers = w.adminUsers ∧
      ∃ s₀, w.sessions k = some s₀ ∧ SessionStore.Same s s₀) :=
    fun hadmin hs => ⟨hadmin, s, hs, rfl, rfl, rfl⟩
  cases e with
  | tick elapsed => cases hstep; exact .inl (hsame rfl h)
  | login state verifier redirectURI next => cases hstep; exact .inl (hsame rfl h)
  | callback q cookie =>
    cases hstep
    obtain ⟨pending, -, heq | ⟨entry, heq, -⟩⟩ := w.callback_cases q cookie <;> rw [heq] at h <;>
      exact .inl ⟨by rw [heq], s, h, rfl, rfl, rfl⟩
  | exchange i answer =>
    simp only [step] at hstep
    split at hstep
    · cases hstep
      obtain ⟨c, heq, -⟩ := w.exchange_cases equalFold i _ answer
      rw [heq] at h
      exact .inl ⟨by rw [heq], s, h, rfl, rfl, rfl⟩
    · cases hstep
  | create i id =>
    simp only [step] at hstep
    split at hstep
    · next claim td profile hcallback =>
      cases hstep
      by_cases hk : k = id
      · subst hk
        have hnew : (w.create i k claim td profile).sessions k = _ := Function.update_self ..
        cases hnew.symm.trans h
        exact .inr (.inl ⟨i, claim, td, profile, rfl, hcallback, rfl, rfl, rfl, rfl⟩)
      · have hold : (w.create i id claim td profile).sessions k = _ := Function.update_of_ne hk ..
        exact .inl (hsame rfl (hold.symm.trans h))
    · cases hstep
  | request cookie =>
    cases hstep
    obtain ⟨s₀, h₀, hs⟩ := authenticate_sessions h
    obtain ⟨sessions, waiting, heq⟩ := w.authenticate_frame equalFold cookie
    exact .inl ⟨by rw [heq], s₀, h₀, hs⟩
  | refuse id => cases hstep; exact .inl (hsame rfl (SessionStore.delete_some h).2)
  | logout cookie =>
    cases hstep
    cases cookie with
    | none => exact .inl (hsame rfl h)
    | some id => exact .inl (hsame rfl (SessionStore.delete_some h).2)
  | rotate id td =>
    cases hstep
    exact .inl ⟨rfl, SessionStore.rotate_some h⟩
  | changed => cases hstep; exact .inl (hsame rfl h)
  | sweepSessions => cases hstep; exact .inl (hsame rfl (SessionStore.sweep_some h))
  | sweepPending => cases hstep; exact .inl (hsame rfl h)
  | snapshot call =>
    simp only [step] at hstep
    split at hstep
    · cases hstep
      exact .inl (hsame rfl h)
    · cases hstep
  | write ok =>
    simp only [step] at hstep
    split at hstep
    · split at hstep <;> cases hstep <;> exact .inl (hsame rfl h)
    · cases hstep
  | restart adminUsers readable =>
    cases hstep
    cases readable with
    | true =>
      obtain ⟨hfile, hallowed⟩ := SessionStore.load_some h
      exact .inr (.inr ⟨hfile, hallowed, rfl, rfl⟩)
    | false => cases h

/-- What a step does to the rest: to the sessions on their way to the file and in it. -/
structure Rest (equalFold : String → String → Bool) (w w' : World) : Prop where
  opened : ∀ o ∈ w.opened, o ∈ w'.opened
  waiting : ∀ id, some id ∈ w'.waiting →
    some id ∈ w.waiting ∨ ((w.sessions id).isSome ∧ w'.sessions id = none)
  saving : ∀ cause snap, w'.saving = some (cause, snap) →
    w.saving = some (cause, snap) ∨ (cause ∈ w.waiting ∧ snap = w.sessions)
  file : w'.file = w.file ∨ ∃ cause, w.saving = some (cause, w'.file)
  loggedOut : ∀ id ∈ w'.loggedOut, id ∈ w.loggedOut ∨
    (w.saving = some (some id, w'.file) ∧ w'.sessions = w.sessions ∧ w'.saving = none)
  allowed : ∀ claim td profile, .allowed claim td profile ∈ w'.callbacks →
    (w'.adminUsers = w.adminUsers ∧ .allowed claim td profile ∈ w.callbacks) ∨
      userAllowed equalFold w'.adminUsers profile = true

theorem Rest.refl (equalFold : String → String → Bool) (w : World) : Rest equalFold w w :=
  ⟨fun _ h => h, fun _ h => .inl h, fun _ _ h => .inl h, .inl rfl, fun _ h => .inl h,
    fun _ _ _ h => .inl ⟨rfl, h⟩⟩

theorem rest_delete (equalFold : String → String → Bool) (w : World) (id : String) :
    Rest equalFold w (w.delete id) := by
  refine { Rest.refl equalFold w with waiting := fun k hk => ?_, loggedOut := fun _ h => .inl h }
  unfold delete at hk
  split at hk
  · next hsome =>
    rcases List.mem_append.mp hk with hk | hk
    · exact .inl hk
    · cases List.mem_singleton.mp hk
      exact .inr ⟨hsome, Function.update_self ..⟩
  · exact .inl hk

theorem rest_waiting (equalFold : String → String → Bool) (w : World) (sessions : SessionStore) :
    Rest equalFold w { w with sessions, waiting := w.waiting ++ [none] } := by
  refine { Rest.refl equalFold w with waiting := fun k hk => ?_, loggedOut := fun _ h => .inl h }
  rcases List.mem_append.mp hk with hk | hk
  · exact .inl hk
  · cases List.mem_singleton.mp hk

theorem rest_authenticate {cookie : Option String} :
    Rest equalFold w (w.authenticate equalFold cookie).1 := by
  unfold authenticate
  cases cookie with
  | none => exact .refl equalFold w
  | some id =>
    dsimp only
    split
    · exact { Rest.refl equalFold w with loggedOut := fun _ h => .inl h, waiting := fun _ h => .inl h }
    · next sessions s hout =>
      split
      · exact { Rest.refl equalFold w with loggedOut := fun _ h => .inl h, waiting := fun _ h => .inl h }
      · have hdelete := rest_delete equalFold { w with sessions } id
        refine { Rest.refl equalFold w with
          loggedOut := fun _ h => .inl h, waiting := fun k hk => ?_ }
        refine (hdelete.waiting k hk).imp (fun h => h) fun ⟨hsome, hnone⟩ => ⟨?_, hnone⟩
        obtain ⟨s₁, hs₁⟩ := Option.isSome_iff_exists.mp hsome
        obtain ⟨s₀, hs₀, -⟩ := SessionStore.get_rest
          (show (w.sessions.get id w.now).1 k = some s₁ by rw [hout]; exact hs₁)
        exact Option.isSome_iff_exists.mpr ⟨s₀, hs₀⟩

theorem step_rest (hstep : w.step equalFold e = some w') : Rest equalFold w w' := by
  cases e with
  | tick elapsed => cases hstep; exact { Rest.refl equalFold w with }
  | login state verifier redirectURI next => cases hstep; exact { Rest.refl equalFold w with }
  | callback q cookie =>
    cases hstep
    obtain ⟨pending, -, heq | ⟨entry, heq, -⟩⟩ := w.callback_cases q cookie <;> rw [heq]
    · exact { Rest.refl equalFold w with }
    · refine { Rest.refl equalFold w with allowed := fun claim td profile hmem => .inl ⟨rfl, ?_⟩ }
      rcases List.mem_append.mp hmem with hmem | hmem
      · exact hmem
      · cases List.mem_singleton.mp hmem
  | exchange i answer =>
    simp only [step] at hstep
    split at hstep
    · cases hstep
      obtain ⟨c, heq, hc⟩ := w.exchange_cases equalFold i _ answer
      rw [heq]
      refine { Rest.refl equalFold w with allowed := fun claim td profile hmem => ?_ }
      rcases List.mem_or_eq_of_mem_set hmem with hmem | rfl
      · exact .inl ⟨rfl, hmem⟩
      · rcases hc with hc | ⟨td, profile, hc, hallowed⟩
        · cases hc
        · cases hc
          exact .inr hallowed
    · cases hstep
  | create i id =>
    simp only [step] at hstep
    split at hstep
    · cases hstep
      refine { rest_waiting equalFold w w.sessions with
        opened := fun o => List.mem_cons_of_mem _, waiting := fun k hk => ?_
        loggedOut := fun _ h => .inl h, allowed := fun claim td profile hmem => .inl ⟨rfl, ?_⟩ }
      · rcases List.mem_append.mp hk with hk | hk
        · exact .inl hk
        · cases List.mem_singleton.mp hk
      · rcases List.mem_or_eq_of_mem_set hmem with hmem | heq
        · exact hmem
        · cases heq
    · cases hstep
  | request cookie => cases hstep; exact rest_authenticate
  | refuse id => cases hstep; exact rest_delete equalFold w id
  | logout cookie =>
    cases hstep
    cases cookie with
    | none => exact .refl equalFold w
    | some id => exact rest_delete equalFold w id
  | rotate id td => cases hstep; exact rest_waiting equalFold w _
  | changed => cases hstep; exact rest_waiting equalFold w _
  | sweepSessions =>
    cases hstep
    exact { Rest.refl equalFold w with loggedOut := fun _ h => .inl h, waiting := fun _ h => .inl h }
  | sweepPending => cases hstep; exact { Rest.refl equalFold w with }
  | snapshot call =>
    simp only [step] at hstep
    split at hstep
    · next cause hsaving hcause =>
      cases hstep
      refine { Rest.refl equalFold w with
        waiting := fun k hk => .inl (List.mem_of_mem_eraseIdx hk), saving := fun c snap h => ?_
        loggedOut := fun _ h => .inl h }
      cases h
      exact .inr ⟨List.mem_of_getElem? hcause, rfl⟩
    · cases hstep
  | write ok =>
    simp only [step] at hstep
    split at hstep
    · next cause snap hsaving =>
      split at hstep
      · cases hstep
        refine { Rest.refl equalFold w with
          saving := fun _ _ h => (nomatch h), file := .inr ⟨cause, hsaving⟩
          loggedOut := fun id hid => ?_ }
        rcases List.mem_append.mp hid with hid | hid
        · cases Option.mem_toList.mp hid
          exact .inr ⟨hsaving, rfl, rfl⟩
        · exact .inl hid
      · cases hstep
        exact { Rest.refl equalFold w with saving := fun _ _ h => (nomatch h), loggedOut := fun _ h => .inl h }
    · cases hstep
  | restart adminUsers readable =>
    cases hstep
    exact { Rest.refl equalFold w with
      waiting := fun _ h => (nomatch h), saving := fun _ _ h => (nomatch h)
      loggedOut := fun _ h => .inl h, allowed := fun _ _ _ h => (nomatch h) }

end World

/-! ## Every claim is backed by a login, once -/

/-- The claim came with the state of a login as its cookie, in time. -/
def Claim.Backed (started : List Started) (c : Claim) : Prop :=
  c.cookie = some c.state ∧ ∃ s ∈ started, s.state = c.state ∧ s.at' ≤ c.takenAt ∧
    c.takenAt ≤ s.at' + pendingTTL

theorem Claim.Backed.mono {started started' : List Started} {c : Claim} (h : c.Backed started)
    (hsub : ∀ s ∈ started, s ∈ started') : c.Backed started' := by
  obtain ⟨hcookie, s, hs, rest⟩ := h
  exact ⟨hcookie, s, hsub s hs, rest⟩

def Callback.state? (c : Callback) : Option String := c.claim?.map (·.state)

/-- The states that were taken, of callbacks under way and of sessions. -/
def World.taken (w : World) : List String :=
  w.callbacks.filterMap Callback.state? ++ w.opened.map (·.claim.state)

structure Claims (w : World) : Prop where
  past : ∀ s ∈ w.started, s.at' ≤ w.now
  pending : ∀ state entry, w.pending state = some entry → ⟨state, entry.createdAt⟩ ∈ w.started
  callbacks : ∀ c ∈ w.callbacks, ∀ claim, c.claim? = some claim → claim.Backed w.started
  opened : ∀ o ∈ w.opened, o.claim.Backed w.started
  once : w.taken.Nodup
  spent : ∀ state ∈ w.taken, w.pending state = none

namespace Claims

theorem started_of_taken (h : Claims w) {state : String} (hstate : state ∈ w.taken) :
    ∃ s ∈ w.started, s.state = state := by
  rcases List.mem_append.mp hstate with hmem | hmem
  · obtain ⟨c, hc, hclaim⟩ := List.mem_filterMap.mp hmem
    obtain ⟨claim, hsome, rfl⟩ := Option.map_eq_some_iff.mp hclaim
    obtain ⟨-, s, hs, hstate, -⟩ := h.callbacks c hc claim hsome
    exact ⟨s, hs, hstate⟩
  · obtain ⟨o, ho, rfl⟩ := List.mem_map.mp hmem
    obtain ⟨-, s, hs, hstate, -⟩ := h.opened o ho
    exact ⟨s, hs, hstate⟩

theorem frame (h : Claims w) (sessions : SessionStore) (waiting : List (Option String)) :
    Claims { w with sessions, waiting } :=
  ⟨h.past, h.pending, h.callbacks, h.opened, h.once, h.spent⟩

/-- Fewer logins are pending. -/
theorem shrink (h : Claims w) {pending : PendingStore}
    (hsub : ∀ k entry, pending k = some entry → w.pending k = some entry) :
    Claims { w with pending } where
  past := h.past
  pending state entry hentry := h.pending state entry (hsub _ _ hentry)
  callbacks := h.callbacks
  opened := h.opened
  once := h.once
  spent state hstate := by
    refine Option.eq_none_iff_forall_ne_some.mpr fun entry hentry => ?_
    exact absurd ((h.spent state hstate).symm.trans (hsub _ _ hentry)) (by simp)

theorem login (h : Claims w) {state verifier redirectURI next : String}
    (hdrawn : ∀ s ∈ w.started, s.state ≠ state) :
    Claims (w.login state verifier redirectURI next) where
  past s hs := by
    rcases List.mem_cons.mp hs with rfl | hs
    · exact Int.le_refl w.now
    · exact h.past s hs
  pending k entry hk := by
    rcases PendingStore.put_of_mem hk with ⟨rfl, rfl⟩ | ⟨-, hk⟩
    · exact List.mem_cons_self
    · exact List.mem_cons_of_mem _ (h.pending k entry hk)
  callbacks c hc claim hclaim := (h.callbacks c hc claim hclaim).mono fun s => List.mem_cons_of_mem _
  opened o ho := (h.opened o ho).mono fun s => List.mem_cons_of_mem _
  once := h.once
  spent k hk := by
    -- a state that was taken is not the one just drawn
    obtain ⟨s, hs, rfl⟩ := h.started_of_taken hk
    exact (Function.update_of_ne (hdrawn s hs) _ _).trans (h.spent _ hk)

theorem callback (h : Claims w) (q : Query) (cookie : Option String) :
    Claims (w.callback q cookie).1 := by
  obtain ⟨pending, hsub, heq | ⟨entry, heq, hcookie, hentry, hage, hgone⟩⟩ :=
    w.callback_cases q cookie
  · rw [heq]
    exact h.shrink hsub
  · rw [heq]
    have hsmall := h.shrink hsub
    have hstart := h.pending _ _ hentry
    have htaken : World.taken { w with
        pending, callbacks := w.callbacks ++ [.taken ⟨q.state, cookie, w.now⟩ entry] } =
        w.callbacks.filterMap Callback.state? ++ q.state :: w.opened.map (·.claim.state) := by
      simp [World.taken, Callback.state?, Callback.claim?]
    refine ⟨h.past, hsmall.pending, fun c hc claim hclaim => ?_, h.opened, ?_, fun state hstate => ?_⟩
    · rcases List.mem_append.mp hc with hc | hc
      · exact h.callbacks c hc claim hclaim
      · rw [List.mem_singleton.mp hc] at hclaim
        cases hclaim
        have hage : w.now ≤ entry.createdAt + pendingTTL := by omega
        exact ⟨hcookie, _, hstart, rfl, h.past _ hstart, hage⟩
    · rw [htaken, List.nodup_middle]
      refine List.nodup_cons.mpr ⟨fun hmem => ?_, h.once⟩
      exact absurd ((h.spent _ hmem).symm.trans hentry) (by simp)
    · rw [htaken] at hstate
      rcases List.mem_cons.mp (List.perm_middle.mem_iff.mp hstate) with rfl | hstate
      · exact hgone
      · exact hsmall.spent state hstate

/-- A callback goes on with its claim, or gives it up. -/
theorem set (h : Claims w) {i : Nat} {c c' : Callback} (hc : w.callbacks[i]? = some c)
    (hclaim : c'.claim? = c.claim? ∨ c'.claim? = none) :
    Claims { w with callbacks := w.callbacks.set i c' } := by
  have hsub : (World.taken { w with callbacks := w.callbacks.set i c' }).Sublist w.taken := by
    refine List.Sublist.append ?_ (List.Sublist.refl _)
    rcases hclaim with hsame | hnone
    · rw [show ({ w with callbacks := w.callbacks.set i c' } : World).callbacks.filterMap
        Callback.state? = _ from filterMap_set_of_eq hc (congrArg (Option.map _) hsame)]
    · exact filterMap_set_sublist (by rw [Callback.state?, hnone]; rfl)
  refine ⟨h.past, h.pending, fun d hd claim hd' => ?_, h.opened, h.once.sublist hsub,
    fun state hstate => h.spent state (hsub.subset hstate)⟩
  rcases List.mem_or_eq_of_mem_set hd with hd | rfl
  · exact h.callbacks d hd claim hd'
  · rcases hclaim with hsame | hnone
    · exact h.callbacks c (List.mem_of_getElem? hc) claim (hsame ▸ hd')
    · rw [hnone] at hd'
      cases hd'

theorem create (h : Claims w) {i : Nat} {id : String} {claim : Claim} {td : TokenData}
    {profile : UserProfile} (hc : w.callbacks[i]? = some (.allowed claim td profile)) :
    Claims (w.create i id claim td profile) := by
  have hperm : w.taken.Perm (w.create i id claim td profile).taken := by
    have hmove := filterMap_set_perm (f := Callback.state?) (y := .done) (b := claim.state) hc rfl rfl
    exact (hmove.append_right _).trans List.perm_middle.symm
  have hdone : Claims { w with callbacks := w.callbacks.set i .done } := h.set hc (.inr rfl)
  refine ⟨h.past, h.pending, hdone.callbacks, fun o ho => ?_, hperm.nodup_iff.mp h.once,
    fun state hstate => h.spent state (hperm.mem_iff.mpr hstate)⟩
  rcases List.mem_cons.mp ho with rfl | ho
  · exact h.callbacks _ (List.mem_of_getElem? hc) claim rfl
  · exact h.opened o ho

theorem step (h : Claims w) (hdrawn : w.Drawn e) (hstep : w.step equalFold e = some w') :
    Claims w' := by
  cases e with
  | tick elapsed =>
    cases hstep
    have hlater : w.now ≤ w.now + elapsed := by omega
    exact ⟨fun s hs => Int.le_trans (h.past s hs) hlater, h.pending, h.callbacks,
      h.opened, h.once, h.spent⟩
  | login state verifier redirectURI next => cases hstep; exact h.login hdrawn
  | callback q cookie => cases hstep; exact h.callback q cookie
  | exchange i answer =>
    simp only [World.step] at hstep
    split at hstep
    · next claim entry hc =>
      cases hstep
      obtain ⟨c, heq, rfl | ⟨td, profile, rfl, -⟩⟩ :=
        w.exchange_cases equalFold i claim answer <;> rw [heq]
      · exact h.set hc (.inr rfl)
      · exact h.set hc (.inl rfl)
    · cases hstep
  | create i id =>
    simp only [World.step] at hstep
    split at hstep
    · next hc =>
      cases hstep
      exact h.create hc
    · cases hstep
  | request cookie =>
    cases hstep
    obtain ⟨sessions, waiting, heq⟩ := w.authenticate_frame equalFold cookie
    rw [heq]
    exact h.frame sessions waiting
  | refuse id => cases hstep; exact h.frame _ _
  | logout cookie =>
    cases hstep
    cases cookie with
    | none => exact h
    | some id => exact h.frame _ _
  | rotate id td => cases hstep; exact h.frame _ _
  | changed => cases hstep; exact h.frame w.sessions _
  | sweepSessions => cases hstep; exact h.frame _ w.waiting
  | sweepPending => cases hstep; exact h.shrink fun _ _ => PendingStore.sweep_some
  | snapshot call =>
    simp only [World.step] at hstep
    split at hstep
    · cases hstep
      exact ⟨h.past, h.pending, h.callbacks, h.opened, h.once, h.spent⟩
    · cases hstep
  | write ok =>
    simp only [World.step] at hstep
    split at hstep
    · split at hstep <;> cases hstep <;>
        exact ⟨h.past, h.pending, h.callbacks, h.opened, h.once, h.spent⟩
    · cases hstep
  | restart adminUsers readable =>
    cases hstep
    have hsub : (w.opened.map (·.claim.state)).Sublist w.taken := List.sublist_append_right ..
    exact ⟨h.past, fun _ _ hk => (nomatch hk), fun _ hc => (nomatch hc), h.opened,
      h.once.sublist hsub, fun _ _ => rfl⟩

end Claims

/-! ## Every session is one that was opened -/

/-- A session that is kept under an id was opened under it. -/
def Known (opened : List Opened) (id : String) (s : Session) : Prop :=
  ∃ o ∈ opened, o.id = id ∧ o.profile = s.profile ∧ o.createdAt = s.createdAt

theorem Known.mono {opened opened' : List Opened} {id : String} {s : Session}
    (h : Known opened id s) (hsub : ∀ o ∈ opened, o ∈ opened') : Known opened' id s := by
  obtain ⟨o, ho, rest⟩ := h
  exact ⟨o, hsub o ho, rest⟩

structure Held (equalFold : String → String → Bool) (w : World) : Prop where
  sessions : ∀ id s, w.sessions id = some s → Known w.opened id s
  welcome : ∀ id s, w.sessions id = some s → userAllowed equalFold w.adminUsers s.profile = true
  allowed : ∀ claim td profile, .allowed claim td profile ∈ w.callbacks →
    userAllowed equalFold w.adminUsers profile = true
  saving : ∀ cause snap, w.saving = some (cause, snap) → ∀ id s, snap id = some s →
    Known w.opened id s
  file : ∀ id s, w.file id = some s → Known w.opened id s

theorem Held.step (h : Held equalFold w) (hstep : w.step equalFold e = some w') :
    Held equalFold w' := by
  have hrest := World.step_rest hstep
  constructor
  case sessions =>
    intro id s hs
    obtain ⟨-, s₀, hs₀, hsame⟩ | ⟨i, claim, td, profile, -, -, rfl, -, hprofile, hcreated⟩ |
      ⟨hfile, -⟩ := World.step_sessions hstep hs
    · obtain ⟨o, ho, hid, hprofile, hcreated⟩ := h.sessions id s₀ hs₀
      exact ⟨o, hrest.opened o ho, hid, hprofile.trans hsame.profile.symm,
        hcreated.trans hsame.createdAt.symm⟩
    · exact ⟨_, List.mem_cons_self, rfl, hprofile.symm, hcreated.symm⟩
    · exact (h.file id s hfile).mono hrest.opened
  case welcome =>
    intro id s hs
    obtain ⟨hadmin, s₀, hs₀, hsame⟩ | ⟨i, claim, td, profile, -, hc, rfl, -, hprofile, -⟩ |
      ⟨-, hallowed, -⟩ := World.step_sessions hstep hs
    · rw [hadmin, hsame.profile]
      exact h.welcome id s₀ hs₀
    · rw [hprofile]
      exact h.allowed claim td profile (List.mem_of_getElem? hc)
    · exact hallowed
  case allowed =>
    intro claim td profile hmem
    rcases hrest.allowed claim td profile hmem with ⟨hadmin, hold⟩ | hallowed
    · rw [hadmin]
      exact h.allowed claim td profile hold
    · exact hallowed
  case saving =>
    intro cause snap hsaving id s hs
    rcases hrest.saving cause snap hsaving with hold | ⟨-, rfl⟩
    · exact (h.saving cause snap hold id s hs).mono hrest.opened
    · exact (h.sessions id s hs).mono hrest.opened
  case file =>
    intro id s hs
    rcases hrest.file with hsame | ⟨cause, hsaving⟩
    · rw [hsame] at hs
      exact (h.file id s hs).mono hrest.opened
    · exact (h.saving cause _ hsaving id s hs).mono hrest.opened

/-- **Who is let in has logged in**, as a user who still may, in the browser that started the
login and no later than its state was good for; and the login let nobody else in. -/
theorem admitted_logged_in {adminUsers : List String}
    (h : Run (fun w e w' => w.step equalFold e = some w') World.Drawn { adminUsers } es w)
    {cookie : Option String} {s : Session} (hin : (w.authenticate equalFold cookie).2 = some s) :
    userAllowed equalFold w.adminUsers s.profile = true ∧
    ∃ o ∈ w.opened, cookie = some o.id ∧ s.profile = o.profile ∧
      w.now ≤ o.createdAt + sessionAbsTTL ∧ o.claim.Backed w.started ∧
      ∀ o' ∈ w.opened, o'.claim.state = o.claim.state → o' = o := by
  have hinv : Claims w ∧ Held equalFold w := by
    refine h.invariant (P := fun w => Claims w ∧ Held equalFold w)
      ⟨⟨?_, ?_, ?_, ?_, List.nodup_nil, ?_⟩, ⟨?_, ?_, ?_, ?_, ?_⟩⟩
      fun w e w' ⟨hclaims, hheld⟩ hdrawn hstep => ⟨hclaims.step hdrawn hstep, hheld.step hstep⟩
    all_goals intros; contradiction
  obtain ⟨id, s₀, rfl, hs₀, hlive, hsame, hallowed⟩ := World.authenticate_some hin
  obtain ⟨o, ho, rfl, hprofile, hcreated⟩ := hinv.2.sessions _ s₀ hs₀
  refine ⟨hallowed, o, ho, rfl, hsame.profile.trans hprofile.symm, ?_, hinv.1.opened o ho, ?_⟩
  · rw [hcreated]
    simp only [Session.expired, Bool.or_eq_false_iff, decide_eq_false_iff_not] at hlive
    exact Int.not_lt.mp hlive.1
  · intro o' ho' hstate
    have hnodup : (w.opened.map (·.claim.state)).Nodup :=
      hinv.1.once.sublist (List.sublist_append_right ..)
    exact List.inj_on_of_nodup_map hnodup ho' ho hstate

/-- A login with its one request. -/
def visit : List Event :=
  [.login "s" "v" "https://h/api/auth/callback" "/boards",
    .callback { state := "s", code := "c" } (some "s"),
    .exchange 0 (some (⟨"access", "refresh", 0⟩, some { sub := "u" })), .create 0 "id"]

theorem admitted_logged_in_visit : ∃ (w : World) (s : Session),
    (w.authenticate (fun a b => a == b) (some "id")).2 = some s ∧
      ∃ o ∈ w.opened, o.id = "id" ∧ o.claim.Backed w.started := by
  have hrun : ∃ w, Run (fun w e w' => World.step (fun a b => a == b) w e = some w') World.Drawn
      { adminUsers := ["u"] } visit w ∧
      ((w.authenticate (fun a b => a == b) (some "id")).2).isSome := ⟨_, Run.of_exec visit rfl, rfl⟩
  obtain ⟨w, hrun, hsome⟩ := hrun
  obtain ⟨s, hs⟩ := Option.isSome_iff_exists.mp hsome
  obtain ⟨-, o, ho, hid, -, -, hbacked, -⟩ := admitted_logged_in hrun hs
  exact ⟨w, s, hs, o, ho, (Option.some.inj hid).symm, hbacked⟩

/-! ## A logout that was written out -/

def Issued (w : World) (id : String) : Prop := ∃ o ∈ w.opened, o.id = id

structure Gone (w : World) : Prop where
  waiting : ∀ id, some id ∈ w.waiting → w.sessions id = none ∧ Issued w id
  saving : ∀ id snap, w.saving = some (some id, snap) →
    w.sessions id = none ∧ snap id = none ∧ Issued w id
  loggedOut : ∀ id ∈ w.loggedOut, w.sessions id = none ∧ w.file id = none ∧
    (∀ cause snap, w.saving = some (cause, snap) → snap id = none) ∧ Issued w id

/-- A session that was removed comes back from the file, when the process starts, or not at all. -/
theorem stays_gone (hdrawn : w.Drawn e) (hstep : w.step equalFold e = some w') {id : String}
    (hnone : w.sessions id = none) (hissued : Issued w id) :
    w'.sessions id = none ∨ ((w.file id).isSome ∧ w'.waiting = [] ∧ w'.saving = none) := by
  cases hs : w'.sessions id with
  | none => exact .inl rfl
  | some s =>
    obtain ⟨-, s₀, hs₀, -⟩ | ⟨i, claim, td, profile, rfl, -⟩ | ⟨hfile, -, hend⟩ :=
      World.step_sessions hstep hs
    · rw [hnone] at hs₀
      cases hs₀
    · obtain ⟨o, ho, hid⟩ := hissued
      exact absurd hid (hdrawn o ho)
    · exact .inr ⟨Option.isSome_iff_exists.mpr ⟨s, hfile⟩, hend⟩

theorem Gone.step (h : Gone w) (hheld : Held equalFold w) (hdrawn : w.Drawn e)
    (hstep : w.step equalFold e = some w') : Gone w' := by
  have hrest := World.step_rest hstep
  have hissue : ∀ id, Issued w id → Issued w' id := fun id ⟨o, ho, hid⟩ => ⟨o, hrest.opened o ho, hid⟩
  constructor
  case waiting =>
    intro id hid
    rcases hrest.waiting id hid with hold | ⟨hsome, hnone⟩
    · obtain ⟨hnone, hissued⟩ := h.waiting id hold
      refine ⟨?_, hissue id hissued⟩
      rcases stays_gone hdrawn hstep hnone hissued with hnone | ⟨-, hend, -⟩
      · exact hnone
      · rw [hend] at hid
        cases hid
    · obtain ⟨s, hs⟩ := Option.isSome_iff_exists.mp hsome
      obtain ⟨o, ho, hoid, -⟩ := hheld.sessions id s hs
      exact ⟨hnone, hissue id ⟨o, ho, hoid⟩⟩
  case saving =>
    intro id snap hsaving
    have hbefore : w.sessions id = none ∧ snap id = none ∧ Issued w id := by
      rcases hrest.saving _ snap hsaving with hold | ⟨hcause, rfl⟩
      · exact h.saving id snap hold
      · obtain ⟨hnone, hissued⟩ := h.waiting id hcause
        exact ⟨hnone, hnone, hissued⟩
    obtain ⟨hnone, hsnap, hissued⟩ := hbefore
    rcases stays_gone hdrawn hstep hnone hissued with hnone | ⟨-, -, hend⟩
    · exact ⟨hnone, hsnap, hissue id hissued⟩
    · rw [hend] at hsaving
      cases hsaving
  case loggedOut =>
    intro id hid
    rcases hrest.loggedOut id hid with hold | ⟨hsaved, hsessions, hend⟩
    · obtain ⟨hnone, hfile, hsnap, hissued⟩ := h.loggedOut id hold
      refine ⟨?_, ?_, fun cause snap hsaving => ?_, hissue id hissued⟩
      · rcases stays_gone hdrawn hstep hnone hissued with hnone | ⟨hsome, -⟩
        · exact hnone
        · rw [hfile] at hsome
          cases hsome
      · rcases hrest.file with hsame | ⟨cause, hsaving⟩
        · rw [hsame]
          exact hfile
        · exact hsnap cause _ hsaving
      · rcases hrest.saving cause snap hsaving with hsame | ⟨-, rfl⟩
        · exact hsnap cause snap hsame
        · exact hnone
    · obtain ⟨hnone, hfile, hissued⟩ := h.saving id _ hsaved
      refine ⟨hsessions ▸ hnone, hfile, fun cause snap hsaving => ?_, hissue id hissued⟩
      rw [hend] at hsaving
      cases hsaving

/-- **A logout that was written out is for good**: whatever is going on besides, and however
often the process starts again, nobody is let in with the session, and it is in no file. -/
theorem logged_out_gone {adminUsers : List String}
    (h : Run (fun w e w' => w.step equalFold e = some w') World.Drawn { adminUsers } es w)
    {id : String} (hid : id ∈ w.loggedOut) :
    (w.authenticate equalFold (some id)).2 = none ∧ w.file id = none := by
  have hinv : Held equalFold w ∧ Gone w := by
    refine h.invariant (P := fun w => Held equalFold w ∧ Gone w) ⟨⟨?_, ?_, ?_, ?_, ?_⟩, ⟨?_, ?_, ?_⟩⟩
      fun w e w' ⟨hheld, hgone⟩ hdrawn hstep => ⟨hheld.step hstep, hgone.step hheld hdrawn hstep⟩
    all_goals intros; contradiction
  obtain ⟨hnone, hfile, -⟩ := hinv.2.loggedOut id hid
  refine ⟨?_, hfile⟩
  cases hin : (w.authenticate equalFold (some id)).2 with
  | none => rfl
  | some s =>
    obtain ⟨_, s₀, hcookie, hs₀, -⟩ := World.authenticate_some hin
    cases hcookie
    rw [hnone] at hs₀
    cases hs₀

/-- The session is closed, and written out by the call that closed it; the process starts again. -/
def farewell : List Event :=
  visit ++ [.snapshot 0, .logout (some "id"), .write true, .snapshot 0, .write true, .restart [] true]

theorem logged_out_gone_farewell : ∃ w : World, "id" ∈ w.loggedOut ∧
    (w.authenticate (fun a b => a == b) (some "id")).2 = none := by
  have hrun : ∃ w, Run (fun w e w' => World.step (fun a b => a == b) w e = some w') World.Drawn
      { adminUsers := ["u"] } farewell w ∧ w.loggedOut = ["id"] := ⟨_, Run.of_exec farewell rfl, rfl⟩
  obtain ⟨w, hrun, hout⟩ := hrun
  have hid : "id" ∈ w.loggedOut := hout ▸ List.mem_singleton_self _
  exact ⟨w, hid, (logged_out_gone hrun hid).1⟩

end FusionLocalServer.Login
