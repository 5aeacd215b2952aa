import Mathlib.Logic.Function.Basic

/-!
# Pending logins and sessions (`server/session.go`, `server/session_persist.go`)

The two stores of the login flow, each a map under one lock, with the operations the
handlers call. A store is the function that looks a key up. The session file holds the
sessions of a snapshot; loading it leaves out those whose user is not on the whitelist and
those past a deadline.

The lemmas say of each operation what it does at one key: an operation on the sessions
changes no more of one than when it was last seen, or removes it, but for `create`.
-/

namespace FusionLocalServer.Login

/-- Times are in nanoseconds. -/
def second : Int := 1000000000

def sessionIdleTTL : Int := 12 * 60 * 60 * second
def sessionAbsTTL : Int := 7 * 24 * 60 * 60 * second
def pendingTTL : Int := 5 * 60 * second

/-- `auth.UserProfile` -/
structure UserProfile where
  sub : String := ""
  name : String := ""
  email : String := ""
  deriving DecidableEq

/-- `auth.TokenData` -/
structure TokenData where
  accessToken : String
  refreshToken : String
  expiresAt : Int
  deriving DecidableEq

/-- `userAllowed`: an empty whitelist admits everyone. -/
def userAllowed (equalFold : String → String → Bool) (adminUsers : List String)
    (p : UserProfile) : Bool :=
  adminUsers.isEmpty ||
    adminUsers.any fun entry =>
      entry ≠ "" && (entry = p.sub || (p.email ≠ "" && equalFold entry p.email))

theorem userAllowed_unknown {equalFold : String → String → Bool} {adminUsers : List String}
    (h : adminUsers ≠ []) : userAllowed equalFold adminUsers {} = false := by
  unfold userAllowed
  rw [Bool.or_eq_false_iff, List.any_eq_false]
  refine ⟨by simpa using h, fun entry _ => ?_⟩
  by_cases hblank : entry = "" <;> simp [hblank]

/-! ## Logins under way -/

/-- `pendingEntry` -/
structure PendingEntry where
  verifier : String
  redirectURI : String
  next : String
  createdAt : Int
  deriving DecidableEq

abbrev PendingStore := String → Option PendingEntry

namespace PendingStore

/-- `Put` -/
def put (p : PendingStore) (state : String) (e : PendingEntry) : PendingStore :=
  Function.update p state (some e)

/-- `Take`: the entry goes, and is handed out unless it is too old. -/
def take (p : PendingStore) (state : String) (now : Int) : PendingStore × Option PendingEntry :=
  match p state with
  | none => (p, none)
  | some e => (Function.update p state none, if pendingTTL < now - e.createdAt then none else some e)

/-- `sweep` -/
def sweep (p : PendingStore) (now : Int) : PendingStore := fun state =>
  (p state).filter fun e => ¬ pendingTTL < now - e.createdAt

theorem put_of_mem {p : PendingStore} {state k : String} {e e' : PendingEntry}
    (h : p.put state e k = some e') : (k = state ∧ e' = e) ∨ (k ≠ state ∧ p k = some e') := by
  by_cases hk : k = state
  · subst hk
    rw [put, Function.update_self] at h
    exact .inl ⟨rfl, (Option.some.inj h).symm⟩
  · rw [put, Function.update_of_ne hk] at h
    exact .inr ⟨hk, h⟩

/-- What is left was there, and is not what was taken. -/
theorem take_rest {p : PendingStore} {state k : String} {now : Int} {e : PendingEntry}
    (h : (p.take state now).1 k = some e) : k ≠ state ∧ p k = some e := by
  unfold take at h
  cases hp : p state with
  | none =>
    rw [hp] at h
    refine ⟨?_, h⟩
    rintro rfl
    exact absurd (hp.symm.trans h) (by simp)
  | some e' =>
    rw [hp] at h
    dsimp only at h
    by_cases hk : k = state
    · subst hk
      rw [Function.update_self] at h
      cases h
    · rw [Function.update_of_ne hk] at h
      exact ⟨hk, h⟩

theorem take_some {p : PendingStore} {state : String} {now : Int} {e : PendingEntry}
    (h : (p.take state now).2 = some e) : p state = some e ∧ now - e.createdAt ≤ pendingTTL := by
  unfold take at h
  cases hp : p state with
  | none =>
    rw [hp] at h
    cases h
  | some e' =>
    rw [hp] at h
    dsimp only at h
    split at h
    · cases h
    · next hage =>
      cases h
      exact ⟨rfl, Int.not_lt.mp hage⟩

theorem sweep_some {p : PendingStore} {now : Int} {k : String} {e : PendingEntry}
    (h : p.sweep now k = some e) : p k = some e :=
  (Option.filter_eq_some_iff.mp h).1

end PendingStore

/-! ## Sessions -/

/-- What of a session its store and its file keep, less the lock to a hub. -/
structure Session where
  id : String
  profile : UserProfile
  createdAt : Int
  lastSeen : Int
  token : Option TokenData
  deriving DecidableEq

/-- `expired` -/
def Session.expired (s : Session) (now : Int) : Bool :=
  s.createdAt + sessionAbsTTL < now || s.lastSeen + sessionIdleTTL < now

abbrev SessionStore := String → Option Session

namespace SessionStore

/-- `Create`, with the id that was drawn. -/
def create (st : SessionStore) (id : String) (td : TokenData) (p : UserProfile) (now : Int) :
    SessionStore :=
  Function.update st id (some { id, profile := p, createdAt := now, lastSeen := now, token := td })

/-- `Get` -/
def get (st : SessionStore) (id : String) (now : Int) : SessionStore × Option Session :=
  if id = "" then (st, none)
  else
    match st id with
    | none => (st, none)
    | some s =>
      if s.expired now then (Function.update st id none, none)
      else
        let s := { s with lastSeen := now }
        (Function.update st id (some s), some s)

/-- `Delete`, the map's part of it. -/
def delete (st : SessionStore) (id : String) : SessionStore := Function.update st id none

/-- The token of a session in the map is replaced. -/
def rotate (st : SessionStore) (id : String) (td : TokenData) : SessionStore :=
  Function.update st id ((st id).map fun s => { s with token := some td })

/-- `sweep` -/
def sweep (st : SessionStore) (now : Int) : SessionStore := fun id =>
  (st id).filter fun s => !s.expired now

/-- `load`, the sessions of the file being `file`. -/
def load (file : SessionStore) (allowed : UserProfile → Bool) (now : Int) : SessionStore := fun id =>
  (file id).filter fun s => allowed s.profile && !s.expired now

/-- The same session, which may have been seen again. -/
structure Same (s t : Session) : Prop where
  id : s.id = t.id
  profile : s.profile = t.profile
  createdAt : s.createdAt = t.createdAt

variable {st file : SessionStore} {id k : String} {now : Int} {s : Session}

theorem get_some (h : (st.get id now).2 = some s) :
    id ≠ "" ∧ ∃ s₀, st id = some s₀ ∧ s₀.expired now = false ∧ s = { s₀ with lastSeen := now } := by
  unfold get at h
  split at h
  · cases h
  · next hid =>
    cases hst : st id with
    | none =>
      rw [hst] at h
      cases h
    | some s₀ =>
      rw [hst] at h
      dsimp only at h
      split at h
      · cases h
      · next hlive =>
        cases h
        exact ⟨hid, s₀, rfl, by simpa using hlive, rfl⟩

/-- A look-up leaves every other session alone, and that one the same or gone. -/
theorem get_rest (h : (st.get id now).1 k = some s) : ∃ s₀, st k = some s₀ ∧ Same s s₀ := by
  unfold get at h
  split at h
  · exact ⟨s, h, rfl, rfl, rfl⟩
  · cases hst : st id with
    | none =>
      rw [hst] at h
      exact ⟨s, h, rfl, rfl, rfl⟩
    | some s₀ =>
      rw [hst] at h
      dsimp only at h
      by_cases hk : k = id
      · subst hk
        split at h <;> dsimp only at h <;> rw [Function.update_self] at h <;> cases h
        exact ⟨s₀, hst, rfl, rfl, rfl⟩
      · split at h <;> dsimp only at h <;> rw [Function.update_of_ne hk] at h <;>
          exact ⟨s, h, rfl, rfl, rfl⟩

theorem delete_some (h : st.delete id k = some s) : k ≠ id ∧ st k = some s := by
  by_cases hk : k = id
  · subst hk
    rw [delete, Function.update_self] at h
    cases h
  · rw [delete, Function.update_of_ne hk] at h
    exact ⟨hk, h⟩

theorem rotate_some {td : TokenData} (h : st.rotate id td k = some s) :
    ∃ s₀, st k = some s₀ ∧ Same s s₀ := by
  by_cases hk : k = id
  · subst hk
    rw [rotate, Function.update_self] at h
    obtain ⟨s₀, hst, rfl⟩ := Option.map_eq_some_iff.mp h
    exact ⟨s₀, hst, rfl, rfl, rfl⟩
  · rw [rotate, Function.update_of_ne hk] at h
    exact ⟨s, h, rfl, rfl, rfl⟩

theorem sweep_some (h : st.sweep now k = some s) : st k = some s :=
  (Option.filter_eq_some_iff.mp h).1

theorem load_some {allowed : UserProfile → Bool} (h : load file allowed now k = some s) :
    file k = some s ∧ allowed s.profile = true := by
  obtain ⟨hfile, hkeep⟩ := Option.filter_eq_some_iff.mp h
  exact ⟨hfile, (Bool.and_eq_true_iff.mp hkeep).1⟩

end SessionStore

end FusionLocalServer.Login
