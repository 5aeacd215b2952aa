import FusionLocalServer.Lib.Run

/-!
# The hub a session is locked to (`server/session.go`, `server/handlers_session.go`)

A session carries the hub it is locked to and the Data Management id of that hub. Selecting
a hub sets the one, which empties the other, and then sets the other, in two calls that take
the session's lock each for itself; a snapshot of the sessions reads them in two calls too.
The calls are steps here, those of other requests in between.

Selecting a hub ends with the two belonging together, unless another selection came between
its two calls; `reports_own_hub` is about runs, and `two_selections` is the run of two
selections that leaves the session with the id of the wrong hub.
-/

namespace FusionLocalServer.Sessions

open Lib

/-- The part of a session that `hubMu` guards. -/
structure Session where
  selectedHubID : String := ""
  selectedHubName : String := ""
  selectedHubAltID : String := ""
  deriving DecidableEq

namespace Session

def setSelectedHub (s : Session) (hubID hubName : String) : Session :=
  { s with selectedHubID := hubID, selectedHubName := hubName, selectedHubAltID := "" }

def setSelectedHubAltID (s : Session) (altID : String) : Session :=
  { s with selectedHubAltID := altID }

end Session

/-- What is kept of a session across restarts. -/
structure PersistedSession where
  selectedHubID : String
  selectedHubName : String
  selectedHubAltID : String
  deriving DecidableEq

/-- `load`, for one session. -/
def PersistedSession.load (ps : PersistedSession) : Session :=
  (({} : Session).setSelectedHub ps.selectedHubID ps.selectedHubName).setSelectedHubAltID
    ps.selectedHubAltID

/-- A hub in the list of those the caller is a member of. -/
structure HubEntry where
  id : String
  name : String
  altID : String
  deriving DecidableEq

/-- Where a call of `handleSessionHub` stands. -/
inductive Request where
  /-- The hub is in the caller's list, and its stores are open. -/
  | found (hub : HubEntry)
  /-- The session is locked to it; the DM id comes next. -/
  | locked (hub : HubEntry)
  | done
  deriving DecidableEq

/-- A write of the session file under way; there is only ever one. What is read of the
session is nothing when the session is gone. -/
inductive Saving where
  | readHub (hub : Option (String × String))
  | taken (ps : Option PersistedSession)
  deriving DecidableEq

/-- One session at its store. -/
structure World where
  /-- It is in the store: not expired, not logged out. -/
  live : Bool := true
  session : Session := {}
  requests : List Request := []
  saving : Option Saving := none
  /-- The session in the file. -/
  file : Option PersistedSession := none
  deriving DecidableEq

inductive Event where
  /-- `handleSessionHub` finds the hub in the caller's list. -/
  | select (hubID hubName : String)
  /-- Its call of `SetSelectedHub`. -/
  | setSelectedHub (request : Nat)
  /-- Its call of `SetSelectedHubAltID`. -/
  | setSelectedHubAltID (request : Nat)
  /-- `snapshot` calls `SelectedHub`. -/
  | readSelectedHub
  /-- `snapshot` calls `SelectedHubAltID`. -/
  | readSelectedHubAltID
  /-- The snapshot is in the file, or writing it failed. -/
  | write (ok : Bool)
  | delete
  /-- The process ends, and the next one loads the file. A session past its deadlines, or of
  a user who may not log in any more, is dropped. -/
  | restart (dropped : Bool)
  deriving DecidableEq

namespace World

/-- A request goes on: `SetSelectedHub` and `SetSelectedHubAltID` look the session up. -/
def proceed (w : World) (request : Nat) (next : Request) (session : Session) : World :=
  if w.live then { w with requests := w.requests.set request next, session }
  else { w with requests := w.requests.set request .done }

/-- One step; `dmID` gives the Data Management ids of the hubs. -/
def step (dmID : String → String) (w : World) : Event → Option World
  | .select hubID hubName =>
    some { w with requests := w.requests ++ [.found ⟨hubID, hubName, dmID hubID⟩] }
  | .setSelectedHub request =>
    match w.requests[request]? with
    | some (.found hub) =>
      some (w.proceed request (.locked hub) (w.session.setSelectedHub hub.id hub.name))
    | _ => none
  | .setSelectedHubAltID request =>
    match w.requests[request]? with
    | some (.locked hub) =>
      some (w.proceed request .done (w.session.setSelectedHubAltID hub.altID))
    | _ => none
  | .readSelectedHub =>
    if w.saving = none then
      some { w with saving := some (.readHub
        (if w.live then some (w.session.selectedHubID, w.session.selectedHubName) else none)) }
    else none
  | .readSelectedHubAltID =>
    match w.saving with
    | some (.readHub hub) =>
      some { w with saving := some (.taken (hub.map fun (hubID, hubName) =>
        ⟨hubID, hubName, w.session.selectedHubAltID⟩)) }
    | _ => none
  | .write ok =>
    match w.saving with
    | some (.taken ps) => some { w with saving := none, file := if ok then ps else w.file }
    | _ => none
  | .delete =>
    -- a snapshot holds the lock of the store between its reads
    match w.saving with
    | some (.readHub _) => none
    | _ => some { w with live := false }
  | .restart dropped =>
    match (if dropped then none else w.file) with
    | none => some { w with live := false, session := {}, requests := [], saving := none }
    | some ps => some { w with live := true, session := ps.load, requests := [], saving := none }

end World

/-! ## The two belong together -/

variable {dmID : String → String}

/-- The id is empty or that of the hub. -/
def Belongs (dmID : String → String) (altID hubID : String) : Prop :=
  altID = "" ∨ altID = dmID hubID

/-- What the session reports, now and after a restart. -/
structure World.Reports (dmID : String → String) (w : World) : Prop where
  memory : Belongs dmID w.session.selectedHubAltID w.session.selectedHubID
  reload : ∀ ps ∈ w.file, Belongs dmID ps.load.selectedHubAltID ps.load.selectedHubID

/-- No other selection comes in between: a request sets the DM id of the hub the session is
locked to, and a snapshot reads the DM id of the hub it has read. -/
def World.Undisturbed (dmID : String → String) (w : World) : Event → Prop
  | .setSelectedHubAltID request => ∀ hub, w.requests[request]? = some (.locked hub) →
      w.live = true → Belongs dmID hub.altID w.session.selectedHubID
  | .readSelectedHubAltID => ∀ hubID hubName, w.saving = some (.readHub (some (hubID, hubName))) →
      Belongs dmID w.session.selectedHubAltID hubID
  | _ => True

namespace World

structure Inv (dmID : String → String) (w : World) : Prop where
  reports : w.Reports dmID
  taken : ∀ ps, w.saving = some (.taken (some ps)) → Belongs dmID ps.selectedHubAltID ps.selectedHubID

/-- A request that goes on leaves the session as it was or as it wants it. -/
theorem Inv.proceed {w : World} (h : w.Inv dmID) (request : Nat) (next : Request) {session : Session}
    (hsession : w.live = true → Belongs dmID session.selectedHubAltID session.selectedHubID) :
    (w.proceed request next session).Inv dmID := by
  unfold World.proceed
  split
  · next hlive => exact ⟨⟨hsession hlive, h.reports.reload⟩, h.taken⟩
  · exact ⟨⟨h.reports.memory, h.reports.reload⟩, h.taken⟩

theorem Inv.step {w w' : World} {e : Event} (h : w.Inv dmID) (hok : w.Undisturbed dmID e)
    (hstep : w.step dmID e = some w') : w'.Inv dmID := by
  cases e with
  | select hubID hubName =>
    cases hstep
    exact ⟨⟨h.reports.memory, h.reports.reload⟩, h.taken⟩
  | setSelectedHub request =>
    simp only [World.step] at hstep
    split at hstep
    · cases hstep
      exact h.proceed request _ fun _ => .inl rfl
    · cases hstep
  | setSelectedHubAltID request =>
    simp only [World.step] at hstep
    split at hstep
    · next hub hrequest =>
      cases hstep
      exact h.proceed request _ (hok hub hrequest)
    · cases hstep
  | readSelectedHub =>
    simp only [World.step] at hstep
    split at hstep
    · cases hstep
      exact ⟨⟨h.reports.memory, h.reports.reload⟩, fun _ hps => nomatch hps⟩
    · cases hstep
  | readSelectedHubAltID =>
    simp only [World.step] at hstep
    split at hstep
    · next hub hsaving =>
      cases hstep
      refine ⟨⟨h.reports.memory, h.reports.reload⟩, fun ps hps => ?_⟩
      -- what is taken is the hub read before and the id as it is now
      cases hub with
      | none => cases hps
      | some hub =>
        cases hps
        exact hok _ _ hsaving
    · cases hstep
  | write ok =>
    simp only [World.step] at hstep
    split at hstep
    · next ps hsaving =>
      cases hstep
      refine ⟨⟨h.reports.memory, fun ps' hps' => ?_⟩, fun _ hps => nomatch hps⟩
      cases ok with
      | true => exact h.taken ps' (by rw [hsaving]; exact congrArg _ (congrArg _ hps'))
      | false => exact h.reports.reload ps' hps'
    · cases hstep
  | delete =>
    simp only [World.step] at hstep
    split at hstep
    · cases hstep
    · cases hstep
      exact ⟨⟨h.reports.memory, h.reports.reload⟩, h.taken⟩
  | restart dropped =>
    simp only [World.step] at hstep
    split at hstep
    · cases hstep
      exact ⟨⟨.inl rfl, h.reports.reload⟩, fun _ hps => nomatch hps⟩
    · next ps hps =>
      cases hstep
      have hfile : w.file = some ps := by
        cases dropped with
        | true => cases hps
        | false => exact hps
      exact ⟨⟨h.reports.reload ps hfile, h.reports.reload⟩, fun _ hps => nomatch hps⟩

/-- **The DM id is that of the hub the session is locked to**, in memory and in the file, in
every run in which no other selection comes between. -/
theorem reports_own_hub {es : List Event} {w : World}
    (h : Run (fun w e w' => w.step dmID e = some w') (Undisturbed dmID) {} es w) :
    w.Reports dmID := by
  have hinv : w.Inv dmID := by
    refine h.invariant ⟨⟨.inl rfl, fun _ hps => nomatch hps⟩, fun _ hps => nomatch hps⟩ ?_
    exact fun _ _ _ hinv hok hstep => hinv.step hok hstep
  exact hinv.reports

/-- A selection with a snapshot that has one read between its calls and one after them. -/
theorem reports_own_hub_snapshot : ∃ w : World,
    w.file = some ⟨"h", "Hub", "b.h"⟩ ∧ w.Reports fun hubID => "b." ++ hubID := by
  have hrun : Run (fun w e w' => w.step (fun hubID => "b." ++ hubID) e = some w')
      (Undisturbed fun hubID => "b." ++ hubID) {}
      [.select "h" "Hub", .setSelectedHub 0, .readSelectedHub, .setSelectedHubAltID 0,
        .readSelectedHubAltID, .write true]
      { session := ⟨"h", "Hub", "b.h"⟩, requests := [.done], file := some ⟨"h", "Hub", "b.h"⟩ } := by
    refine .cons trivial rfl <| .cons trivial rfl <| .cons trivial rfl <|
      .cons (fun hub hhub _ => ?_) rfl <| .cons (fun hubID hubName hsaving => ?_) rfl <|
      .cons trivial rfl .nil
    · cases hhub
      exact .inr rfl
    · cases hsaving
      exact .inr rfl
  exact ⟨_, rfl, reports_own_hub hrun⟩

/-- **Two selections at once**: both lock the session before either sets the DM id. -/
theorem two_selections : ∃ w : World,
    Run (fun w e w' => w.step (fun hubID => "b." ++ hubID) e = some w') always {}
      [.select "h1" "One", .select "h2" "Two", .setSelectedHub 0, .setSelectedHub 1,
        .setSelectedHubAltID 1, .setSelectedHubAltID 0] w ∧
      w.session = ⟨"h2", "Two", "b.h1"⟩ ∧ ¬ w.Reports fun hubID => "b." ++ hubID := by
  refine ⟨_, Run.of_exec _ rfl, rfl, fun h => ?_⟩
  rcases h.memory with hempty | hown
  · exact absurd hempty (by decide)
  · exact absurd hown (by decide)

end World

end FusionLocalServer.Sessions
