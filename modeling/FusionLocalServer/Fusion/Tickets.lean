import Mathlib.Logic.Function.Basic

/-!
# Fusion tickets

The grant that crosses from the browser to the helper app: minted for a session, redeemed once
by whoever brings its id, reported on once, and read by the session that it was minted for. The
store maps an id to the address of its ticket, so that a ticket is told from another that was
given its id.
-/

namespace Fusion

/-! ## What the helper understands -/

def actionOpen := "open"
def actionInsert := "insert"

def validAction (a : String) : Bool := a == actionOpen || a == actionInsert

def codeNotRunning := "fusion_not_running"
def codeWrongHub := "fusion_wrong_hub"
def codeNoActiveDesign := "fusion_no_active_design"
def codeFailed := "fusion_failed"

def validCode (c : String) : Bool :=
  [codeNotRunning, codeWrongHub, codeNoActiveDesign, codeFailed].contains c

/-! ## Tickets -/

/-- Times are nanoseconds on the server's clock. -/
def second : Int := 1000000000

def fusionTicketTTL : Int := 2 * 60 * second

def fusionOutcomeTTL : Int := 5 * 60 * second

/-- What a ticket is minted with. -/
structure Grant where
  id : String
  sessionID : String
  userKey : String
  action : String
  fileID : String
  dmProjectID : String
  projectID : String
  projectName : String
  docName : String
  hubID : String
deriving DecidableEq

structure FusionTicket extends Grant where
  expiresAt : Int
  redeemed : Bool := false
  reported : Bool := false
  ok : Bool := false
  errCode : String := ""
  reportedAt : Int := 0

namespace FusionTicket

/-- `now.After(t.ExpiresAt)` -/
def expired (t : FusionTicket) (now : Int) : Bool := decide (t.expiresAt < now)

def prunable (t : FusionTicket) (now : Int) : Bool :=
  if t.reported then decide (fusionOutcomeTTL < now - t.reportedAt) else t.expired now

end FusionTicket

/-- What the helper collects. -/
structure FusionTicketDTO where
  action : String
  fileID : String
  dmProjectID : String
  docName : String
deriving DecidableEq

def Grant.payload (g : Grant) : FusionTicketDTO :=
  { action := g.action, fileID := g.fileID, dmProjectID := g.dmProjectID, docName := g.docName }

/-- What the browser is told of a ticket. -/
structure FusionOutcomeDTO where
  status : String
  errorCode : String := ""
deriving DecidableEq

def FusionTicket.outcome (t : FusionTicket) : FusionOutcomeDTO :=
  if t.reported then
    if t.ok then { status := "ok" } else { status := "error", errorCode := t.errCode }
  else { status := "pending" }

/-! ## The store -/

structure FusionTicketStore where
  /-- The tickets that were ever made, by address. -/
  heap : List FusionTicket := []
  tickets : String → Option Nat := fun _ => none

namespace FusionTicketStore

variable (s : FusionTicketStore) (id : String) (now : Int)

def find : Option (Nat × FusionTicket) :=
  (s.tickets id).bind fun a => s.heap[a]?.map fun t => (a, t)

/-- Drops the dead tickets. -/
def sweep : FusionTicketStore :=
  { s with tickets := fun id => (s.tickets id).filter fun a =>
      (s.heap[a]?.map fun t => !t.prunable now).getD true }

/-- Stores the ticket that was made at address `a`, over one that has its id. -/
def add (a : Nat) : FusionTicketStore :=
  match s.heap[a]? with
  | some t => { s with tickets := Function.update (s.sweep now).tickets t.id (some a) }
  | none => s.sweep now

def redeem : FusionTicketStore × Option (Nat × FusionTicket) :=
  if id = "" then (s, none)
  else match s.find id with
  | none => (s, none)
  | some (a, t) =>
    if t.redeemed || t.expired now then (s, none)
    else
      let t := { t with redeemed := true }
      ({ s with heap := s.heap.set a t }, some (a, t))

def report (ok : Bool) (errCode : String) : FusionTicketStore × Option (Nat × FusionTicket) :=
  if id = "" then (s, none)
  else match s.find id with
  | none => (s, none)
  | some (a, t) =>
    if !t.redeemed || t.reported then (s, none)
    else
      let t := { t with reported := true, ok, errCode, reportedAt := now }
      ({ s with heap := s.heap.set a t }, some (a, t))

def outcome (sessionID : String) : Option (Nat × FusionTicket) :=
  (s.find id).filter fun found => found.2.sessionID == sessionID

/-! ### What the operations do -/

variable {s id now}

theorem find_heap {a : Nat} {t : FusionTicket} (h : s.find id = some (a, t)) :
    s.heap[a]? = some t := by
  simp only [find, Option.bind_eq_some_iff, Option.map_eq_some_iff, Prod.mk.injEq] at h
  obtain ⟨_, -, _, ht, rfl, rfl⟩ := h
  exact ht

@[simp] theorem sweep_heap : (s.sweep now).heap = s.heap := rfl

@[simp] theorem add_heap (a : Nat) : (s.add now a).heap = s.heap := by
  unfold add
  split <;> rfl

/-- A redeem is refused, or hands out a ticket that was neither redeemed nor expired. -/
theorem redeem_cases (s : FusionTicketStore) (id : String) (now : Int) :
    s.redeem id now = (s, none) ∨
    ∃ a t, s.heap[a]? = some t ∧ t.redeemed = false ∧ now ≤ t.expiresAt ∧
      s.redeem id now = ({ s with heap := s.heap.set a { t with redeemed := true } },
        some (a, { t with redeemed := true })) := by
  by_cases hid : id = ""
  · exact .inl (by simp [redeem, hid])
  cases hfound : s.find id with
  | none => exact .inl (by simp [redeem, hid, hfound])
  | some found =>
    obtain ⟨a, t⟩ := found
    by_cases hrefused : t.redeemed || t.expired now
    · exact .inl (by simp [redeem, hid, hfound, hrefused])
    · simp only [Bool.or_eq_true, not_or, FusionTicket.expired, decide_eq_true_eq,
        Bool.not_eq_true, Int.not_lt] at hrefused
      refine .inr ⟨a, t, find_heap hfound, hrefused.1, hrefused.2, ?_⟩
      simp [redeem, hid, hfound, hrefused, FusionTicket.expired]

/-- A report is refused, or taken for a ticket that was redeemed and not reported on. -/
theorem report_cases (s : FusionTicketStore) (id : String) (now : Int) (ok : Bool)
    (errCode : String) : s.report id now ok errCode = (s, none) ∨
    ∃ a t, s.heap[a]? = some t ∧ t.redeemed = true ∧ t.reported = false ∧
      s.report id now ok errCode =
        ({ s with heap := s.heap.set a { t with reported := true, ok, errCode, reportedAt := now } },
          some (a, { t with reported := true, ok, errCode, reportedAt := now })) := by
  by_cases hid : id = ""
  · exact .inl (by simp [report, hid])
  cases hfound : s.find id with
  | none => exact .inl (by simp [report, hid, hfound])
  | some found =>
    obtain ⟨a, t⟩ := found
    by_cases hrefused : !t.redeemed || t.reported
    · exact .inl (by simp [report, hid, hfound, hrefused])
    · simp only [Bool.or_eq_true, not_or, Bool.not_eq_true', Bool.not_eq_true,
        Bool.not_eq_false] at hrefused
      refine .inr ⟨a, t, find_heap hfound, hrefused.1, hrefused.2, ?_⟩
      simp [report, hid, hfound, hrefused]

theorem outcome_some {sessionID : String} {a : Nat} {t : FusionTicket}
    (h : s.outcome id sessionID = some (a, t)) :
    s.heap[a]? = some t ∧ t.sessionID = sessionID := by
  simp only [outcome, Option.filter_eq_some_iff, beq_iff_eq] at h
  exact ⟨find_heap h.1, h.2⟩

end FusionTicketStore

end Fusion
