import FusionLocalServer.Fusion.Tickets
import FusionLocalServer.Lib.Run
import FusionLocalServer.Lib.Search

/-!
# The ticket protocol

Sessions, helpers and the janitor at one store, in any order. A call that reads the clock before
it takes the lock does so in a step of its own, so that time and the other calls can come
between the two.

What was told to whom is kept in a log. The protocol itself says of a log which entries may
follow which (`Told`); the store's logs are of that kind.
-/

namespace Fusion

open Lib (getElem?_snoc getElem?_set_cases)

/-! ## The protocol -/

/-- What happened to a ticket, which goes by its address. -/
inductive Entry where
  | issued (ticket : Nat) (grant : Grant) (at_ : Int)
  /-- Handed to a helper, whose call had read the clock when it asked. -/
  | handed (ticket : Nat) (payload : FusionTicketDTO) (asked : Int) (at_ : Int)
  | accepted (ticket : Nat) (outcome : FusionOutcomeDTO)
  /-- Shown to a session. -/
  | seen (ticket : Nat) (sessionID : String) (outcome : FusionOutcomeDTO)
deriving DecidableEq

namespace Entry

def issues (a : Nat) : Entry → Bool
  | issued b _ _ => a == b
  | _ => false

def hands (a : Nat) : Entry → Bool
  | handed b _ _ _ => a == b
  | _ => false

def accepts (a : Nat) : Entry → Bool
  | accepted b _ => a == b
  | _ => false

end Entry

/-- What may be told after a log, which has its latest entry first. -/
def Fits (log : List Entry) : Entry → Prop
  | .issued a _ _ => log.countP (·.issues a) = 0
  | .handed a payload asked _ => log.countP (·.hands a) = 0 ∧
      ∃ g at_, .issued a g at_ ∈ log ∧ payload = g.payload ∧ asked ≤ at_ + fusionTicketTTL
  | .accepted a _ => log.countP (·.accepts a) = 0 ∧ ∃ payload asked at_, .handed a payload asked at_ ∈ log
  | .seen a sessionID outcome => (∃ g at_, .issued a g at_ ∈ log ∧ g.sessionID = sessionID) ∧
      (.accepted a outcome ∈ log ∨
        outcome = { status := "pending" } ∧ log.countP (·.accepts a) = 0)

/-- A log of the protocol. -/
def Told : List Entry → Prop
  | [] => True
  | e :: log => Fits log e ∧ Told log

namespace Told

variable {log : List Entry} {a : Nat}

/-- What is told fits what was told before it. -/
theorem fits {e : Entry} {earlier : List Entry} : ∀ {later : List Entry},
    Told (later ++ e :: earlier) → Fits earlier e
  | [], h => h.1
  | _ :: _, h => fits h.2

theorem fits_mem {e : Entry} (h : Told log) (he : e ∈ log) :
    ∃ later earlier, log = later ++ e :: earlier ∧ Fits earlier e := by
  obtain ⟨later, earlier, rfl⟩ := List.append_of_mem he
  exact ⟨later, earlier, rfl, h.fits⟩

/-- What may follow only where there is none yet is there at most once. -/
theorem countP_le_one {p : Entry → Bool} (h : Told log)
    (hfirst : ∀ earlier e, Fits earlier e → p e = true → earlier.countP p = 0) :
    log.countP p ≤ 1 := by
  induction log with
  | nil => simp
  | cons e earlier ih =>
    have hrest := ih h.2
    cases hp : p e with
    | false => simpa [hp] using hrest
    | true => simp [hp, hfirst earlier e h.1 hp]

theorem issued_once (h : Told log) : log.countP (·.issues a) ≤ 1 := by
  refine h.countP_le_one fun earlier e hfits hp => ?_
  cases e <;> simp only [Entry.issues, beq_iff_eq, Bool.false_eq_true] at hp
  subst hp
  exact hfits

theorem handed_once (h : Told log) : log.countP (·.hands a) ≤ 1 := by
  refine h.countP_le_one fun earlier e hfits hp => ?_
  cases e <;> simp only [Entry.hands, beq_iff_eq, Bool.false_eq_true] at hp
  subst hp
  exact hfits.1

theorem accepted_once (h : Told log) : log.countP (·.accepts a) ≤ 1 := by
  refine h.countP_le_one fun earlier e hfits hp => ?_
  cases e <;> simp only [Entry.accepts, beq_iff_eq, Bool.false_eq_true] at hp
  subst hp
  exact hfits.1

theorem handed_in_time (h : Told log) {payload : FusionTicketDTO} {asked now : Int}
    (he : .handed a payload asked now ∈ log) :
    ∃ g at_, .issued a g at_ ∈ log ∧ payload = g.payload ∧ asked ≤ at_ + fusionTicketTTL := by
  obtain ⟨later, earlier, rfl, -, g, at_, hissued, htold⟩ := h.fits_mem he
  exact ⟨g, at_, by simp [hissued], htold⟩

theorem seen_own (h : Told log) {sessionID : String} {outcome : FusionOutcomeDTO}
    (he : .seen a sessionID outcome ∈ log) :
    ∃ g at_, .issued a g at_ ∈ log ∧ g.sessionID = sessionID := by
  obtain ⟨later, earlier, rfl, ⟨g, at_, hissued, hown⟩, -⟩ := h.fits_mem he
  exact ⟨g, at_, by simp [hissued], hown⟩

end Told

/-! ## The calls at a store -/

/-- A call that has read the clock and has yet to take the lock. -/
inductive Call where
  /-- A ticket was made for a session, at an address. -/
  | minted (a : Nat)
  | add (a : Nat) (now : Int)
  | redeem (id : String) (now : Int)
  | sweep (now : Int)
  | done

inductive Event where
  | tick (d : Nat)
  /-- `handleFusionAction` makes a ticket. -/
  | mint (g : Grant)
  /-- A minted ticket's `add` reads the clock. -/
  | add (call : Nat)
  /-- `handleFusionTicket` reads the clock. -/
  | redeem (id : String)
  /-- The janitor reads the clock. -/
  | sweep
  /-- A call takes the lock, and does what it came for. -/
  | lock (call : Nat)
  /-- `handleFusionCallback` -/
  | callback (id : String) (ok : Bool) (code : String)
  /-- `handleFusionOutcome`, for a session -/
  | poll (id : String) (sessionID : String)

structure World where
  clock : Int
  store : FusionTicketStore := {}
  calls : List Call := []
  log : List Entry := []

namespace World

variable (w : World)

/-- The code that a callback is recorded with. -/
def callbackCode (ok : Bool) (code : String) : String :=
  if ok then "" else if validCode code then code else codeFailed

def mint (g : Grant) : World :=
  { w with
    store := { w.store with
      heap := w.store.heap ++ [{ toGrant := g, expiresAt := w.clock + fusionTicketTTL }] }
    calls := w.calls ++ [.minted w.store.heap.length]
    log := .issued w.store.heap.length g w.clock :: w.log }

/-- What a call does under the lock. -/
def locked : Call → Option World
  | .add a now => some { w with store := w.store.add now a }
  | .redeem id now =>
    match w.store.redeem id now with
    | (store, some (a, t)) => some { w with store, log := .handed a t.payload now w.clock :: w.log }
    | (store, none) => some { w with store }
  | .sweep now => some { w with store := w.store.sweep now }
  | .minted _ | .done => none

def callback (id : String) (ok : Bool) (code : String) : World :=
  match w.store.report id w.clock ok (callbackCode ok code) with
  | (store, some (a, t)) => { w with store, log := .accepted a t.outcome :: w.log }
  | (store, none) => { w with store }

def poll (id sessionID : String) : World :=
  match w.store.outcome id sessionID with
  | some (a, t) => { w with log := .seen a sessionID t.outcome :: w.log }
  | none => w

def step (w : World) : Event → Option World
  | .tick d => some { w with clock := w.clock + d }
  | .mint g =>
    if validAction g.action && g.fileID != "" && g.dmProjectID != "" then some (w.mint g) else none
  | .add n =>
    match w.calls[n]? with
    | some (.minted a) => some { w with calls := w.calls.set n (.add a w.clock) }
    | _ => none
  | .redeem id => some { w with calls := w.calls ++ [.redeem id w.clock] }
  | .sweep => some { w with calls := w.calls ++ [.sweep w.clock] }
  | .lock n =>
    match w.calls[n]? with
    | some call => (w.locked call).map fun w => { w with calls := w.calls.set n .done }
    | none => none
  | .callback id ok code => some (w.callback id ok code)
  | .poll id sessionID => some (w.poll id sessionID)

def start (clock : Int) : World := { clock }

/-! ## The store keeps the protocol -/

/-- What a ticket says was told of it. -/
structure Kept (log : List Entry) (a : Nat) (t : FusionTicket) : Prop where
  issued : ∃ at_, .issued a t.toGrant at_ ∈ log ∧ t.expiresAt = at_ + fusionTicketTTL
  fresh : t.redeemed = false → log.countP (·.hands a) = 0
  handed : t.redeemed = true → ∃ payload asked at_, .handed a payload asked at_ ∈ log
  open_ : t.reported = false → log.countP (·.accepts a) = 0
  accepted : t.reported = true → .accepted a t.outcome ∈ log

/-- The log is of the protocol, and the tickets say what it has of them. -/
structure Inv (w : World) : Prop where
  told : Told w.log
  kept : ∀ a t, w.store.heap[a]? = some t → Kept w.log a t
  issued : ∀ a, w.store.heap.length ≤ a → w.log.countP (·.issues a) = 0
  handed : ∀ a, w.store.heap.length ≤ a → w.log.countP (·.hands a) = 0
  accepted : ∀ a, w.store.heap.length ≤ a → w.log.countP (·.accepts a) = 0

section

variable {w w' : World} {log : List Entry} {a : Nat} {t : FusionTicket}

/-- What is told of other tickets leaves what is told of this one. -/
theorem Kept.later (h : Kept log a t) {e : Entry} (hhands : e.hands a = false)
    (haccepts : e.accepts a = false) : Kept (e :: log) a t where
  issued := h.issued.imp fun _ hi => ⟨List.mem_cons_of_mem _ hi.1, hi.2⟩
  fresh hr := by simpa [hhands] using h.fresh hr
  handed hr := by
    obtain ⟨payload, asked, at_, he⟩ := h.handed hr
    exact ⟨payload, asked, at_, List.mem_cons_of_mem _ he⟩
  open_ hr := by simpa [haccepts] using h.open_ hr
  accepted hr := List.mem_cons_of_mem _ (h.accepted hr)

/-- A step that leaves the tickets and the log. -/
theorem Inv.same (h : Inv w) (hheap : w'.store.heap = w.store.heap) (hlog : w'.log = w.log) :
    Inv w' := by
  obtain ⟨told, kept, issued, handed, accepted⟩ := h
  rw [← hlog] at told kept issued handed accepted
  rw [← hheap] at kept issued handed accepted
  exact ⟨told, kept, issued, handed, accepted⟩

/-- A step that tells something. -/
theorem Inv.tell (h : Inv w) {e : Entry} (hlog : w'.log = e :: w.log) (hfits : Fits w.log e)
    (hlen : w.store.heap.length ≤ w'.store.heap.length)
    (hkept : ∀ a t, w'.store.heap[a]? = some t →
      (e.hands a = false ∧ e.accepts a = false ∧ w.store.heap[a]? = some t) ∨ Kept w'.log a t)
    (habout : ∀ a, w'.store.heap.length ≤ a →
      e.issues a = false ∧ e.hands a = false ∧ e.accepts a = false) : Inv w' where
  told := by
    rw [hlog]
    exact ⟨hfits, h.told⟩
  kept a t ht := by
    rcases hkept a t ht with ⟨hhands, haccepts, hold⟩ | hkept
    · rw [hlog]
      exact (h.kept a t hold).later hhands haccepts
    · exact hkept
  issued a ha := by simpa [hlog, (habout a ha).1] using h.issued a (Nat.le_trans hlen ha)
  handed a ha := by simpa [hlog, (habout a ha).2.1] using h.handed a (Nat.le_trans hlen ha)
  accepted a ha := by simpa [hlog, (habout a ha).2.2] using h.accepted a (Nat.le_trans hlen ha)

theorem lt_of_get (ht : w.store.heap[a]? = some t) : a < w.store.heap.length :=
  (List.getElem?_eq_some_iff.mp ht).1

theorem Inv.mint (h : Inv w) (g : Grant) : Inv (w.mint g) := by
  refine h.tell rfl (h.issued _ (Nat.le_refl _)) (by simp [World.mint]) (fun b t' ht' => ?_)
    (fun b hb => ?_)
  · rcases getElem?_snoc.mp ht' with hold | ⟨rfl, rfl⟩
    · exact .inl ⟨rfl, rfl, hold⟩
    · -- the new ticket: nothing was told of it but that it was issued
      refine .inr ⟨⟨w.clock, List.mem_cons_self, rfl⟩, fun _ => ?_, fun hr => (nomatch hr),
        fun _ => ?_, fun hr => (nomatch hr)⟩
      · simpa [World.mint, Entry.hands] using h.handed _ (Nat.le_refl _)
      · simpa [World.mint, Entry.accepts] using h.accepted _ (Nat.le_refl _)
  · simp only [World.mint, List.length_append, List.length_singleton] at hb
    exact ⟨by simp only [Entry.issues, beq_eq_false_iff_ne]; omega, rfl, rfl⟩

/-- A redeem that is granted is the first of its ticket, and in time. -/
theorem Inv.redeemed (h : Inv w) {now : Int} (ht : w.store.heap[a]? = some t)
    (hfresh : t.redeemed = false) (hlive : now ≤ t.expiresAt)
    (hlog : w'.log = .handed a t.payload now w.clock :: w.log)
    (hheap : w'.store.heap = w.store.heap.set a { t with redeemed := true }) : Inv w' := by
  have hkept := h.kept a t ht
  obtain ⟨at_, hissued, hexpires⟩ := hkept.issued
  refine h.tell hlog ⟨hkept.fresh hfresh, _, at_, hissued, rfl, hexpires ▸ hlive⟩
    (by simp [hheap]) (fun b t' ht' => ?_) (fun b hb => ?_)
  · rw [hheap] at ht'
    rcases getElem?_set_cases ht' with ⟨rfl, rfl⟩ | ⟨hne, hold⟩
    · rw [hlog]
      refine .inr ⟨⟨at_, List.mem_cons_of_mem _ hissued, hexpires⟩, fun hr => (nomatch hr),
        fun _ => ⟨_, _, _, List.mem_cons_self⟩, fun hr => ?_, fun hr => ?_⟩
      · simpa [Entry.accepts] using hkept.open_ hr
      · exact List.mem_cons_of_mem _ (hkept.accepted hr)
    · exact .inl ⟨by simpa [Entry.hands] using hne, rfl, hold⟩
  · rw [hheap, List.length_set] at hb
    have hlt := lt_of_get ht
    exact ⟨rfl, by simp only [Entry.hands, beq_eq_false_iff_ne]; omega, rfl⟩

/-- A report that is taken is the first of its ticket, which was redeemed. -/
theorem Inv.reported (h : Inv w) {now : Int} {ok : Bool} {errCode : String}
    (ht : w.store.heap[a]? = some t) (hredeemed : t.redeemed = true)
    (hopen : t.reported = false)
    (hlog : w'.log = .accepted a { t with reported := true, ok, errCode, reportedAt := now }.outcome ::
      w.log)
    (hheap : w'.store.heap =
      w.store.heap.set a { t with reported := true, ok, errCode, reportedAt := now }) : Inv w' := by
  have hkept := h.kept a t ht
  obtain ⟨at_, hissued, hexpires⟩ := hkept.issued
  refine h.tell hlog ⟨hkept.open_ hopen, hkept.handed hredeemed⟩
    (by simp [hheap]) (fun b t' ht' => ?_) (fun b hb => ?_)
  · rw [hheap] at ht'
    rcases getElem?_set_cases ht' with ⟨rfl, rfl⟩ | ⟨hne, hold⟩
    · rw [hlog]
      refine .inr ⟨⟨at_, List.mem_cons_of_mem _ hissued, hexpires⟩, fun hr => ?_, fun hr => ?_,
        fun hr => (nomatch hr), fun _ => List.mem_cons_self⟩
      · simpa [Entry.hands] using hkept.fresh hr
      · obtain ⟨payload, asked, now, he⟩ := hkept.handed hr
        exact ⟨payload, asked, now, List.mem_cons_of_mem _ he⟩
    · exact .inl ⟨rfl, by simpa [Entry.accepts] using hne, hold⟩
  · rw [hheap, List.length_set] at hb
    have hlt := lt_of_get ht
    exact ⟨rfl, rfl, by simp only [Entry.accepts, beq_eq_false_iff_ne]; omega⟩

theorem Inv.poll (h : Inv w) (id sessionID : String) : Inv (w.poll id sessionID) := by
  unfold World.poll
  split
  · next a t hfound =>
    obtain ⟨ht, hown⟩ := FusionTicketStore.outcome_some hfound
    have hkept := h.kept a t ht
    obtain ⟨at_, hissued, -⟩ := hkept.issued
    refine h.tell rfl ⟨⟨_, at_, hissued, hown⟩, ?_⟩ (Nat.le_refl _) (fun b t' ht' => .inl ⟨rfl, rfl, ht'⟩)
      (fun _ _ => ⟨rfl, rfl, rfl⟩)
    cases hr : t.reported with
    | true => exact .inl (hkept.accepted hr)
    | false => exact .inr ⟨by simp [FusionTicket.outcome, hr], hkept.open_ hr⟩
  · exact h

theorem Inv.callback (h : Inv w) (id : String) (ok : Bool) (code : String) :
    Inv (w.callback id ok code) := by
  unfold World.callback
  rcases FusionTicketStore.report_cases w.store id w.clock ok (callbackCode ok code) with
    hr | ⟨a, t, ht, hredeemed, hopen, hr⟩
  · rw [hr]
    exact h.same rfl rfl
  · rw [hr]
    exact h.reported ht hredeemed hopen rfl rfl

theorem Inv.locked (h : Inv w) {call : Call} (hstep : w.locked call = some w') : Inv w' := by
  cases call with
  | minted | done => cases hstep
  | add a now =>
    cases hstep
    exact h.same (FusionTicketStore.add_heap a) rfl
  | sweep now =>
    cases hstep
    exact h.same rfl rfl
  | redeem id now =>
    rcases FusionTicketStore.redeem_cases w.store id now with hr | ⟨a, t, ht, hfresh, hlive, hr⟩
    · simp only [World.locked, hr, Option.some.injEq] at hstep
      subst hstep
      exact h.same rfl rfl
    · simp only [World.locked, hr, Option.some.injEq] at hstep
      subst hstep
      exact h.redeemed ht hfresh hlive rfl rfl

theorem Inv.step (h : Inv w) {e : Event} (hstep : w.step e = some w') : Inv w' := by
  cases e with
  | tick | redeem | sweep =>
    cases hstep
    exact h.same rfl rfl
  | mint g =>
    simp only [World.step, Option.ite_none_right_eq_some, Option.some.injEq] at hstep
    obtain ⟨-, rfl⟩ := hstep
    exact h.mint g
  | add n =>
    simp only [World.step] at hstep
    split at hstep
    · cases hstep
      exact h.same rfl rfl
    · cases hstep
  | lock n =>
    simp only [World.step] at hstep
    split at hstep
    · simp only [Option.map_eq_some_iff] at hstep
      obtain ⟨w', hlocked, rfl⟩ := hstep
      exact (h.locked hlocked).same rfl rfl
    · cases hstep
  | callback id ok code =>
    cases hstep
    exact h.callback id ok code
  | poll id sessionID =>
    cases hstep
    exact h.poll id sessionID

theorem inv_start (clock : Int) : Inv (start clock) :=
  ⟨trivial, fun _ _ ht => by simp [start] at ht, fun _ _ => rfl, fun _ _ => rfl, fun _ _ => rfl⟩

end

/-- A run of the server, from its start. -/
abbrev Reaches (clock : Int) (es : List Event) (w : World) : Prop :=
  Lib.Run (fun w e w' => w.step e = some w') Lib.always (start clock) es w

/-- The store's log is of the protocol. -/
theorem told_of_run {clock : Int} {es : List Event} {w : World} (h : Reaches clock es w) :
    Told w.log :=
  (h.invariant (P := Inv) (inv_start clock) fun _ _ _ hi _ hstep => hi.step hstep).told

/-- A ticket is issued to one session. Its payload is handed out at most once, and not to a
helper that asks after it has expired. A result is accepted at most once, after the payload was
handed out, and what comes of it is shown to the session it was issued to alone. -/
theorem tickets_single_use {clock : Int} {es : List Event} {w : World}
    (h : Reaches clock es w) (a : Nat) :
    w.log.countP (·.issues a) ≤ 1 ∧
    w.log.countP (·.hands a) ≤ 1 ∧
    (∀ payload asked now, .handed a payload asked now ∈ w.log → ∃ g at_, .issued a g at_ ∈ w.log ∧
      payload = g.payload ∧ asked ≤ at_ + fusionTicketTTL) ∧
    w.log.countP (·.accepts a) ≤ 1 ∧
    (∀ later earlier outcome, w.log = later ++ .accepted a outcome :: earlier →
      ∃ payload asked at_, .handed a payload asked at_ ∈ earlier) ∧
    (∀ sessionID outcome, .seen a sessionID outcome ∈ w.log →
      ∃ g at_, .issued a g at_ ∈ w.log ∧ g.sessionID = sessionID) := by
  have htold := told_of_run h
  refine ⟨htold.issued_once, htold.handed_once, fun _ _ _ => htold.handed_in_time,
    htold.accepted_once, fun later earlier outcome hlog => ?_, fun _ _ => htold.seen_own⟩
  rw [hlog] at htold
  exact htold.fits.2

def opening : Grant where
  id := "t"
  sessionID := "s1"
  userKey := "u1"
  action := actionOpen
  fileID := "urn:f"
  dmProjectID := "b.p"
  projectID := "p"
  projectName := "P"
  docName := "D"
  hubID := "h"

/-- A ticket is redeemed twice and reported on twice, and polled by its session and another. -/
def replayed : List Event :=
  [.mint opening, .add 0, .lock 0, .redeem "t", .redeem "t", .lock 2, .lock 1,
    .callback "t" false "no such code", .callback "t" true "", .poll "t" "s1", .poll "t" "s2"]

theorem tickets_single_use_replayed : ∃ w, Reaches 0 replayed w ∧
    w.log.countP (·.hands 0) ≤ 1 ∧ w.log.countP (·.accepts 0) ≤ 1 ∧
    .seen 0 "s1" { status := "error", errorCode := codeFailed } ∈ w.log := by
  have hrun : Reaches 0 replayed _ := Lib.Run.of_exec replayed rfl
  obtain ⟨-, hhands, -, haccepts, -⟩ := tickets_single_use hrun 0
  exact ⟨_, hrun, hhands, haccepts, by decide⟩

/-- The helper asks at the very end of the ticket's time, and then waits for the lock. -/
def waited : List Event :=
  [.mint opening, .add 0, .lock 0, .tick 120000000000, .redeem "t", .tick 1, .lock 1]

/-- The payload is handed out after the ticket has expired. -/
theorem handed_late : ∃ w, Reaches 0 waited w ∧ ∃ g at_ payload asked now,
    .issued 0 g at_ ∈ w.log ∧ .handed 0 payload asked now ∈ w.log ∧
    at_ + fusionTicketTTL < now :=
  ⟨_, Lib.Run.of_exec waited rfl, opening, 0, opening.payload, 120000000000, 120000000001,
    by decide, by decide, by decide⟩

end World

end Fusion
