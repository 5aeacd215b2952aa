import Mathlib.Data.List.Nodup
import FusionLocalServer.Jobs.Settling
import FusionLocalServer.Lib.Table

/-!
# The registry of archive jobs

The manager keeps the jobs under their ids, and the ids in the order they came in. A request for an
archive asks whether the session already has a live job for the version of the document, and adds one
if not; listing takes out what finished long ago, and dismissing what has finished. Each of these
holds the manager's lock, and looks at one job after the other under that job's own lock; the jobs go
on meanwhile.

The check and the addition of a request are two holds of the lock. Two requests that both check
before either adds leave two live jobs; a request that adds while no live job of its version was
added since its check never does (`one_live_archive`). A job that has not ended is never taken out.
-/

namespace Jobs

open Std (ExtTreeMap)

/-- What an archive is asked for by, and of: all versions apart, the latest having no version id. -/
structure Target where
  sessionID : String
  itemID : String
  versionID : String
deriving DecidableEq

/-- What is fixed of a job when it is added. -/
structure Submitted where
  id : String
  target : Target

/-- `archiveRetention`, two hours in nanoseconds. -/
def archiveRetention : Int := 2 * 60 * 60 * 10 ^ 9

/-- A loop over the registry that takes jobs out. -/
inductive Sweep where
  /-- `listFor`, which read the clock before it took the lock. -/
  | list (now : Int)
  /-- `dismiss`, of one job or of all of a session. -/
  | dismiss (id sessionID : String)

/-- Whether the loop takes a job out. A job that has ended without a time ended at time zero. -/
def Sweep.removes (s : Submitted) (j : Job String ArchiveOutcome) : Sweep → Bool
  | .list now => j.status.terminal && j.finishedAt.all fun finishedAt =>
      decide (archiveRetention < now - finishedAt)
  | .dismiss id sessionID =>
    j.status.terminal && decide (s.target.sessionID = sessionID ∧ (id = "" ∨ s.id = id))

/-- What holds the manager's lock. -/
inductive Call where
  /-- `activeFor`, and the ids it has yet to look at. -/
  | check (target : Target) (unseen : List String)
  /-- A loop that reads the order at one place, and writes what stays at another. -/
  | sweep (s : Sweep) (read written : Nat)

/-- A request that has found no live job, when there were so many. -/
structure Pending where
  target : Target
  mark : Nat

structure Registry where
  world : World String ArchiveOutcome
  /-- What was submitted, for each job there has been. -/
  submitted : List Submitted := []
  jobs : ExtTreeMap String Nat := ∅
  order : List String := []
  held : Option Call := none
  pending : List Pending := []

namespace Registry

inductive Event where
  | tick (d : Nat)
  | act (job : Nat) (a : Act String)
  /-- A request begins its check, of the jobs in some order. -/
  | check (target : Target) (ids : List String)
  /-- A listing that read the clock some time ago. -/
  | list (age : Nat)
  | dismiss (id sessionID : String)
  /-- What holds the lock looks at the next job, or lets go of the lock. -/
  | visit
  /-- A request adds its job under the token it drew. -/
  | add (request : Nat) (id : String) (inbox : Bool)

variable (r : Registry)

/-- The job under an id. -/
def find (id : String) : Option (Submitted × Job String ArchiveOutcome) := do
  let n ← r.jobs[id]?
  let s ← r.submitted[n]?
  let j ← r.world.jobs[n]?
  pure (s, j)

/-- One turn of the loop that holds the lock; none where it meets a nil job. -/
def visit : Call → Option Registry
  | .check target [] =>
    some { r with
      held := none, pending := r.pending ++ [{ target, mark := r.world.jobs.length }] }
  | .check target (id :: unseen) =>
    (r.find id).map fun (s, j) =>
      if s.target = target ∧ j.status.terminal = false then { r with held := none }
      else { r with held := some (.check target unseen) }
  | .sweep s read written =>
    match r.order[read]? with
    | none => some { r with order := r.order.take written, held := none }
    | some id =>
      (r.find id).map fun (submitted, j) =>
        if s.removes submitted j then
          { r with jobs := r.jobs.erase id, held := some (.sweep s (read + 1) written) }
        else
          { r with
            order := r.order.set written id, held := some (.sweep s (read + 1) (written + 1)) }

def add (request : Pending) (id : String) (inbox : Bool) : Registry :=
  { r with
    world := { r.world with jobs := r.world.jobs ++ [{ outcome := archives.blank, inbox }] }
    submitted := r.submitted ++ [{ id, target := request.target }]
    jobs := r.jobs.insert id r.world.jobs.length
    order := r.order ++ [id] }

def step : Event → Option Registry
  | .tick d => (r.world.step archives (.tick d)).map fun world => { r with world }
  | .act n a => (r.world.step archives (.act n a)).map fun world => { r with world }
  | .check target ids =>
    if r.held.isNone ∧ ids.Perm r.jobs.keys then some { r with held := some (.check target ids) }
    else none
  | .list age =>
    if r.held.isNone then some { r with held := some (.sweep (.list (r.world.clock - age)) 0 0) }
    else none
  | .dismiss id sessionID =>
    if r.held.isNone then some { r with held := some (.sweep (.dismiss id sessionID) 0 0) }
    else none
  | .visit => r.held.bind r.visit
  | .add p id inbox =>
    if r.held.isNone then
      (r.pending[p]?).map fun request =>
        { r.add request id inbox with pending := r.pending.eraseIdx p }
    else none

/-- The manager of a server that starts. -/
def start (clock : Int) : Registry := { world := World.start clock }

/-- Random tokens do not come twice. -/
def Fresh (r : Registry) : Event → Prop
  | .add _ id _ => ∀ s ∈ r.submitted, s.id ≠ id
  | _ => True

instance (e : Event) : Decidable (Fresh r e) := by
  cases e <;> simp only [Fresh] <;> infer_instance

/-- The job is one for the target, and has not ended. -/
def Live (n : Nat) (target : Target) : Prop :=
  ∃ s j, r.submitted[n]? = some s ∧ r.world.jobs[n]? = some j ∧
    s.target = target ∧ j.status.terminal = false

/-- A request adds its job only when no live one was added for its target since its check. -/
def Alone (r : Registry) : Event → Prop
  | .add p _ _ => ∀ request, r.pending[p]? = some request →
      ∀ n, request.mark ≤ n → ¬ r.Live n request.target
  | _ => True

/-- A target has one live job at most. -/
def OneLive : Prop := ∀ target n m, r.Live n target → r.Live m target → n = m

/-- The ids in order; while a loop goes over them, those it has kept and those to come. -/
def ids : List String :=
  match r.held with
  | some (.sweep _ read written) => r.order.take written ++ r.order.drop read
  | _ => r.order

/-- The job is in the registry. -/
def Has (n : Nat) (id : String) : Prop := r.jobs[id]? = some n ∧ id ∈ r.ids

abbrev Runs (ok : Registry → Event → Prop) (clock : Int) (es : List Event) (r : Registry) : Prop :=
  Lib.Run (fun r e r' => r.step e = some r') ok (start clock) es r

/-! ## What the steps do -/

/-- The jobs go on: there are as many, and those that have ended are as they were. -/
def Goes (w w' : World String ArchiveOutcome) : Prop :=
  w'.jobs.length = w.jobs.length ∧ ∀ (n : Nat) (j' : Job String ArchiveOutcome), w'.jobs[n]? = some j' →
    ∃ j, w.jobs[n]? = some j ∧ (j.status.terminal = true → j'.status.terminal = true)

theorem goes_tick {w w' : World String ArchiveOutcome} {d : Nat}
    (h : w.step archives (.tick d) = some w') : Goes w w' := by
  cases h
  exact ⟨rfl, fun n j hj => ⟨j, hj, id⟩⟩

theorem goes_act {w w' : World String ArchiveOutcome} {m : Nat} {a : Act String}
    (h : w.step archives (.act m a) = some w') : Goes w w' := by
  simp only [World.step] at h
  split at h
  · next i hi =>
    obtain ⟨i', hstep, rfl⟩ := Option.map_eq_some_iff.mp h
    refine ⟨List.length_set, fun n j' hj' => ?_⟩
    rcases Lib.getElem?_set_cases hj' with ⟨rfl, rfl⟩ | ⟨-, hold⟩
    · exact ⟨i, hi, fun hended => ((Job.step_cases hstep).same hended).status ▸ hended⟩
    · exact ⟨j', hold, id⟩
  · cases h

/-- What the steps do, and when. -/
inductive Steps : Event → Registry → Prop where
  | run (e : Event) (world : World String ArchiveOutcome) (hgoes : Goes r.world world)
      (he : e matches .tick _ | .act _ _) : Steps e { r with world }
  | check (target : Target) (ids : List String) (hfree : r.held = none)
      (hids : ids.Perm r.jobs.keys) :
    Steps (.check target ids) { r with held := some (.check target ids) }
  | sweep (e : Event) (s : Sweep) (hfree : r.held = none)
      (he : e matches .list _ | .dismiss _ _) : Steps e { r with held := some (.sweep s 0 0) }
  | checked (target : Target) (hheld : r.held = some (.check target [])) :
    Steps .visit { r with
      held := none, pending := r.pending ++ [{ target, mark := r.world.jobs.length }] }
  | refused (target : Target) (id : String) (unseen : List String)
      (hheld : r.held = some (.check target (id :: unseen))) : Steps .visit { r with held := none }
  | passed (target : Target) (id : String) (unseen : List String) (s : Submitted)
      (j : Job String ArchiveOutcome) (hheld : r.held = some (.check target (id :: unseen)))
      (hfind : r.find id = some (s, j)) (hpassed : s.target = target → j.status.terminal = true) :
    Steps .visit { r with held := some (.check target unseen) }
  | swept (s : Sweep) (read written : Nat) (hheld : r.held = some (.sweep s read written))
      (hend : r.order[read]? = none) :
    Steps .visit { r with order := r.order.take written, held := none }
  | removed (s : Sweep) (read written : Nat) (id : String) (submitted : Submitted)
      (j : Job String ArchiveOutcome) (hheld : r.held = some (.sweep s read written))
      (hread : r.order[read]? = some id) (hfind : r.find id = some (submitted, j))
      (hended : j.status.terminal = true) :
    Steps .visit { r with jobs := r.jobs.erase id, held := some (.sweep s (read + 1) written) }
  | kept (s : Sweep) (read written : Nat) (id : String)
      (hheld : r.held = some (.sweep s read written)) (hread : r.order[read]? = some id) :
    Steps .visit { r with
      order := r.order.set written id, held := some (.sweep s (read + 1) (written + 1)) }
  | add (p : Nat) (id : String) (inbox : Bool) (request : Pending) (hfree : r.held = none)
      (hrequest : r.pending[p]? = some request) :
    Steps (.add p id inbox) { r.add request id inbox with pending := r.pending.eraseIdx p }

theorem Sweep.removes_terminal {sweep : Sweep} {s : Submitted} {j : Job String ArchiveOutcome}
    (h : sweep.removes s j = true) : j.status.terminal = true := by
  unfold Sweep.removes at h
  split at h <;> exact (Bool.and_eq_true_iff.mp h).1

variable {r} in
theorem step_cases {e : Event} {r' : Registry} (h : r.step e = some r') : Steps r e r' := by
  cases e <;> simp only [step] at h
  case tick d =>
    obtain ⟨w, hw, rfl⟩ := Option.map_eq_some_iff.mp h
    exact .run _ w (goes_tick hw) rfl
  case act n a =>
    obtain ⟨w, hw, rfl⟩ := Option.map_eq_some_iff.mp h
    exact .run _ w (goes_act hw) rfl
  case check target ids =>
    obtain ⟨⟨hfree, hids⟩, hr⟩ := Option.ite_none_right_eq_some.mp h
    cases hr
    exact .check target ids (Option.isNone_iff_eq_none.mp hfree) hids
  case list age =>
    obtain ⟨hfree, hr⟩ := Option.ite_none_right_eq_some.mp h
    cases hr
    exact .sweep _ _ (Option.isNone_iff_eq_none.mp hfree) rfl
  case dismiss id sessionID =>
    obtain ⟨hfree, hr⟩ := Option.ite_none_right_eq_some.mp h
    cases hr
    exact .sweep _ _ (Option.isNone_iff_eq_none.mp hfree) rfl
  case visit =>
    obtain ⟨call, hheld, hvisit⟩ := Option.bind_eq_some_iff.mp h
    unfold visit at hvisit
    split at hvisit
    · cases hvisit
      exact .checked _ hheld
    · next target id unseen =>
      obtain ⟨⟨s, j⟩, hfind, rfl⟩ := Option.map_eq_some_iff.mp hvisit
      dsimp only
      split
      · exact .refused target id unseen hheld
      · next hpassed =>
        refine .passed target id unseen s j hheld hfind fun htarget => ?_
        exact Bool.eq_true_of_not_eq_false fun hlive => hpassed ⟨htarget, hlive⟩
    · next s read written =>
      split at hvisit
      · next hend =>
        cases hvisit
        exact .swept s read written hheld hend
      · next id hread =>
        obtain ⟨⟨submitted, j⟩, hfind, rfl⟩ := Option.map_eq_some_iff.mp hvisit
        dsimp only
        split
        · next hremoves =>
          exact .removed s read written id submitted j hheld hread hfind
            (Sweep.removes_terminal hremoves)
        · exact .kept s read written id hheld hread
  case add p id inbox =>
    obtain ⟨hfree, hadd⟩ := Option.ite_none_right_eq_some.mp h
    obtain ⟨request, hrequest, rfl⟩ := Option.map_eq_some_iff.mp hadd
    exact .add p id inbox request (Option.isNone_iff_eq_none.mp hfree) hrequest

/-! ## The registry is in order -/

variable {r} {r' : Registry}

/-- The ids are those of the jobs there, each job once; and every live job is among these. -/
structure Sound (r : Registry) : Prop where
  length : r.submitted.length = r.world.jobs.length
  tokens : (r.submitted.map (·.id)).Nodup
  named : ∀ (id : String) (n : Nat), r.jobs[id]? = some n →
    ∃ s, r.submitted[n]? = some s ∧ s.id = id
  live : ∀ target n s, r.Live n target → r.submitted[n]? = some s → r.jobs[s.id]? = some n
  nodup : r.ids.Nodup
  mem_ids : ∀ id, id ∈ r.ids ↔ (r.jobs[id]?).isSome = true
  bounds : ∀ s read written, r.held = some (.sweep s read written) →
    written ≤ read ∧ read ≤ r.order.length

theorem Live.of_goes {w : World String ArchiveOutcome} (hgoes : Goes r.world w) {n : Nat}
    {target : Target} (h : Live { r with world := w } n target) : r.Live n target := by
  obtain ⟨s, j', hs, hj', htarget, hlive⟩ := h
  obtain ⟨j, hj, hended⟩ := hgoes.2 n j' hj'
  refine ⟨s, j, hs, hj, htarget, Bool.eq_false_iff.mpr fun hterminal => ?_⟩
  rw [hended hterminal] at hlive
  cases hlive

/-- A job that is added is live. -/
theorem live_add (hlength : r.submitted.length = r.world.jobs.length) {request : Pending}
    {id : String} {inbox : Bool} {pending : List Pending} {n : Nat} {target : Target} :
    Live { r.add request id inbox with pending } n target ↔
      r.Live n target ∨ n = r.world.jobs.length ∧ target = request.target := by
  constructor
  · rintro ⟨s, j, hs, hj, htarget, hlive⟩
    rcases Lib.getElem?_snoc.mp hs with hs | ⟨hn, rfl⟩
    · rcases Lib.getElem?_snoc.mp hj with hj | ⟨hn, rfl⟩
      · exact .inl ⟨s, j, hs, hj, htarget, hlive⟩
      · have hlt := (List.getElem?_eq_some_iff.mp hs).1
        omega
    · exact .inr ⟨hn.trans hlength, htarget.symm⟩
  · rintro (⟨s, j, hs, hj, htarget, hlive⟩ | ⟨rfl, rfl⟩)
    · exact ⟨s, j, Lib.getElem?_snoc.mpr (.inl hs), Lib.getElem?_snoc.mpr (.inl hj), htarget, hlive⟩
    · exact ⟨_, _, Lib.getElem?_snoc.mpr (.inr ⟨hlength.symm, rfl⟩),
        Lib.getElem?_snoc.mpr (.inr ⟨rfl, rfl⟩), rfl, rfl⟩

/-- What was submitted stays. -/
theorem Steps.submitted {e : Event} (hstep : Steps r e r') {n : Nat} {s : Submitted}
    (hs : r.submitted[n]? = some s) : r'.submitted[n]? = some s := by
  cases hstep with
  | add => exact Lib.getElem?_snoc.mpr (.inl hs)
  | _ => exact hs

theorem find_cases {id : String} {s : Submitted} {j : Job String ArchiveOutcome}
    (h : r.find id = some (s, j)) :
    ∃ n : Nat, r.jobs[id]? = some n ∧ r.submitted[n]? = some s ∧ r.world.jobs[n]? = some j := by
  obtain ⟨n, hn, h⟩ := Option.bind_eq_some_iff.mp h
  obtain ⟨s', hs, h⟩ := Option.bind_eq_some_iff.mp h
  obtain ⟨j', hj, h⟩ := Option.bind_eq_some_iff.mp h
  cases h
  exact ⟨n, hn, hs, hj⟩

/-- Every job in the registry can be looked up. -/
theorem Sound.find (h : r.Sound) {id : String} (hid : id ∈ r.ids) :
    ∃ s j, r.find id = some (s, j) ∧ s.id = id := by
  obtain ⟨n, hn⟩ := Option.isSome_iff_exists.mp ((h.mem_ids id).mp hid)
  obtain ⟨s, hs, hname⟩ := h.named id n hn
  have hlt : n < r.world.jobs.length := h.length ▸ (List.getElem?_eq_some_iff.mp hs).1
  refine ⟨s, r.world.jobs[n], ?_, hname⟩
  unfold Registry.find
  rw [hn, Option.bind_eq_bind, Option.bind_some, hs, Option.bind_eq_bind, Option.bind_some,
    List.getElem?_eq_getElem hlt]
  rfl

/-- What a loop reads is kept, or taken out of what is left. -/
theorem take_set_append_drop {order : List String} {read written : Nat} {id : String}
    (hread : order[read]? = some id) (hle : written ≤ read) :
    (order.set written id).take (written + 1) ++ (order.set written id).drop (read + 1) =
      order.take written ++ order.drop read := by
  obtain ⟨hlt, rfl⟩ := List.getElem?_eq_some_iff.mp hread
  rw [List.take_add_one, List.take_set_of_le (Nat.le_refl _), List.drop_set_of_lt (by omega),
    List.getElem?_set_self (by omega), List.drop_eq_getElem_cons hlt, Option.toList_some,
    List.append_assoc]
  rfl

theorem ids_of_free (hfree : r.held = none) : r.ids = r.order := by
  unfold ids
  rw [hfree]

theorem sound_start (clock : Int) : (start clock).Sound where
  length := rfl
  tokens := List.nodup_nil
  named id n hn := by simp [start] at hn
  live target n s hlive hs := by simp [start] at hs
  nodup := List.nodup_nil
  mem_ids id := by simp [start, ids]
  bounds s read written hheld := nomatch hheld

/-- The lock changes hands. -/
theorem Sound.hold (h : r.Sound) {held : Option Call} (hids : ids { r with held } = r.ids)
    (hbounds : ∀ s read written, held = some (.sweep s read written) →
      written ≤ read ∧ read ≤ r.order.length) : Sound { r with held } where
  length := h.length
  tokens := h.tokens
  named := h.named
  live := h.live
  nodup := hids ▸ h.nodup
  mem_ids := hids ▸ h.mem_ids
  bounds := hbounds

theorem Steps.sound {e : Event} (hfresh : Fresh r e) (hstep : Steps r e r') (h : r.Sound) :
    r'.Sound := by
  cases hstep with
  | run _ world hgoes =>
    exact { h with
      length := h.length.trans hgoes.1.symm
      live := fun target n s hlive hs => h.live target n s (hlive.of_goes hgoes) hs }
  | check target ids hfree =>
    exact h.hold (ids_of_free hfree).symm fun s read written hheld => (nomatch hheld)
  | sweep _ s hfree =>
    refine h.hold ((List.nil_append _).trans (ids_of_free hfree).symm) fun s read written hheld => ?_
    cases hheld
    exact ⟨Nat.le_refl _, Nat.zero_le _⟩
  | checked target hheld =>
    have hids : r.ids = r.order := by unfold ids; rw [hheld]
    have hfree : Sound { r with held := none } :=
      h.hold hids.symm fun s read written hheld => (nomatch hheld)
    exact { hfree with }
  | refused target id unseen hheld =>
    have hids : r.ids = r.order := by unfold ids; rw [hheld]
    exact h.hold hids.symm fun s read written hheld => (nomatch hheld)
  | passed target id unseen s j hheld =>
    have hids : r.ids = r.order := by unfold ids; rw [hheld]
    exact h.hold hids.symm fun s read written hheld => (nomatch hheld)
  | swept s read written hheld hend =>
    have hids : r.ids = r.order.take written := by
      have hempty := List.drop_eq_nil_of_le (List.getElem?_eq_none_iff.mp hend)
      unfold ids
      rw [hheld]
      simp only [hempty, List.append_nil]
    exact { h with
      nodup := hids ▸ h.nodup
      mem_ids := fun id => hids ▸ h.mem_ids id
      bounds := fun s read written hheld => (nomatch hheld) }
  | removed s read written id submitted j hheld hread hfind hended =>
    obtain ⟨n, hn, hs, hj⟩ := find_cases hfind
    obtain ⟨hlt, hid⟩ := List.getElem?_eq_some_iff.mp hread
    have hids : r.ids = r.order.take written ++ id :: r.order.drop (read + 1) := by
      rw [← hid, List.getElem_cons_drop]
      unfold ids
      rw [hheld]
    have hnodup := h.nodup
    rw [hids, List.nodup_middle, List.nodup_cons] at hnodup
    obtain ⟨hbound, -⟩ := h.bounds s read written hheld
    refine { length := h.length, tokens := h.tokens, named := ?_, live := ?_
             nodup := hnodup.2, mem_ids := fun x => ?_, bounds := ?_ }
    · intro x m hm
      dsimp only at hm
      rw [Lib.Table.get_erase] at hm
      split at hm
      · cases hm
      · exact h.named x m hm
    · intro target m sm hlive hsm
      have hat := h.live target m sm hlive hsm
      show (r.jobs.erase id)[sm.id]? = some m
      rw [Lib.Table.get_erase]
      split
      · next heq =>
        -- it is the one the loop has seen, which has ended
        rw [← heq, hn] at hat
        cases hat
        obtain ⟨-, j', -, hj', -, hlive⟩ := hlive
        cases hj.symm.trans hj'
        rw [hended] at hlive
        cases hlive
      · exact hat
    · show x ∈ r.order.take written ++ r.order.drop (read + 1) ↔ ((r.jobs.erase id)[x]?).isSome
      rw [Lib.Table.get_erase]
      have hmem := h.mem_ids x
      rw [hids, List.mem_append, List.mem_cons] at hmem
      split
      · next heq =>
        rw [← heq]
        exact ⟨fun hx => absurd hx hnodup.1, fun hx => (nomatch hx)⟩
      · next hne =>
        rw [← hmem, List.mem_append]
        simp [Ne.symm hne]
    · intro s' read' written' hheld'
      cases hheld'
      exact ⟨by omega, hlt⟩
  | kept s read written id hheld hread =>
    obtain ⟨hbound, -⟩ := h.bounds s read written hheld
    have hlt := (List.getElem?_eq_some_iff.mp hread).1
    have hids : ids { r with
        order := r.order.set written id, held := some (.sweep s (read + 1) (written + 1)) } =
          r.ids := by
      refine (take_set_append_drop hread hbound).trans ?_
      unfold ids
      rw [hheld]
    refine { h with
      nodup := by rw [hids]; exact h.nodup
      mem_ids := by rw [hids]; exact h.mem_ids
      bounds := ?_ }
    intro s' read' written' hheld'
    cases hheld'
    exact ⟨by omega, by rw [List.length_set]; exact hlt⟩
  | add p id inbox request hfree hrequest =>
    have hids := ids_of_free hfree
    have hnew : r.jobs[id]? = none := by
      rw [Option.eq_none_iff_forall_ne_some]
      intro n hn
      obtain ⟨s, hs, hname⟩ := h.named id n hn
      exact hfresh s (List.mem_of_getElem? hs) hname
    have hunlisted : id ∉ r.order := by
      rw [← hids, h.mem_ids, hnew]
      exact Bool.false_ne_true
    have hadded : ids { r.add request id inbox with pending := r.pending.eraseIdx p } =
        r.order ++ [id] := ids_of_free hfree
    refine { length := ?_, tokens := ?_, named := ?_, live := ?_, nodup := ?_, mem_ids := ?_
             bounds := fun s read written hheld => ?_ }
    · show (r.submitted ++ [_]).length = (r.world.jobs ++ [_]).length
      rw [List.length_append, List.length_append, h.length]
      rfl
    · show ((r.submitted ++ [Submitted.mk id request.target]).map Submitted.id).Nodup
      rw [List.map_append]
      refine List.nodup_append.mpr ⟨h.tokens, List.nodup_singleton _, fun x hx y hy heq => ?_⟩
      obtain ⟨s, hs, hname⟩ := List.mem_map.mp hx
      rw [List.map_singleton, List.mem_singleton] at hy
      exact hfresh s hs (hname.trans (heq.trans hy))
    · intro x n hn
      replace hn : (r.jobs.insert id r.world.jobs.length)[x]? = some n := hn
      rw [Lib.Table.get_insert] at hn
      split at hn
      · next heq =>
        cases hn
        exact ⟨_, Lib.getElem?_snoc.mpr (.inr ⟨h.length.symm, rfl⟩), heq⟩
      · obtain ⟨s, hs, hname⟩ := h.named x n hn
        exact ⟨s, Lib.getElem?_snoc.mpr (.inl hs), hname⟩
    · intro target n s hlive hs
      show (r.jobs.insert id r.world.jobs.length)[s.id]? = some n
      rw [Lib.Table.get_insert]
      rcases Lib.getElem?_snoc.mp hs with hs | ⟨hn, rfl⟩
      · rw [if_neg fun heq => hfresh s (List.mem_of_getElem? hs) heq.symm]
        rcases (live_add h.length).mp hlive with hlive | ⟨hn, -⟩
        · exact h.live target n s hlive hs
        · have hlt := (List.getElem?_eq_some_iff.mp hs).1
          have hlength := h.length
          omega
      · rw [if_pos rfl, hn, h.length]
    · rw [hadded]
      refine List.nodup_append.mpr ⟨hids ▸ h.nodup, List.nodup_singleton _, fun x hx y hy heq => ?_⟩
      rw [List.mem_singleton] at hy
      exact hunlisted (hy ▸ heq ▸ hx)
    · intro x
      rw [hadded]
      show x ∈ r.order ++ [id] ↔ ((r.jobs.insert id r.world.jobs.length)[x]?).isSome
      rw [Lib.Table.get_insert, List.mem_append, List.mem_singleton, ← hids, h.mem_ids]
      split
      · next heq => simp [heq]
      · next hne => simp [Ne.symm hne]
    · replace hheld : r.held = some (.sweep s read written) := hheld
      rw [hfree] at hheld
      cases hheld

/-! ## One live job for a target -/

/-- What a request's check has established: of the target's jobs there were, none is live, except
those it has yet to look at. -/
structure Checked (r : Registry) : Prop where
  check : ∀ target unseen, r.held = some (.check target unseen) →
    ∀ n s, r.Live n target → r.submitted[n]? = some s → s.id ∈ unseen
  listed : ∀ target unseen, r.held = some (.check target unseen) → ∀ id ∈ unseen, id ∈ r.ids
  pending : ∀ request ∈ r.pending, ∀ n, r.Live n request.target → request.mark ≤ n
  marks : ∀ request ∈ r.pending, request.mark ≤ r.world.jobs.length

theorem checked_start (clock : Int) : (start clock).Checked where
  check _ _ hheld := nomatch hheld
  listed _ _ hheld := nomatch hheld
  pending _ hrequest := absurd hrequest List.not_mem_nil
  marks _ hrequest := absurd hrequest List.not_mem_nil

theorem Live.lt {n : Nat} {target : Target} (h : r.Live n target) : n < r.world.jobs.length := by
  obtain ⟨s, j, -, hj, -⟩ := h
  exact (List.getElem?_eq_some_iff.mp hj).1

theorem Steps.checked_kept {e : Event} (hstep : Steps r e r') (hsound : r.Sound) (h : r.Checked) :
    r'.Checked := by
  cases hstep with
  | run _ world hgoes =>
    exact {
      check := fun target unseen hheld n s hlive hs =>
        h.check target unseen hheld n s (hlive.of_goes hgoes) hs
      listed := h.listed
      pending := fun request hrequest n hlive =>
        h.pending request hrequest n (hlive.of_goes hgoes)
      marks := fun request hrequest => hgoes.1 ▸ h.marks request hrequest }
  | check target ids hfree hids =>
    have hkeys : ∀ id, id ∈ ids ↔ (r.jobs[id]?).isSome := fun id => by
      rw [hids.mem_iff, ExtTreeMap.mem_keys, ExtTreeMap.mem_iff_isSome_getElem?]
    refine { h with check := fun target' unseen hheld n s hlive hs => ?_
                    listed := fun target' unseen hheld id hid => ?_ }
    all_goals cases hheld
    · rw [hkeys, hsound.live target n s hlive hs]
      rfl
    · rw [hkeys, ← hsound.mem_ids, ids_of_free hfree] at hid
      exact hid
  | sweep _ s hfree =>
    exact { h with check := fun _ _ hheld => (nomatch hheld), listed := fun _ _ hheld => (nomatch hheld) }
  | checked target hheld =>
    refine { check := fun _ _ hheld => (nomatch hheld), listed := fun _ _ hheld => (nomatch hheld)
             pending := ?_, marks := ?_ }
    all_goals intro request hrequest
    · intro n hlive
      rcases List.mem_append.mp hrequest with hrequest | hrequest
      · exact h.pending request hrequest n hlive
      · rw [List.mem_singleton.mp hrequest] at hlive ⊢
        have ⟨s, _, hs, _⟩ := hlive
        exact absurd (h.check target [] hheld n s hlive hs) List.not_mem_nil
    · rcases List.mem_append.mp hrequest with hrequest | hrequest
      · exact h.marks request hrequest
      · rw [List.mem_singleton.mp hrequest]
  | refused =>
    exact { h with check := fun _ _ hheld => (nomatch hheld), listed := fun _ _ hheld => (nomatch hheld) }
  | passed target id unseen s j hheld hfind hpassed =>
    refine { h with check := fun target' unseen' hheld' n s' hlive hs' => ?_
                    listed := fun target' unseen' hheld' x hx => ?_ }
    all_goals cases hheld'
    · rcases List.mem_cons.mp (h.check target (id :: unseen) hheld n s' hlive hs') with heq | hmem
      · -- a live one would not have been passed
        have hat := hsound.live target n s' hlive hs'
        obtain ⟨m, hm, hs, hj⟩ := find_cases hfind
        rw [heq, hm] at hat
        cases hat
        obtain ⟨s'', j', hs'', hj', htarget, hterminal⟩ := hlive
        cases hs.symm.trans hs''
        cases hj.symm.trans hj'
        rw [hpassed htarget] at hterminal
        cases hterminal
      · exact hmem
    · have hin := h.listed target (id :: unseen) hheld x (List.mem_cons_of_mem _ hx)
      unfold ids at hin
      rw [hheld] at hin
      exact hin
  | swept =>
    exact { h with check := fun _ _ hheld => (nomatch hheld), listed := fun _ _ hheld => (nomatch hheld) }
  | removed =>
    exact { h with check := fun _ _ hheld => (nomatch hheld), listed := fun _ _ hheld => (nomatch hheld) }
  | kept =>
    exact { h with check := fun _ _ hheld => (nomatch hheld), listed := fun _ _ hheld => (nomatch hheld) }
  | add p id inbox request hfree hrequest =>
    have hlater : r.world.jobs.length ≤ (r.add request id inbox).world.jobs.length := by
      unfold Registry.add
      rw [List.length_append]
      exact Nat.le_add_right _ _
    have hnone : ∀ call, (r.add request id inbox).held ≠ some call :=
      fun call hheld => (nomatch hfree.symm.trans hheld)
    refine { check := fun _ _ hheld => absurd hheld (hnone _)
             listed := fun _ _ hheld => absurd hheld (hnone _), pending := ?_, marks := ?_ }
    · intro request' hrequest' n hlive
      have hmem := List.mem_of_mem_eraseIdx hrequest'
      rcases (live_add hsound.length).mp hlive with hlive | ⟨rfl, -⟩
      · exact h.pending request' hmem n hlive
      · exact h.marks request' hmem
    · intro request' hrequest'
      exact (h.marks request' (List.mem_of_mem_eraseIdx hrequest')).trans hlater

/-- **A step leaves one live job for a target at most exactly if no request adds one while another
is live that was added since its check.** -/
theorem Steps.oneLive_iff {e : Event} (hstep : Steps r e r') (hsound : r.Sound) (hchecked : r.Checked)
    (h : r.OneLive) : r'.OneLive ↔ Alone r e := by
  have hsame : (∀ target n, r'.Live n target → r.Live n target) → r'.OneLive :=
    fun hlive target n m hn hm => h target n m (hlive target n hn) (hlive target m hm)
  cases hstep with
  | run e world hgoes he =>
    refine iff_of_true (hsame fun target n hlive => hlive.of_goes hgoes) ?_
    cases e <;> trivial
  | sweep e s hfree he =>
    refine iff_of_true (hsame fun target n hlive => hlive) ?_
    cases e <;> trivial
  | add p id inbox request hfree hrequest =>
    have hadd := @live_add r hsound.length request id inbox (r.pending.eraseIdx p)
    constructor
    · intro hone request' hrequest' n hmark hlive
      cases hrequest.symm.trans hrequest'
      have heq := hone _ _ _ (hadd.mpr (.inl hlive)) (hadd.mpr (.inr ⟨rfl, rfl⟩))
      exact absurd hlive.lt (heq ▸ Nat.lt_irrefl _)
    · intro halone target n m hn hm
      -- those from before the check were found to have ended
      have hnone : ∀ n, ¬ r.Live n request.target := fun n hlive =>
        halone request hrequest n
          (hchecked.pending request (List.mem_of_getElem? hrequest) n hlive) hlive
      rcases hadd.mp hn with hn | ⟨rfl, rfl⟩
      · rcases hadd.mp hm with hm | ⟨rfl, rfl⟩
        · exact h target n m hn hm
        · exact absurd hn (hnone n)
      · rcases hadd.mp hm with hm | ⟨rfl, -⟩
        · exact absurd hm (hnone m)
        · rfl
  | _ => exact iff_of_true (hsame fun target n hlive => hlive) trivial

/-! ## Runs -/

section Runs

variable {clock : Int} {es : List Event}

theorem sound_of_runs (hrun : Runs Fresh clock es r) : r.Sound ∧ r.Checked := by
  refine hrun.invariant (P := fun r => r.Sound ∧ r.Checked) ⟨sound_start clock, checked_start clock⟩
    fun r e r' h hfresh hstep => ?_
  have hsteps := step_cases hstep
  exact ⟨hsteps.sound hfresh h.1, hsteps.checked_kept h.1 h.2⟩

/-- A live job is in the registry. -/
theorem Sound.has (h : r.Sound) {n : Nat} {target : Target} (hlive : r.Live n target) {s : Submitted}
    (hs : r.submitted[n]? = some s) : r.Has n s.id := by
  have hat := h.live target n s hlive hs
  exact ⟨hat, (h.mem_ids s.id).mpr (hat ▸ rfl)⟩

/-- What holds the lock can always go on: it never meets a nil job. -/
theorem visit_possible (hrun : Runs Fresh clock es r) {call : Call} (hheld : r.held = some call) :
    ∃ r', r.step .visit = some r' := by
  obtain ⟨hsound, hchecked⟩ := sound_of_runs hrun
  simp only [step]
  rw [hheld, Option.bind_some]
  unfold visit
  split
  · exact ⟨_, rfl⟩
  · next target id unseen =>
    obtain ⟨s, j, hfind, -⟩ :=
      hsound.find (hchecked.listed target (id :: unseen) hheld id List.mem_cons_self)
    rw [hfind]
    exact ⟨_, rfl⟩
  · next s read written =>
    split
    · exact ⟨_, rfl⟩
    · next id hread =>
      have hid : id ∈ r.ids := by
        unfold ids
        rw [hheld]
        refine List.mem_append_right _ (List.mem_of_getElem? (i := 0) ?_)
        rwa [List.getElem?_drop]
      obtain ⟨s', j, hfind, -⟩ := hsound.find hid
      rw [hfind]
      exact ⟨_, rfl⟩

/-- **One live archive for a version of a document**, in whatever order the requests, the jobs, the
listings and the dismissals take their steps, as long as no request adds its job while another is
live that was added for the same version since its check; the first that does leaves two. A job that
has not ended is in the registry, and no step takes it out. -/
theorem one_live_archive (hrun : Runs Fresh clock es r) :
    (∀ target n s, r.Live n target → r.submitted[n]? = some s → r.Has n s.id) ∧
      (∀ e r', Fresh r e → r.step e = some r' → ∀ n id, r.Has n id → ¬ r'.Has n id →
        ∃ j : Job _ _, r'.world.jobs[n]? = some j ∧ j.status.terminal = true) ∧
      (Runs (fun r e => Fresh r e ∧ Alone r e) clock es r → r.OneLive ∧
        ∀ e r', Fresh r e → r.step e = some r' → (r'.OneLive ↔ Alone r e)) := by
  obtain ⟨hsound, hchecked⟩ := sound_of_runs hrun
  refine ⟨fun target n s hlive hs => hsound.has hlive hs, ?_, fun halone => ?_⟩
  · intro e r' hfresh hstep n id hhas hgone
    have hsteps := step_cases hstep
    have hsound' := hsteps.sound hfresh hsound
    obtain ⟨s, hs, rfl⟩ := hsound.named id n hhas.1
    have hs' := hsteps.submitted hs
    have hlt : n < r'.world.jobs.length := hsound'.length ▸ (List.getElem?_eq_some_iff.mp hs').1
    refine ⟨_, List.getElem?_eq_getElem hlt, Bool.eq_true_of_not_eq_false fun hlive => hgone ?_⟩
    exact hsound'.has ⟨s, _, hs', List.getElem?_eq_getElem hlt, rfl, hlive⟩ hs'
  · have hone : r.OneLive := by
      refine (halone.invariant (P := fun r => (r.Sound ∧ r.Checked) ∧ r.OneLive)
        ⟨⟨sound_start clock, checked_start clock⟩, ?_⟩ ?_).2
      · intro target n m hn
        exact absurd hn.lt (Nat.not_lt_zero n)
      · intro r e r' h hok hstep
        have hsteps := step_cases hstep
        exact ⟨⟨hsteps.sound hok.1 h.1.1, hsteps.checked_kept h.1.1 h.1.2⟩,
          (hsteps.oneLive_iff h.1.1 h.1.2 h.2).mpr hok.2⟩
    exact ⟨hone, fun e r' hfresh hstep => (step_cases hstep).oneLive_iff hsound hchecked hone⟩

end Runs

/-! ## Two requests -/

def part : Target := { sessionID := "s", itemID := "i", versionID := "v1" }

instance (n : Nat) (target : Target) : Decidable (r.Live n target) :=
  match hs : r.submitted[n]?, hj : r.world.jobs[n]? with
  | some s, some j =>
    decidable_of_iff (s.target = target ∧ j.status.terminal = false)
      ⟨fun h => ⟨s, j, hs, hj, h⟩, by
        rintro ⟨s', j', hs', hj', h⟩
        cases hs.symm.trans hs'
        cases hj.symm.trans hj'
        exact h⟩
  | none, _ => .isFalse fun ⟨s, _, hs', _⟩ => nomatch hs.symm.trans hs'
  | _, none => .isFalse fun ⟨_, j, _, hj', _⟩ => nomatch hj.symm.trans hj'

instance (e : Event) : Decidable (Alone r e) := by
  cases e
  case add p id inbox =>
    refine decidable_of_iff (∀ request ∈ r.pending[p]?, ∀ n < r.world.jobs.length,
      request.mark ≤ n → ¬ r.Live n request.target) ⟨fun h request hrequest n hmark hlive => ?_,
        fun h request hrequest n _ hmark => h request hrequest n hmark⟩
    exact h request hrequest n hlive.lt hmark hlive
  all_goals exact .isTrue trivial

/-- A second request while the first one's job is live is refused. -/
def asked : List Event :=
  [.check part [], .visit, .add 0 "a" true, .check part ["a"], .visit, .list 0, .visit, .visit]

/-- Both requests have checked when the first adds its job. -/
def raced : List Event :=
  [.check part [], .visit, .check part [], .visit, .add 0 "a" true, .add 0 "b" true]

theorem one_live_archive_asked :
    ∃ r, Runs Fresh 0 asked r ∧ r.OneLive ∧ r.Live 0 part ∧ r.Has 0 "a" ∧ r.pending.length = 0 := by
  have hcheck : (Lib.Run.exec step (fun r e => Fresh r e ∧ Alone r e) asked (start 0)).any (fun r =>
      decide (r.Live 0 part ∧ r.submitted.map (·.id) = ["a"] ∧ r.pending.length = 0)) = true := by
    decide +kernel
  obtain ⟨r, hr, hcheck⟩ := (Option.any_eq_true _ _).mp hcheck
  obtain ⟨hlive, hid, hpending⟩ := of_decide_eq_true hcheck
  have halone := Lib.Run.of_exec asked hr
  have hrun : Runs Fresh 0 asked r := halone.mono fun _ _ h => h.1
  obtain ⟨hhas, -, hone⟩ := one_live_archive hrun
  have ⟨s, _, hs, _⟩ := hlive
  have hname : s.id = "a" := by
    have hat := congrArg (·[0]?) hid
    rw [List.getElem?_map, hs] at hat
    exact Option.some.inj hat
  exact ⟨r, hrun, (hone halone).1, hlive, hname ▸ hhas part 0 s hlive hs, hpending⟩

/-- The two requests have two live jobs. -/
theorem two_live_archives :
    ∃ r, Runs Fresh 0 raced r ∧ r.Live 0 part ∧ r.Live 1 part ∧ ¬ r.OneLive := by
  have hcheck : (Lib.Run.exec step Fresh raced (start 0)).any (fun r =>
      decide (r.Live 0 part ∧ r.Live 1 part)) = true := by decide +kernel
  obtain ⟨r, hr, hcheck⟩ := (Option.any_eq_true _ _).mp hcheck
  obtain ⟨hfirst, hsecond⟩ := of_decide_eq_true hcheck
  exact ⟨r, Lib.Run.of_exec raced hr, hfirst, hsecond, fun hone =>
    absurd (hone part 0 1 hfirst hsecond) Nat.zero_ne_one⟩

end Registry

end Jobs
